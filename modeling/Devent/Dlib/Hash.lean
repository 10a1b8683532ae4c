import Devent.Library.Bytes

/-! `c_hash` of dlib/c_hash.c: a multiplicative hash in `size_t`, returned as
`int`, and the bucket masks its callers apply to it. -/
namespace Devent

def cHashMagicCode : Int := 1103515245

/-- `hash *= C_HASH_MAGIC_CODE + (int) str[i]`, the sum widened to `size_t`. -/
def hashStep (hash : Nat) (c : Byte) : Nat := hash * sizeT (cHashMagicCode + signedChar c) % 2 ^ 64

def cHash (str : CString) : Int :=
  match str.bytes with
  | [] => 0
  | first :: rest => intT (rest.foldl hashStep (sizeT (signedChar first)) >>> 27)

/-- `(size_t) hash & (cap - 1)`. -/
def bucketIndex (key : CString) (cap : Nat) : Nat := sizeT (cHash key) &&& (cap - 1)

/-- For a power-of-two capacity the bucket is the hash modulo the capacity. -/
theorem bucketIndex_pow (key : CString) {k : Nat} (narrow : k ≤ 32) :
    bucketIndex key (2 ^ k) = uint32T (cHash key) % 2 ^ k := sizeT_mask _ narrow

theorem bucketIndex_lt (key : CString) {k : Nat} (narrow : k ≤ 32) :
    bucketIndex key (2 ^ k) < 2 ^ k := by
  rw [bucketIndex_pow key narrow]
  exact Nat.mod_lt _ (Nat.two_pow_pos k)

end Devent
