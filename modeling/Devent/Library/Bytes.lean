import Mathlib.Data.List.TakeWhile
import Mathlib.Data.Int.ModEq
import Mathlib.Tactic.Zify

/-! Bytes as the C code sees them: `char` is signed, widening to `size_t` keeps
the sign, and a string stops at its first zero byte. All conversions are those
of a 64-bit two's-complement target with 32-bit `int`. -/
namespace Devent

abbrev Byte := UInt8

/-- The value of a plain `char`. -/
def signedChar (b : Byte) : Int := if b.toNat < 128 then b.toNat else (b.toNat : Int) - 256

/-- Conversion to `size_t`. -/
def sizeT (i : Int) : Nat := (i % 2 ^ 64).toNat

/-- Conversion to `uint32_t`. -/
def uint32T (i : Int) : Nat := (i % 2 ^ 32).toNat

/-- Conversion of an unsigned value to `int`. -/
def intT (n : Nat) : Int :=
  if n % 2 ^ 32 < 2 ^ 31 then (n % 2 ^ 32 : Nat) else (n % 2 ^ 32 : Nat) - 2 ^ 32

theorem signedChar_low {b : Byte} (low : b.toNat < 128) : signedChar b = b.toNat := if_pos low

theorem signedChar_high {b : Byte} (high : 128 ≤ b.toNat) : signedChar b = (b.toNat : Int) - 256 :=
  if_neg (by omega)

theorem sizeT_natCast {n : Nat} (small : n < 2 ^ 64) : sizeT n = n := by
  simp only [sizeT]
  omega

theorem sizeT_signedChar_low {b : Byte} (low : b.toNat < 128) : sizeT (signedChar b) = b.toNat := by
  rw [signedChar_low low]
  exact sizeT_natCast (by omega)

/-- A negative `char` widens to a length no object can have. -/
theorem sizeT_signedChar_high {b : Byte} (high : 128 ≤ b.toNat) :
    sizeT (signedChar b) = b.toNat + 18446744073709551360 := by
  have bound := b.toNat_lt
  have wrapped : ((b.toNat : Int) - 256) % 2 ^ 64 = b.toNat + 18446744073709551360 := by omega
  rw [sizeT, signedChar_high high, wrapped]
  omega

theorem intT_small {n : Nat} (small : n < 2 ^ 31) : intT n = n := by
  rw [intT, Nat.mod_eq_of_lt (by omega), if_pos small]

/-- Masking a sign-extended `int` by a power of two below the width only sees
its low bits. -/
theorem sizeT_mask (h : Int) {k : Nat} (narrow : k ≤ 32) :
    sizeT h &&& (2 ^ k - 1) = uint32T h % 2 ^ k := by
  have wide : ((2 : Int) ^ k) ∣ 2 ^ 64 := pow_dvd_pow 2 (by omega)
  have half : ((2 : Int) ^ k) ∣ 2 ^ 32 := pow_dvd_pow 2 narrow
  rw [Nat.and_two_pow_sub_one_eq_mod]
  zify
  simp only [sizeT, uint32T]
  rw [Int.toNat_of_nonneg (Int.emod_nonneg _ (by decide)),
    Int.toNat_of_nonneg (Int.emod_nonneg _ (by decide)),
    Int.emod_emod_of_dvd _ wide, Int.emod_emod_of_dvd _ half]

/-- The bytes of a word in memory, the low one first. -/
def littleEndian : Nat → Nat → List Byte
  | 0, _ => []
  | n + 1, v => UInt8.ofNat v :: littleEndian n (v / 256)

def ofLittleEndian : List Byte → Nat
  | [] => 0
  | b :: rest => b.toNat + 256 * ofLittleEndian rest

@[simp] theorem length_littleEndian (n v : Nat) : (littleEndian n v).length = n := by
  induction n generalizing v with
  | zero => rfl
  | succ n ih => rw [littleEndian, List.length_cons, ih]

theorem ofLittleEndian_littleEndian (n v : Nat) : ofLittleEndian (littleEndian n v) = v % 256 ^ n := by
  induction n generalizing v with
  | zero => rw [Nat.pow_zero, Nat.mod_one, littleEndian, ofLittleEndian]
  | succ n ih =>
    have low : (UInt8.ofNat v).toNat = v % 256 := UInt8.toNat_ofNat
    rw [littleEndian, ofLittleEndian, ih, low, Nat.pow_succ, Nat.mul_comm (256 ^ n), Nat.mod_mul]

/-- A string argument of C: the bytes before its terminating zero. -/
structure CString where
  bytes : List Byte
  terminated : 0 ∉ bytes
  deriving DecidableEq

theorem nul_notMem_a : (0 : Byte) ∉ [97] := by decide

theorem nul_notMem_p : (0 : Byte) ∉ [112] := by decide

theorem nul_notMem_u : (0 : Byte) ∉ [117] := by decide

namespace CString

/-- What a function of string.h sees of a zero-terminated array. -/
def ofBytes (bs : List Byte) : CString where
  bytes := bs.takeWhile (· ≠ 0)
  terminated := by
    intro member
    have nonzero := List.mem_takeWhile_imp member
    exact absurd rfl (of_decide_eq_true nonzero)

theorem ofBytes_bytes (s : CString) : ofBytes s.bytes = s := by
  obtain ⟨bytes, terminated⟩ := s
  simp only [ofBytes, mk.injEq, List.takeWhile_eq_self_iff]
  intro b member
  have : b ≠ 0 := fun zero => terminated (zero ▸ member)
  exact decide_eq_true this

def strlen (s : CString) : Nat := s.bytes.length

/-- A string reaches as far as no zero byte stands in the array. -/
theorem le_strlen_ofBytes_iff {bs : List Byte} {n : Nat} (inside : n ≤ bs.length) :
    n ≤ (ofBytes bs).strlen ↔ 0 ∉ bs.take n := by
  have width : (bs.take n).length = n := by
    rw [List.length_take]
    exact Nat.min_eq_left inside
  have front : (bs.takeWhile (· ≠ 0)).take n = (bs.take n).takeWhile (· ≠ 0) := List.take_takeWhile
  have clean : (bs.take n).takeWhile (· ≠ 0) = bs.take n ↔ 0 ∉ bs.take n := by
    rw [List.takeWhile_eq_self_iff]
    constructor
    · exact fun nonzero zero => absurd rfl (of_decide_eq_true (nonzero 0 zero))
    · exact fun absent b member => decide_eq_true fun zero => absent (zero ▸ member)
  rw [← clean, ← front]
  constructor
  · intro reaches
    apply List.IsPrefix.eq_of_length_le
    · rw [front]
      exact List.takeWhile_prefix _
    · rw [width, List.length_take]
      exact Nat.le_min.mpr ⟨Nat.le_refl _, reaches⟩
  · intro same
    have lengths := congrArg List.length same
    rw [width, List.length_take] at lengths
    exact Nat.le_trans (Nat.le_of_eq lengths.symm) (Nat.min_le_right ..)

/-- The copy that strndup makes of an array. -/
def strndup (bs : List Byte) (n : Nat) : CString := ofBytes (bs.take n)

end CString

end Devent
