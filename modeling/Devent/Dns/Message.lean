import Devent.Library.Bytes
import Devent.Library.Fuel

/-! Access to the bytes of a DNS message. A read or write outside the bytes given
is a fault that names the index. Messages are shorter than 2^31 bytes, so the
int and unsigned counters of the code are exact. -/
namespace Devent.Dns
open Outcome

abbrev Access := Outcome Int

def byteAt (data : List Byte) (i : Int) : Option Byte := if 0 ≤ i then data[i.toNat]? else none

def read (data : List Byte) (i : Int) : Access Byte :=
  match byteAt data i with
  | some b => .value b
  | none => .fault i

/-- `ntohs` of the two bytes at `i`. -/
def readNtohs (data : List Byte) (i : Int) : Access Nat := do
  let high ← read data i
  let low ← read data (i + 1)
  return high.toNat * 256 + low.toNat

/-- `memcpy` from the message. -/
def readBytes (data : List Byte) (i : Int) : Nat → Access (List Byte)
  | 0 => .value []
  | n + 1 => do
    let b ← read data i
    let rest ← readBytes data (i + 1) n
    return b :: rest

/-- `hexDump` prints every byte of the range; it has no other effect. -/
def hexDump (data : List Byte) (i : Int) (len : Nat) : Access Unit := do
  let _ ← readBytes data i len
  return ()

/-- What strndup reads: at most `n` bytes, up to a zero byte. -/
def copyString : List Byte → Int → Nat → Access (List Byte)
  | _, _, 0 => .value []
  | [], i, _ + 1 => .fault i
  | b :: rest, i, n + 1 =>
    if b = 0 then .value []
    else do
      let more ← copyString rest (i + 1) n
      return b :: more

def strndup (data : List Byte) (i : Int) (n : Nat) : Access (List Byte) :=
  if 0 ≤ i then copyString (data.drop i.toNat) i n
  else if n = 0 then .value []
  else .fault i

/-- `memcpy` into an allocated block. -/
def writeBytes (block : List Byte) (i : Int) (bytes : List Byte) : Access (List Byte) :=
  if i < 0 then .fault i
  else if i.toNat + bytes.length ≤ block.length then
    .value (block.take i.toNat ++ (bytes ++ block.drop (i.toNat + bytes.length)))
  else .fault block.length

/-- A block of known size. -/
abbrev Block (n : Nat) := { bytes : List Byte // bytes.length = n }

/-- What malloc returns for each size, uninitialised. -/
abbrev Malloc := (n : Nat) → Block n

/-- The two bytes `htons` leaves in memory. -/
def htons (n : Nat) : List Byte := [UInt8.ofNat (n / 256), UInt8.ofNat n]

end Devent.Dns
