import Devent.Library.Bytes
import Devent.Library.Region

/-! The growing array of pointers of dlib/c_array.c, with the bytes of its block. A pointer is a
word of eight bytes, NULL is 0. An access outside the block or to a block that was freed, a read of
a byte never written and a `memcpy` of overlapping bytes are undefined. Arrays are not NULL,
allocation succeeds, and `free_cb` stays the NULL of `array_init`. -/
namespace Devent

structure CArray where
  len : Nat
  cap : Nat
  array : Region Byte
  freed : Bool
  deriving DecidableEq

namespace CArray

def pointerSize : Nat := 8

/-- `array[i]`, read. -/
def load (array : CArray) (i : Nat) : Option UInt64 :=
  if array.freed then none
  else do
    let bytes ← (array.array.load (pointerSize * i) pointerSize).toOption
    return UInt64.ofNat (ofLittleEndian bytes)

/-- `array[i] = value`. -/
def store (array : CArray) (i : Nat) (value : UInt64) : Option CArray :=
  if array.freed then none
  else do
    let block ← (array.array.store (pointerSize * i) (littleEndian pointerSize value.toNat)).toOption
    return { array with array := block }

/-- `memcpy` of `n` bytes from the slot `source` to the slot `target`. -/
def memcpy (array : CArray) (target source n : Nat) : Option CArray :=
  if array.freed then none
  else if pointerSize * target < pointerSize * source + n ∧ pointerSize * source < pointerSize * target + n then none
  else do
    let block ← (array.array.copy (pointerSize * target) array.array (pointerSize * source) n).toOption
    return { array with array := block }

/-- `array_init`. -/
def init : CArray := ⟨0, 8, Region.uninit 8, false⟩

/-- `UPDATE_ARRAY_CAP`: the new block is dropped again, the old one is freed. -/
def updateArrayCap (array : CArray) : Option CArray :=
  if array.len = array.cap then
    if array.freed then none
    else do
      let newCap := if array.cap < 2 then 1 else 0
      let _ ← (Region.copy (Region.uninit newCap) 0 array.array 0 array.len).toOption
      return { array with freed := true }
  else some array

def add (array : CArray) (value : UInt64) : Option (CArray × Int) := do
  let array ← array.updateArrayCap
  let index := array.len
  let array ← array.store index value
  return ({ array with len := array.len + 1 }, index)

def insert (array : CArray) (index : Int) (value : UInt64) : Option (CArray × Int) := do
  let array ← array.updateArrayCap
  let index := if index > array.len then (array.len : Int) else index
  if index < 0 then some (array, -1)
  else if index = array.len then array.add value
  else do
    let insertIndex := index.toNat
    let array ← array.memcpy (insertIndex + 1) insertIndex (array.len - insertIndex)
    let array ← array.store insertIndex value
    return ({ array with len := array.len + 1 }, index)

def remove (array : CArray) (index : Int) : Option (CArray × Int) :=
  if index < 0 ∨ index ≥ array.len then some (array, -1)
  else do
    let _ ← array.load index.toNat
    if array.len = 1 then do
      let array ← array.store 0 0
      return ({ array with len := array.len - 1 }, 0)
    else do
      let p := index.toNat
      let array ← array.memcpy p (p + 1) (array.len - p - 1)
      return ({ array with len := array.len - 1 }, 0)

def get (array : CArray) (index : Int) : Option UInt64 :=
  if index < 0 ∨ index ≥ array.len then some 0 else array.load index.toNat

/-- The loop of `array_clear`, from `i` on. -/
def clearLoop : Nat → Nat → CArray → Option CArray
  | 0, i, array => if i < array.len then none else some array
  | rounds + 1, i, array =>
    if i < array.len then do
      let _ ← array.load i
      let array ← array.store i 0
      clearLoop rounds (i + 1) array
    else some array

def clear (array : CArray) : Option (CArray × Int) := do
  let array ← clearLoop array.len 0 array
  return ({ array with len := 0 }, 0)

/-- The search loop of `array_remove_by_value`, from `i` on; -1 when it runs out. -/
def findValue (array : CArray) (value : UInt64) : Nat → Nat → Option Int
  | 0, i => if i < array.len then none else some (-1)
  | rounds + 1, i =>
    if i < array.len then do
      let found ← array.load i
      if found = value then return intT i else findValue array value rounds (i + 1)
    else some (-1)

def removeByValue (array : CArray) (value : UInt64) : Option (CArray × Int) :=
  if value = 0 then some (array, -1)
  else do
    let index ← array.findValue value array.len 0
    if index ≠ -1 then do
      let (array, _) ← array.remove index
      return (array, 0)
    else return (array, 0)

/-- What callers store. -/
abbrev Pointer := { v : UInt64 // v ≠ 0 }

inductive Op where
  | add (value : Pointer)
  | insert (index : Int) (value : Pointer)
  | remove (index : Int)
  | removeByValue (value : Pointer)
  | clear
  deriving DecidableEq

def step (array : CArray) : Op → Option (CArray × Int)
  | .add value => array.add value
  | .insert index value => array.insert index value
  | .remove index => array.remove index
  | .removeByValue value => array.removeByValue value
  | .clear => array.clear

end CArray

end Devent
