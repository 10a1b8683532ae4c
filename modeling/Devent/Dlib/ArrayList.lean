import Devent.Dlib.SparseArray
import Mathlib.Logic.Function.Basic

/-! The list of pointers of dlib/c_array_list.c. The first block is zeroed, what realloc adds is
uninitialised; an access outside the block, or a read of a slot never written, is undefined. NULL
is `none`. Lists are not NULL and allocation succeeds. -/
namespace Devent

structure CArrayList (V : Type) where
  cap : Nat
  length : Nat
  data : Slots.Block (Option V)
  deriving DecidableEq

namespace CArrayList

variable {V : Type}

def defaultCap : Nat := 8

/-- `calloc`. -/
def new : CArrayList V := ⟨defaultCap, 0, List.replicate defaultCap (some none)⟩

/-- `while (new_cap < length)`. -/
def growCap (length : Nat) : Nat → Nat → Option Nat
  | 0, newCap => if newCap < length then none else some newCap
  | rounds + 1, newCap => if newCap < length then growCap length rounds (newCap + newCap / 2) else some newCap

def resize (list : CArrayList V) (length : Nat) : Option (CArrayList V) :=
  if list.cap > length then some list
  else do
    let newCap ← growCap length length list.cap
    return { list with cap := newCap, data := Slots.realloc list.data newCap }

def add (list : CArrayList V) (data : Option V) : Option (CArrayList V) := do
  let list ← list.resize (list.length + 1)
  let block ← Slots.store list.data list.length data
  return { list with length := list.length + 1, data := block }

def removeLast (list : CArrayList V) : Option (CArrayList V × Option V) :=
  if list.length = 0 then some (list, none)
  else do
    let lastIndex := list.length - 1
    let data ← Slots.load list.data lastIndex
    let block ← Slots.store list.data lastIndex none
    return ({ list with length := list.length - 1, data := block }, data)

def remove (list : CArrayList V) (index : Nat) : Option (CArrayList V × Option V) :=
  if list.length = 0 ∨ index ≥ list.length then some (list, none)
  else if index = list.length - 1 then list.removeLast
  else do
    let data ← Slots.load list.data index
    let block ← Slots.shiftDown 1 (list.length - 1) list.length index list.data
    return ({ list with length := list.length - 1, data := block }, data)

/-- What the callback of `CArrayList_clear` is called with, from `i` on. -/
def clearLoop (list : CArrayList V) : Nat → Nat → Option (List (Option V))
  | 0, i => if i < list.length then none else some []
  | rounds + 1, i =>
    if i < list.length then do
      let data ← Slots.load list.data i
      let calls ← clearLoop list rounds (i + 1)
      return data :: calls
    else some []

def clear (list : CArrayList V) (cb : Bool) : Option (CArrayList V × List (Option V)) :=
  if list.length = 0 then some (list, [])
  else do
    let calls ← if cb then do
        let first ← intFrom 0 list.length
        list.clearLoop list.length first
      else some []
    return ({ list with length := 0 }, calls)

def get (list : CArrayList V) (index : Nat) : Option (Option V) :=
  if index > list.length then some none else Slots.load list.data index

/-- The loop of `CArrayList_merge`, from `i` on. -/
def mergeLoop (src : CArrayList V) : Nat → Nat → CArrayList V → Option (CArrayList V)
  | 0, i, dest => if i < src.length then none else some dest
  | rounds + 1, i, dest =>
    if i < src.length then do
      let data ← Slots.load src.data i
      let dest ← dest.add data
      mergeLoop src rounds (i + 1) dest
    else some dest

def merge (dest src : CArrayList V) : Option (CArrayList V × CArrayList V) :=
  if src.length = 0 then some (dest, src)
  else do
    let first ← intFrom 0 src.length
    let dest ← mergeLoop src src.length first dest
    return (dest, { src with length := 0 })

/-- Lists by their addresses. -/
abbrev Lists (V : Type) := Nat → CArrayList V

def start : Lists V := fun _ => new

inductive Op (V : Type) where
  | add (list : Nat) (data : Option V)
  | remove (list index : Nat)
  | removeLast (list : Nat)
  | clear (list : Nat) (cb : Bool)
  | merge (dest src : Nat) (distinct : dest ≠ src)

/-- A status, a pointer, or the calls of a callback. -/
inductive Ret (V : Type) where
  | status (code : Int)
  | pointer (v : Option V)
  | cleared (calls : List (Option V))
  deriving DecidableEq

def step (lists : Lists V) : Op V → Option (Lists V × Ret V)
  | .add list data => ((lists list).add data).map fun next => (Function.update lists list next, .status 0)
  | .remove list index =>
    ((lists list).remove index).map fun (next, v) => (Function.update lists list next, .pointer v)
  | .removeLast list => (lists list).removeLast.map fun (next, v) => (Function.update lists list next, .pointer v)
  | .clear list cb =>
    ((lists list).clear cb).map fun (next, calls) => (Function.update lists list next, .cleared calls)
  | .merge dest src _ =>
    (merge (lists dest) (lists src)).map fun (next, emptied) =>
      (Function.update (Function.update lists dest next) src emptied, .status 0)

end CArrayList

end Devent
