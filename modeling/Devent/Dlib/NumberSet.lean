import Devent.Library.Bytes
import Devent.Library.Search
import Devent.Library.Slots

/-! The sorted set of numbers of dlib/c_number_set.c. The numbers stand in a block that is
uninitialised above `len`; an access outside it, or a read of a slot never written, is undefined.
The set is not NULL and allocation succeeds. -/
namespace Devent

structure CNumSet where
  len : Nat
  cap : Nat
  data : Slots.Block Int
  deriving DecidableEq

namespace CNumSet

def defaultCap : Nat := 8

def new : CNumSet := ⟨0, defaultCap, Slots.malloc _ defaultCap⟩

def resize (set : CNumSet) (len : Nat) : CNumSet :=
  if set.cap > len then set
  else
    let newCap := set.cap + set.cap / 2
    { set with cap := newCap, data := Slots.realloc set.data newCap }

def probe (set : CNumSet) (i : Int) : Option Int :=
  if 0 ≤ i then Slots.load set.data i.toNat else none

/-- The index of the number, or the complement of where it belongs. -/
def numberIndex (set : CNumSet) (num : Int) : Option Int :=
  if set.len = 0 then some (-1)
  else Search.loop set.probe num (set.len + 1) 0 (set.len - 1) (((set.len : Int) - 1).tdiv 2)

/-- The loop copies upwards from `index` through the whole capacity. -/
def put (set : CNumSet) (num : Int) : Option (CNumSet × Int) := do
  let set := set.resize (set.len + 1)
  let index ← set.numberIndex num
  if index ≥ 0 then return (set, 0)
  let index := (-index - 1).toNat
  let data ← Slots.spreadUp set.cap set.cap index set.data
  let data ← Slots.store data index num
  return ({ set with data, len := set.len + 1 }, 0)

/-- The index found is complemented, and compared with `cap` as a `size_t`: a negative one is above
every capacity. -/
def remove (set : CNumSet) (num : Int) : Option (CNumSet × Int) :=
  if set.len = 0 then some (set, -1)
  else do
    let index ← set.numberIndex num
    if index < 0 then return (set, -1)
    let index := -index - 1
    let data ← if index < 0 then some set.data
      else Slots.shiftDown 1 set.cap set.cap index.toNat set.data
    return ({ set with data, len := set.len - 1 }, 0)

/-- Inner `none` is the result -1. -/
def get (set : CNumSet) (index : Nat) : Option (Option Int) :=
  if index ≥ set.len then some none else (Slots.load set.data index).map some

def contains (set : CNumSet) (num : Int) : Option Bool :=
  if set.len = 0 then some false else (set.numberIndex num).map fun index => decide (index ≥ 0)

def clear (set : CNumSet) : CNumSet := { set with len := 0 }

/-- The calls that change a set. -/
inductive Op where
  | put (num : Int)
  | remove (num : Int)
  | clear
  deriving DecidableEq

def step (set : CNumSet) : Op → Option (CNumSet × Int)
  | .put num => set.put num
  | .remove num => set.remove num
  | .clear => some (set.clear, 0)

end CNumSet

end Devent
