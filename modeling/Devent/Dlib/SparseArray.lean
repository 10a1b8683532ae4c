import Devent.Library.Bytes
import Devent.Library.Keyed
import Devent.Library.Search
import Devent.Library.Slots

/-! The sorted array of dlib/c_sparse_array.c. `nodes` is the allocated block,
uninitialised above `len`; an access outside it, or a read of a slot never
written, is undefined. Values are pointers, with `none` for NULL. -/
namespace Devent

structure SparseNode (V : Type) where
  key : Int
  value : Option V
  deriving DecidableEq

structure CSparseArray (V : Type) where
  cap : Nat
  len : Nat
  nodes : Slots.Block (SparseNode V)

/-- The header of `for (int i = start; i < stop; ++i)` with `uint64_t` bounds: the
counter's first value as the comparison sees it. Counting past `INT_MAX` is
undefined. -/
def intFrom (start stop : Nat) : Option Nat :=
  let first := sizeT (intT start)
  if first < stop ∧ 2 ^ 31 ≤ stop then none else some first

namespace CSparseArray

variable {V : Type}

def defaultCap : Nat := 8

def new : CSparseArray V := ⟨defaultCap, 0, Slots.malloc _ defaultCap⟩

/-- `while (new_cap < len) new_cap = new_cap + (new_cap >> 1)`. -/
def growCap (len : Nat) : Nat → Nat → Option Nat
  | 0, newCap => if newCap < len then none else some newCap
  | rounds + 1, newCap => if newCap < len then growCap len rounds (newCap + newCap / 2) else some newCap

def resize (array : CSparseArray V) (len : Nat) : Option (CSparseArray V) :=
  if array.cap ≥ len then some array
  else do
    let newCap ← growCap len len array.cap
    return { array with cap := newCap, nodes := Slots.realloc array.nodes newCap }

def probe (array : CSparseArray V) (i : Int) : Option Int :=
  if 0 ≤ i then (Slots.load array.nodes i.toNat).map SparseNode.key else none

def findIndex (array : CSparseArray V) (key : Int) : Option Int :=
  if array.len = 0 then some (-1)
  else Search.loop array.probe key (array.len + 1) 0 (array.len - 1) (((array.len : Int) - 1).tdiv 2)

def put (array : CSparseArray V) (key : Int) (v : Option V) : Option (CSparseArray V × Option V) := do
  let array ← array.resize (array.len + 1)
  let index ← array.findIndex key
  if index ≥ 0 then
    let node ← Slots.load array.nodes index.toNat
    let nodes ← Slots.store array.nodes index.toNat { node with value := v }
    return ({ array with nodes }, node.value)
  else
    let index := (-index - 1).toNat
    let nodes ← Slots.shiftUp index array.len array.nodes
    let nodes ← Slots.store nodes index ⟨key, v⟩
    return ({ array with len := array.len + 1, nodes }, none)

def get (array : CSparseArray V) (key : Int) : Option (Option V) :=
  if array.len = 0 then some none
  else do
    let index ← array.findIndex key
    if index < 0 then return none
    let node ← Slots.load array.nodes index.toNat
    return node.value

/-- Inner `none` is the result -1. -/
def getByIndex (array : CSparseArray V) (index : Nat) : Option (Option (SparseNode V)) :=
  if index ≥ array.len then some none else (Slots.load array.nodes index).map some

def remove (array : CSparseArray V) (key : Int) : Option (CSparseArray V × Option V) :=
  if array.len = 0 then some (array, none)
  else do
    let index ← array.findIndex key
    if index < 0 then return (array, none)
    let node ← Slots.load array.nodes index.toNat
    let first ← intFrom index.toNat (array.len - 1)
    let nodes ← Slots.shiftDown 1 (array.len - 1) array.len first array.nodes
    return ({ array with len := array.len - 1, nodes }, node.value)

/-- The node whose key and value are returned; none for an empty array. -/
def removeLast (array : CSparseArray V) : Option (CSparseArray V × Option (SparseNode V)) :=
  if array.len = 0 then some (array, none)
  else do
    let node ← Slots.load array.nodes (array.len - 1)
    return ({ array with len := array.len - 1 }, some node)

/-- The first loop of `CSparseArray_remove_before_key`: where it stops, and the
nodes it passed. -/
def passBefore (array : CSparseArray V) (key : Int) : Nat → Nat → Option (Nat × List (SparseNode V))
  | 0, i => if i < array.len then none else some (i, [])
  | rounds + 1, i =>
    if i < array.len then do
      let node ← Slots.load array.nodes i
      if node.key > key then return (i, [])
      let (last, passed) ← passBefore array key rounds (i + 1)
      return (last, node :: passed)
    else some (i, [])

/-- The callback sees the nodes passed, if there is one. -/
def removeBeforeKey (array : CSparseArray V) (key : Int) (cb : Bool) :
    Option (CSparseArray V × Nat × List (SparseNode V)) :=
  if array.len = 0 then some (array, 0, [])
  else do
    let (i, passed) ← array.passBefore key array.len 0
    let first ← intFrom i array.len
    let nodes ← Slots.shiftDown i (array.len - i) array.len (first - i) array.nodes
    return ({ array with len := array.len - i, nodes }, i, if cb then passed else [])

/-- The callback loop of `CSparseArray_clear`; NULL values are skipped. -/
def clearLoop (array : CSparseArray V) : Nat → Nat → Option (List V)
  | 0, i => if i < array.len then none else some []
  | rounds + 1, i =>
    if i < array.len then do
      let node ← Slots.load array.nodes i
      let freed ← clearLoop array rounds (i + 1)
      return node.value.toList ++ freed
    else some []

def clear (array : CSparseArray V) (cb : Bool) : Option (CSparseArray V × List V) := do
  let freed ← if cb then do
      let first ← intFrom 0 array.len
      array.clearLoop array.len first
    else some []
  return ({ array with len := 0 }, freed)

end CSparseArray

inductive SparseOp (V : Type) where
  | put (key : Int) (v : Option V)
  | get (key : Int)
  | getByIndex (index : Nat)
  | remove (key : Int)
  | removeLast
  | removeBeforeKey (key : Int) (cb : Bool)
  | clear (cb : Bool)
  | length

inductive SparseResult (V : Type) where
  | pointer (v : Option V)
  | node (found : Option (SparseNode V))
  | removed (count : Nat) (calls : List (SparseNode V))
  | freed (values : List V)
  | length (n : Nat)
  deriving DecidableEq

namespace CSparseArray

variable {V : Type}

def step (array : CSparseArray V) : SparseOp V → Option (CSparseArray V × SparseResult V)
  | .put key v => (array.put key v).map fun (array, old) => (array, .pointer old)
  | .get key => (array.get key).map fun v => (array, .pointer v)
  | .getByIndex index => (array.getByIndex index).map fun found => (array, .node found)
  | .remove key => (array.remove key).map fun (array, old) => (array, .pointer old)
  | .removeLast => array.removeLast.map fun (array, last) => (array, .node last)
  | .removeBeforeKey key cb =>
    (array.removeBeforeKey key cb).map fun (array, count, calls) => (array, .removed count calls)
  | .clear cb => (array.clear cb).map fun (array, values) => (array, .freed values)
  | .length => some (array, .length array.len)

end CSparseArray

/-- The specification: the bindings of a finite map in ascending key order. -/
abbrev Bindings (V : Type) := List (SparseNode V)

namespace Bindings

variable {V : Type}

/-- The pointer bound to a key; NULL without a binding. -/
def lookup (key : Int) (bindings : Bindings V) : Option V :=
  (Keyed.lookup SparseNode.key key bindings).bind SparseNode.value

def put (key : Int) (v : Option V) (bindings : Bindings V) : Bindings V :=
  bindings.filter (·.key < key) ++ ⟨key, v⟩ :: bindings.filter (key < ·.key)

def step (bindings : Bindings V) : SparseOp V → Bindings V × SparseResult V
  | .put key v => (put key v bindings, .pointer (lookup key bindings))
  | .get key => (bindings, .pointer (lookup key bindings))
  | .getByIndex index => (bindings, .node bindings[index]?)
  | .remove key => (bindings.filter (·.key ≠ key), .pointer (lookup key bindings))
  | .removeLast => (bindings.dropLast, .node bindings.getLast?)
  | .removeBeforeKey key cb =>
    let before := bindings.filter (·.key ≤ key)
    (bindings.filter (key < ·.key), .removed before.length (if cb then before else []))
  | .clear cb => ([], .freed (if cb then bindings.filterMap SparseNode.value else []))
  | .length => (bindings, .length bindings.length)

end Bindings

end Devent
