import Devent.Dlib.Hash
import Devent.Library.Search
import Devent.Library.Slots

/-! The sorted map of dlib/c_array_map.c. Nodes and hashes stand in two blocks of one capacity,
uninitialised above `len`; an access outside a block, or a read of a slot never written, is
undefined. Keys are not NULL, values are pointers with `none` for NULL, allocation succeeds. -/
namespace Devent

structure ArrayNode (V : Type) where
  key : CString
  value : Option V
  deriving DecidableEq

structure CArrayMap (V : Type) where
  cap : Nat
  len : Nat
  nodes : Slots.Block (ArrayNode V)
  hashArray : Slots.Block Int
  hash : Option (CString → Int)

namespace CArrayMap

variable {V : Type}

def defaultCap : Nat := 8

def new : CArrayMap V := ⟨defaultCap, 0, Slots.malloc _ defaultCap, Slots.malloc _ defaultCap, none⟩

/-- `do new_cap = new_cap + (new_cap >> 1) while (new_cap < len)`. -/
def growCap (len : Nat) : Nat → Nat → Option Nat
  | 0, _ => none
  | rounds + 1, newCap =>
    let newCap := newCap + newCap / 2
    if newCap < len then growCap len rounds newCap else some newCap

def resize (map : CArrayMap V) (len : Nat) : Option (CArrayMap V) :=
  if len < map.cap then some map
  else do
    let newCap ← growCap len len map.cap
    return { map with
      cap := newCap
      nodes := Slots.realloc map.nodes newCap
      hashArray := Slots.realloc map.hashArray newCap }

/-- `CArrayMap_hash`: the map's own function, else `c_hash`. -/
def hashOf (map : CArrayMap V) (key : CString) : Int := map.hash.getD cHash key

def probe (map : CArrayMap V) (i : Int) : Option Int :=
  if 0 ≤ i then Slots.load map.hashArray i.toNat else none

/-- `while (i >= 0 && hash_array[i] == hash)`, down from `i - 1`: where the key is, if it is met. -/
def scanDown (map : CArrayMap V) (key : CString) (hash : Int) : Nat → Option (Option Nat)
  | 0 => some none
  | i + 1 => do
    let here ← Slots.load map.hashArray i
    if here = hash then
      let node ← Slots.load map.nodes i
      if node.key = key then return some i
      scanDown map key hash i
    else return none

/-- `while (i < len && hash_array[i] == hash)`, with `rounds` to go. -/
def scanUp (map : CArrayMap V) (key : CString) (hash : Int) : Nat → Nat → Option Int
  | 0, i => if i < map.len then none else some (-(i : Int) - 1)
  | rounds + 1, i =>
    if i < map.len then do
      let here ← Slots.load map.hashArray i
      if here = hash then
        let node ← Slots.load map.nodes i
        if node.key = key then return i
        scanUp map key hash rounds (i + 1)
      else return -(i : Int) - 1
    else some (-(i : Int) - 1)

/-- The index of the key, or the complement of where it belongs. -/
def keyIndex (map : CArrayMap V) (key : CString) (hash : Int) : Option Int :=
  if map.len = 0 then some (-1)
  else do
    let mid ← Search.loop map.probe hash (map.len + 1) 0 (map.len - 1) (((map.len : Int) - 1).tdiv 2)
    if mid < 0 then return mid
    let node ← Slots.load map.nodes mid.toNat
    if node.key = key then return mid
    match ← map.scanDown key hash mid.toNat with
    | some i => return i
    | none => map.scanUp key hash map.len (mid.toNat + 1)

/-- The loop that makes room copies upwards from `index`, so that every slot behind it gets the
same node. -/
def put (map : CArrayMap V) (key : CString) (value : Option V) : Option (CArrayMap V × Option V) := do
  let hash := map.hashOf key
  let index ← map.keyIndex key hash
  if index ≥ 0 then
    let node ← Slots.load map.nodes index.toNat
    let nodes ← Slots.store map.nodes index.toNat { node with value }
    return ({ map with nodes }, node.value)
  else
    let map ← map.resize (map.len + 1)
    let index := (-index - 1).toNat
    let nodes ← Slots.spreadUp map.len map.len index map.nodes
    let hashArray ← Slots.spreadUp map.len map.len index map.hashArray
    let nodes ← Slots.store nodes index ⟨key, value⟩
    let hashArray ← Slots.store hashArray index hash
    return ({ map with len := map.len + 1, nodes, hashArray }, none)

/-- Only the nodes move down. -/
def remove (map : CArrayMap V) (key : CString) : Option (CArrayMap V × Option V) := do
  let index ← map.keyIndex key (map.hashOf key)
  if index < 0 then return (map, none)
  let node ← Slots.load map.nodes index.toNat
  let nodes ← Slots.shiftDown 1 map.len map.len index.toNat map.nodes
  return ({ map with len := map.len - 1, nodes }, node.value)

def get (map : CArrayMap V) (key : CString) : Option (Option V) := do
  let index ← map.keyIndex key (map.hashOf key)
  if index ≥ 0 then
    let node ← Slots.load map.nodes index.toNat
    return node.value
  else return none

def contains (map : CArrayMap V) (key : CString) : Option Bool :=
  (map.keyIndex key (map.hashOf key)).map fun index => decide (index ≥ 0)

/-- Inner `none` is the result -1. -/
def getByIndex (map : CArrayMap V) (index : Nat) : Option (Option (ArrayNode V)) :=
  if map.len = 0 then some none
  else if index ≥ map.len then some none
  else (Slots.load map.nodes index).map some

/-- No callback frees the values. -/
def clear (map : CArrayMap V) : CArrayMap V := { map with len := 0 }

/-- The calls that change a map. -/
inductive Op (V : Type) where
  | put (key : CString) (value : Option V)
  | remove (key : CString)
  | clear

def step (map : CArrayMap V) : Op V → Option (CArrayMap V × Option V)
  | .put key value => map.put key value
  | .remove key => map.remove key
  | .clear => some (map.clear, none)

end CArrayMap

end Devent
