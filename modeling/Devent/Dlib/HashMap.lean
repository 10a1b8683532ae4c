import Devent.Dlib.Hash
import Devent.Library.Buckets
import Devent.Library.Single

/-! The separate-chaining map of dlib/c_hash_map.c. A chain of `CNode`s is the
list of its nodes; `nodes` has one chain per bucket. Values are the non-NULL
pointers stored, so `none` is NULL. No free callback is set. -/
namespace Devent

structure CNode (V : Type) where
  key : CString
  value : V

structure CHashMap (V : Type) where
  cap : Nat
  count : Nat
  nodes : List (List (CNode V))

namespace CHashMap

variable {V : Type}

def defaultCap : Nat := 8

def new : CHashMap V := ⟨defaultCap, 0, List.replicate defaultCap []⟩

/-- `cap * resize_ratio > target_count` in `float`; the ratio is 3/4. -/
def underLoad (cap target : Nat) : Bool := 4 * floatOfSize target < floatOfSize (3 * floatOfSize cap)

/-- The walk of `c_node_put_node_to_end`. With `replace` set, the first node
past the head with the new key is replaced; otherwise the node goes last. -/
def putNodeToEnd (replace pastHead : Bool) (newNode : CNode V) : List (CNode V) → List (CNode V)
  | [] => []
  | node :: next =>
    if replace && pastHead && node.key = newNode.key then newNode :: next
    else if next.isEmpty then [node, newNode]
    else node :: putNodeToEnd replace true newNode next

/-- The index expression of `c_hash_map_resize`: `i` is the old bucket. -/
def resizeIndex (newCap i : Nat) (node : CNode V) : Nat :=
  let hashCode := cHash node.key
  if uint32T hashCode &&& newCap ≠ 0 then uint32T hashCode &&& (newCap - 1) else i

def moveNode (newCap i : Nat) (newNodes : List (List (CNode V))) (node : CNode V) :
    List (List (CNode V)) :=
  newNodes.modify (resizeIndex newCap i node) fun chain =>
    if chain.isEmpty then [node] else putNodeToEnd false false node chain

/-- Relocate every chain of the old table, bucket by bucket. -/
def relocate (newCap : Nat) (nodes : List (List (CNode V))) : List (List (CNode V)) :=
  nodes.zipIdx.foldl (fun newNodes row => row.1.foldl (moveNode newCap row.2) newNodes)
    (List.replicate newCap [])

/-- `int new_cap = cap << 1` turns negative at `2 ^ 31`; the table of
`new_cap * sizeof(CNode)` bytes then cannot be allocated. -/
def resize (map : CHashMap V) (target : Nat) : Option (CHashMap V) :=
  if underLoad map.cap target then some map
  else if map.count = 0 then some map
  else
    let newCap := intT (map.cap <<< 1)
    if newCap ≤ 0 then none
    else some { map with cap := newCap.toNat, nodes := relocate newCap.toNat map.nodes }

/-- The bucket update of `c_hash_map_put`: head replaced, walk, or empty bucket. -/
def putNode (node : CNode V) : List (CNode V) → List (CNode V)
  | [] => [node]
  | header :: next =>
    if header.key = node.key then node :: next else putNodeToEnd true false node (header :: next)

def put (map : CHashMap V) (key : CString) (value : V) : Option (CHashMap V) := do
  let map ← map.resize (map.count + 1)
  return { map with
    count := map.count + 1
    nodes := map.nodes.modify (bucketIndex key map.cap) (putNode ⟨key, value⟩) }

def getNode (map : CHashMap V) (key : CString) : Option (CNode V) :=
  (map.nodes[bucketIndex key map.cap]?).bind (Keyed.lookup CNode.key key)

def get (map : CHashMap V) (key : CString) : Option V := (map.getNode key).map CNode.value

def has (map : CHashMap V) (key : CString) : Bool := (map.get key).isSome

/-- `int c_hash_map_get_count`; a NULL map counts -1. -/
def getCount : Option (CHashMap V) → Int
  | none => -1
  | some map => intT map.count

def remove (map : CHashMap V) (key : CString) : CHashMap V × Option V :=
  match map.getNode key with
  | none => (map, none)
  | some node =>
    ({ map with
        count := map.count - 1
        nodes := map.nodes.modify (bucketIndex key map.cap) (Keyed.remove CNode.key key) },
      some node.value)

/-- `c_hash_map_free` followed by `c_hash_map_init`. -/
def clear (_ : CHashMap V) : CHashMap V := new

/-- The mutating calls, with the pointer each returns. -/
inductive Op (V : Type) where
  | put (key : CString) (value : V)
  | remove (key : CString)
  | clear

def step (map : CHashMap V) : Op V → Option (CHashMap V × Option V)
  | .put key value => (map.put key value).map (·, none)
  | .remove key => some (map.remove key)
  | .clear => some (map.clear, none)

end CHashMap

end Devent
