import Devent.Dlib.HashMap
import Devent.Library.Links

/-! The chained set of dlib/c_hash_set.c. The nodes of a set are found by their addresses, and
NULL is `none`. A missing result is an access outside the buckets or the nodes, or a loop that has
not ended. Allocation succeeds; what it leaves in new buckets is arbitrary. -/
namespace Devent

/-- `struct node` without the `index` of an iterator. -/
structure CHashSet.Node where
  key : CString
  moved : Bool
  deriving DecidableEq

abbrev CHashSet.Addr := Nat

abbrev CHashSet.Nodes := Links.Heap CHashSet.Addr CHashSet.Node

/-- `data` points to the buckets; `nodes` are those the set may reach. -/
structure CHashSet where
  cap : Nat
  len : Nat
  data : List (Option CHashSet.Addr)
  hash : Option (CString → Int32)
  nodes : CHashSet.Nodes

namespace CHashSet

/-- The function `hash`. -/
def hashOf (set : CHashSet) (data : CString) : Int :=
  match set.hash with
  | some hash => (hash data).toInt
  | none => cHash data

def dataIndex (set : CHashSet) (data : CString) : Nat := sizeT (set.hashOf data) &&& (set.cap - 1)

/-- `node->next = next`. -/
def link (set : CHashSet) (node : Addr) (next : Option Addr) : Option CHashSet := do
  let here ← set.nodes node
  return { set with nodes := Function.update set.nodes node (some { here with next }) }

/-- The loop of `CHashSet_add_internal`, from a node on; a node of the key that is not the last one
refuses the new node. -/
def addAfter (set : CHashSet) (n : Addr) : Nat → Addr → Option (CHashSet × Bool)
  | 0, _ => none
  | rounds + 1, node => do
    let here ← set.nodes node
    match here.next with
    | none =>
      let set ← set.link node (some n)
      return (set, true)
    | some next =>
      let new ← set.nodes n
      if here.value.key = new.value.key then return (set, false)
      set.addAfter n rounds next

def addInternal (set : CHashSet) (rounds : Nat) (index : Int) (n : Addr) : Option (CHashSet × Bool) :=
  if index < 0 then none
  else do
    match ← set.data[index.toNat]? with
    | none => return ({ set with data := set.data.set index.toNat (some n) }, true)
    | some node => set.addAfter n rounds node

/-- A node leaves the chain of bucket `i`, where `head` was the first node and `preNode` is the
node visited before. -/
def unlink (set : CHashSet) (i : Nat) (head preNode : Option Addr) (node : Addr) (next : Option Addr) :
    Option CHashSet :=
  if some node = head then some { set with data := set.data.set i next }
  else do
    let preNode ← preNode
    set.link preNode next

/-- The body of `while (node)`. -/
def resizeNode (set : CHashSet) (rounds i : Nat) (head preNode : Option Addr) (node : Addr) : Option CHashSet := do
  let here ← set.nodes node
  if here.value.moved then
    return { set with nodes := Function.update set.nodes node (some ⟨{ here.value with moved := false }, here.next⟩) }
  let newIndex := set.dataIndex here.value.key
  if i = newIndex then return set
  let set ← set.unlink i head preNode node here.next
  let set := { set with nodes := Function.update set.nodes node (some ⟨{ here.value with moved := true }, none⟩) }
  let (set, added) ← set.addInternal rounds (intT newIndex) node
  return if added then set else { set with nodes := Function.update set.nodes node none }

/-- `while (node)` over bucket `i`, with the nodes it visits. -/
def resizeBucket (set : CHashSet) (addRounds i : Nat) (head : Option Addr) :
    Nat → Option Addr → Option Addr → Option (CHashSet × List Addr)
  | _, _, none => some (set, [])
  | 0, _, some _ => none
  | rounds + 1, preNode, some node => do
    let here ← set.nodes node
    let set ← set.resizeNode addRounds i head preNode node
    let (set, visits) ← set.resizeBucket addRounds i head rounds (some node) here.next
    return (set, node :: visits)

/-- `for (; i < set->cap; ++i)`, with so many buckets to go. -/
def resizeBuckets (set : CHashSet) (rounds : Nat) : Nat → Nat → Option (CHashSet × List Addr)
  | 0, _ => some (set, [])
  | buckets + 1, i => do
    let head ← set.data[i]?
    let (set, visits) ← set.resizeBucket rounds i head rounds none head
    let (set, later) ← set.resizeBuckets rounds buckets (i + 1)
    return (set, visits ++ later)

/-- A pointer in memory. -/
def pointer (bytes : Nat → Byte) (offset : Nat) : Option Addr :=
  let word := (List.range 8).foldr (fun j word => (bytes (offset + j)).toNat + 256 * word) 0
  if word = 0 then none else some word

/-- The buckets that realloc has added. `bzero` clears as many bytes of them as there are buckets. -/
def added (cap : Nat) (fresh : Nat → Byte) : List (Option Addr) :=
  (List.range (3 * cap)).map fun j => pointer (fun k => if k < 3 * cap then 0 else fresh k) (8 * j)

/-- `len < cap * resize_ratio`, with the ratio 3/4. -/
def roomy (set : CHashSet) (len : Nat) : Bool := len < set.len || CHashMap.underLoad set.cap len

/-- `fresh` is what realloc leaves in the memory it adds. -/
def resize (set : CHashSet) (rounds len : Nat) (fresh : Nat → Byte) : Option (CHashSet × List Addr) :=
  if set.roomy len then some (set, [])
  else
    let set := { set with cap := set.cap <<< 2, data := set.data ++ added set.cap fresh }
    set.resizeBuckets rounds set.cap 0

/-- `Node_new`, at a new address. -/
def nodeNew (set : CHashSet) (node : Addr) (data : CString) : CHashSet :=
  { set with nodes := Function.update set.nodes node (some ⟨⟨data, false⟩, none⟩) }

/-- One of the two nodes made is not used. -/
def add (set : CHashSet) (rounds : Nat) (fresh : Nat → Byte) (n second : Addr) (data : CString) :
    Option (CHashSet × Int) := do
  let (set, _) ← set.resize rounds (set.len + 1) fresh
  let index := set.dataIndex data
  let set := (set.nodeNew n data).nodeNew second data
  let (set, added) ← set.addInternal rounds (intT index) second
  return if added then ({ set with len := set.len + 1 }, 0)
    else ({ set with nodes := Function.update set.nodes n none }, 0)

def containsFrom (set : CHashSet) (data : CString) : Nat → Option Addr → Option Bool
  | _, none => some false
  | 0, some _ => none
  | rounds + 1, some node => do
    let here ← set.nodes node
    if here.value.key = data then return true
    set.containsFrom data rounds here.next

def contains (set : CHashSet) (rounds : Nat) (data : CString) : Option Bool := do
  let head ← set.data[set.dataIndex data]?
  set.containsFrom data rounds head

/-- `while (node->next)`. -/
def removeAfter (set : CHashSet) (data : CString) : Nat → Addr → Option (CHashSet × Int)
  | 0, _ => none
  | rounds + 1, node => do
    let here ← set.nodes node
    match here.next with
    | none => return (set, -1)
    | some next =>
      let rNode ← set.nodes next
      if rNode.value.key = data then
        let set ← { set with nodes := Function.update set.nodes next none }.link node rNode.next
        return ({ set with len := set.len - 1 }, 0)
      set.removeAfter data rounds next

def remove (set : CHashSet) (rounds : Nat) (data : CString) : Option (CHashSet × Int) := do
  let index := set.dataIndex data
  match ← set.data[index]? with
  | none => return (set, -1)
  | some node =>
    let here ← set.nodes node
    if here.value.key = data then
      return ({ set with
        data := set.data.set index here.next
        nodes := Function.update set.nodes node none
        len := set.len - 1 }, 0)
    set.removeAfter data rounds node

end CHashSet

end Devent
