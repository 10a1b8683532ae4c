import Devent.Library.Links

/-! The linked list of dlib/c_linked_list.c. Nodes and lists are found by their addresses, an
iterator is the address of a node. A missing result is an access outside the allocated nodes,
or a loop that has not ended. No free callback is set. -/
namespace Devent

abbrev NodeAddr := Nat

abbrev ListAddr := Nat

/-- `struct c_linked_list_node`. -/
abbrev ListNode (V : Type) := Links.Cell NodeAddr (Option V)

/-- The allocated nodes. -/
abbrev Nodes (V : Type) := NodeAddr → Option (ListNode V)

structure CLinkedList where
  header : Option NodeAddr
  footer : Option NodeAddr
  len : Nat
  deriving DecidableEq

namespace CLinkedList

variable {V : Type}

/-- `calloc`, and `c_linked_list_reset_with_no_free`. -/
def new : CLinkedList := ⟨none, none, 0⟩

/-- `node` is what malloc has returned. -/
def add (nodes : Nodes V) (list : CLinkedList) (v : Option V) (node : NodeAddr) : Option (Nodes V × CLinkedList) :=
  let nodes := Function.update nodes node (some ⟨v, none⟩)
  match list.footer with
  | none => some (nodes, ⟨some node, some node, list.len + 1⟩)
  | some footer => do
    let last ← nodes footer
    return (Function.update nodes footer (some { last with next := some node }),
      { list with footer := some node, len := list.len + 1 })

/-- The last node is not freed. -/
def removeHeader (nodes : Nodes V) (list : CLinkedList) : Option (Nodes V × CLinkedList × Option V) :=
  match list.header with
  | none => some (nodes, list, none)
  | some header => do
    let node ← nodes header
    match node.next with
    | none => return (nodes, ⟨none, none, list.len - 1⟩, node.value)
    | some next =>
      return (Function.update nodes header none, { list with header := some next, len := list.len - 1 }, node.value)

/-- The walk of `c_linked_list_remove_footer` to the node in front of the footer; the new footer. -/
def cutFooter (nodes : Nodes V) (footer : NodeAddr) : Nat → Option NodeAddr → Option (Nodes V × NodeAddr)
  | _, none => some (nodes, footer)
  | 0, some _ => none
  | rounds + 1, some node => do
    let here ← nodes node
    if here.next = some footer then
      let nodes := Function.update nodes footer none
      let here ← nodes node
      return (Function.update nodes node (some { here with next := none }), node)
    else cutFooter nodes footer rounds here.next

def removeFooter (nodes : Nodes V) (list : CLinkedList) : Option (Nodes V × CLinkedList × Option V) :=
  match list.footer with
  | none => some (nodes, list, none)
  | some footer => do
    let last ← nodes footer
    let first ← list.header.bind nodes
    if first.next = none then return (nodes, ⟨none, none, list.len - 1⟩, last.value)
    else
      let (nodes, newFooter) ← cutFooter nodes footer list.len list.header
      return (nodes, { list with footer := some newFooter, len := list.len - 1 }, last.value)

/-- The loop of `c_linked_list_remove`, at `node`. -/
def removeNext (nodes : Nodes V) (list : CLinkedList) (it : NodeAddr) :
    Nat → Option NodeAddr → Option (Nodes V × CLinkedList × Option V)
  | 0, _ => none
  | rounds + 1, node => do
    let addr ← node
    let here ← nodes addr
    match here.next with
    | none => return (nodes, list, none)
    | some next =>
      if next = it then
        let dropped ← nodes next
        let nodes := Function.update nodes addr (some { here with next := dropped.next })
        let footer := if dropped.next = none then some addr else list.footer
        return (Function.update nodes next none, { list with footer := footer, len := list.len - 1 }, dropped.value)
      else removeNext nodes list it rounds (some next)

def remove (nodes : Nodes V) (list : CLinkedList) : Option NodeAddr → Option (Nodes V × CLinkedList × Option V)
  | none => some (nodes, list, none)
  | some it =>
    if list.len = 0 then some (nodes, list, none)
    else if list.header = some it then do
      let node ← nodes it
      let footer := if node.next = none then none else list.footer
      return (Function.update nodes it none, ⟨node.next, footer, list.len - 1⟩, node.value)
    else removeNext nodes list it list.len list.header

/-- `while (list->len > 0)`, with so many rounds to go. -/
def clearLoop : Nat → Nodes V → CLinkedList → Option (Nodes V × CLinkedList)
  | 0, nodes, list => if list.len = 0 then some (nodes, list) else none
  | rounds + 1, nodes, list =>
    if list.len = 0 then some (nodes, list)
    else do
      let (nodes, list, _) ← removeHeader nodes list
      clearLoop rounds nodes list

def clear (nodes : Nodes V) (list : CLinkedList) : Option (Nodes V × CLinkedList) := clearLoop list.len nodes list

/-- The nodes, then `dest` and `src`. -/
def merge (nodes : Nodes V) (dest src : CLinkedList) : Option (Nodes V × CLinkedList × CLinkedList) :=
  if src.header = none then some (nodes, dest, src)
  else
    match dest.footer with
    | none => some (nodes, ⟨src.header, src.footer, dest.len + src.len⟩, new)
    | some footer => do
      let last ← nodes footer
      return (Function.update nodes footer (some { last with next := src.header }),
        { dest with footer := src.footer, len := dest.len + src.len }, new)

/-- The calls on one list; add comes with the address of its node. -/
inductive Call (V : Type) where
  | add (v : Option V) (node : NodeAddr)
  | removeHeader
  | removeFooter
  | remove (it : Option NodeAddr)
  | clear
  | reset

/-- What a call returns: an `int`, a `void *`, or nothing. -/
inductive Ret (V : Type) where
  | list (list : ListAddr)
  | status (code : Int)
  | value (v : Option V)
  | done

/-- What a call returns where the list is NULL. -/
def Call.onNull : Call V → Ret V
  | .add _ _ => .status (-1)
  | .removeHeader => .value none
  | .removeFooter => .value none
  | .remove _ => .value none
  | .clear => .done
  | .reset => .status (-1)

def perform (nodes : Nodes V) (list : CLinkedList) : Call V → Option (Nodes V × CLinkedList × Ret V)
  | .add v node => (add nodes list v node).map fun (nodes, list) => (nodes, list, .status 0)
  | .removeHeader => (removeHeader nodes list).map fun (nodes, list, v) => (nodes, list, .value v)
  | .removeFooter => (removeFooter nodes list).map fun (nodes, list, v) => (nodes, list, .value v)
  | .remove it => (remove nodes list it).map fun (nodes, list, v) => (nodes, list, .value v)
  | .clear => (clear nodes list).map fun (nodes, list) => (nodes, list, .done)
  | .reset => some (nodes, new, .status 0)

structure Memory (V : Type) where
  nodes : Nodes V
  lists : ListAddr → Option CLinkedList

def start : Memory V := ⟨fun _ => none, fun _ => none⟩

/-- NULL is `none`; new and move come with the address of their list. -/
inductive Op (V : Type) where
  | new (list : ListAddr)
  | call (list : Option ListAddr) (call : Call V)
  | merge (dest src : Option ListAddr)
  | move (src : Option ListAddr) (list : ListAddr)

def mergeLists (memory : Memory V) (dest src : ListAddr) : Option (Memory V × Ret V) := do
  let destFields ← memory.lists dest
  let srcFields ← memory.lists src
  let (nodes, destFields, srcFields) ← merge memory.nodes destFields srcFields
  let lists := Function.update memory.lists dest (some destFields)
  return (⟨nodes, Function.update lists src (some srcFields)⟩, .status 0)

/-- `c_linked_list_move`, with the list put at `*dest`. -/
def moveList (memory : Memory V) (src list : ListAddr) : Option (Memory V × Ret V) := do
  let fields ← memory.lists src
  let lists := Function.update memory.lists list (some fields)
  return (⟨memory.nodes, Function.update lists src (some new)⟩, .status 0)

def step (memory : Memory V) : Op V → Option (Memory V × Ret V)
  | .new list => some ({ memory with lists := Function.update memory.lists list (some new) }, .list list)
  | .call none call => some (memory, call.onNull)
  | .call (some list) call => do
    let fields ← memory.lists list
    let (nodes, fields, ret) ← perform memory.nodes fields call
    return (⟨nodes, Function.update memory.lists list (some fields)⟩, ret)
  | .merge (some dest) (some src) => mergeLists memory dest src
  | .merge none _ | .merge _ none => some (memory, .status (-1))
  | .move none _ => some (memory, .status (-1))
  | .move (some src) list => moveList memory src list

end CLinkedList

end Devent
