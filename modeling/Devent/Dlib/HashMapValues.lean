import Devent.Dlib.HashMapCount
import Devent.Library.Ledger
import Mathlib.Tactic.Abel

/-! The values of a map with its free callback. A value that is put stays in the table, is released
by the callback or is returned, once, wherever a resize has left its node. It is lost where a value
is replaced or the table is cleared while there is no callback, and every clear unsets it. -/
namespace Devent
open Keyed Buckets Ledger

/-- A map, whether `free_cb` is set, and what it was called for. -/
structure FreeingMap (V : Type) where
  map : CHashMap V
  freeCb : Bool
  released : List V

namespace FreeingMap

variable {V : Type}

def new : FreeingMap V := ⟨.new, false, []⟩

/-- The calls of `free_cb`, where it is set. -/
def free (owner : FreeingMap V) (values : List V) : FreeingMap V :=
  if owner.freeCb then { owner with released := owner.released ++ values } else owner

/-- The node that the walk of `c_node_put_node_to_end` frees. -/
def freedBehind (pastHead : Bool) (key : CString) : List (CNode V) → Option (CNode V)
  | [] => none
  | node :: next =>
    if pastHead && node.key = key then some node
    else if next.isEmpty then none
    else freedBehind true key next

/-- The node that a put frees in its bucket. -/
def freedIn (key : CString) : List (CNode V) → Option (CNode V)
  | [] => none
  | header :: next => if header.key = key then some header else freedBehind false key (header :: next)

/-- The node that `c_hash_map_put` frees, behind its resize. -/
def freedByPut (map : CHashMap V) (key : CString) : Option (CNode V) := do
  let map ← map.resize (map.count + 1)
  let chain ← map.nodes[bucketIndex key map.cap]?
  freedIn key chain

def put (owner : FreeingMap V) (key : CString) (value : V) : Option (FreeingMap V) :=
  (owner.map.put key value).map fun map =>
    { owner with map := map }.free ((freedByPut owner.map key).map CNode.value).toList

/-- With `free_value` and a callback, the value is not returned. -/
def remove (owner : FreeingMap V) (key : CString) (freeValue : Bool) : FreeingMap V × Option V :=
  let (map, value) := owner.map.remove key
  let removed := { owner with map := map }
  if freeValue && owner.freeCb then (removed.free value.toList, none) else (removed, value)

/-- The values of the table, bucket by bucket. -/
def values (map : CHashMap V) : List V := map.nodes.flatten.map CNode.value

/-- `c_hash_map_free`, and `c_hash_map_init` with its `bzero`. -/
def clear (owner : FreeingMap V) : FreeingMap V :=
  { owner.free (values owner.map) with map := owner.map.clear, freeCb := false }

inductive Op (V : Type) where
  | setFreeCb (present : Bool)
  | put (key : CString) (value : V)
  | remove (key : CString) (freeValue : Bool)
  | clear

def step (owner : FreeingMap V) : Op V → Option (FreeingMap V × Option V)
  | .setFreeCb present => some ({ owner with freeCb := present }, none)
  | .put key value => (owner.put key value).map (·, none)
  | .remove key freeValue => some (owner.remove key freeValue)
  | .clear => some (owner.clear, none)

/-- A call under which no value is lost: it frees none, or there is a callback. -/
def Keeps (owner : FreeingMap V) : Op V → Prop
  | .put key _ => owner.freeCb = true ∨ freedByPut owner.map key = none
  | .clear => owner.freeCb = true ∨ owner.map.nodes.flatten = []
  | .setFreeCb _ | .remove .. => True

instance (owner : FreeingMap V) : (op : Op V) → Decidable (owner.Keeps op)
  | .put key _ => inferInstanceAs (Decidable (owner.freeCb = true ∨ freedByPut owner.map key = none))
  | .clear => inferInstanceAs (Decidable (owner.freeCb = true ∨ owner.map.nodes.flatten = []))
  | .setFreeCb _ | .remove .. => .isTrue trivial

def Op.given : Op V → Multiset V
  | .put _ value => {value}
  | .setFreeCb _ | .remove .. | .clear => 0

/-- What was returned, as a multiset. -/
def back (out : Option V) : Multiset V := out.toList

/-- What the map answers for: the values it stores, and those it has released. -/
def held (owner : FreeingMap V) : Multiset V := values owner.map + owner.released

variable {owner next : FreeingMap V} {key : CString} {value : V}

theorem freedBehind_eq {pastHead : Bool} {chain : List (CNode V)} (nonempty : chain ≠ [])
    (headed : pastHead = true ∨ ∀ header ∈ chain.head?, header.key ≠ key) :
    freedBehind pastHead key chain = lookup CNode.key key chain := by
  induction chain generalizing pastHead with
  | nil => exact absurd rfl nonempty
  | cons first rest ih =>
    rw [freedBehind, lookup_cons]
    by_cases same : first.key = key
    · have past : pastHead = true := headed.resolve_right fun other => other first rfl same
      rw [past, if_pos same, if_pos (by rw [decide_eq_true same]; rfl)]
    · rw [if_neg same, if_neg (by rw [decide_eq_false same, Bool.and_false]; exact Bool.noConfusion)]
      cases rest with
      | nil => rfl
      | cons second rest =>
        rw [← ih (List.cons_ne_nil _ _) (.inl rfl)]
        rfl

theorem freedIn_eq (key : CString) (chain : List (CNode V)) : freedIn key chain = lookup CNode.key key chain := by
  cases chain with
  | nil => rfl
  | cons header next =>
    rw [freedIn]
    by_cases same : header.key = key
    · rw [if_pos same, lookup_cons, if_pos same]
    · rw [if_neg same]
      apply freedBehind_eq (List.cons_ne_nil _ _)
      right
      intro first isFirst
      obtain rfl := Option.some.inj isFirst
      exact same

/-- An update of one chain, as far as the values go. -/
theorem values_exchange {map map' : CHashMap V} {before chain chain' after : List (CNode V)} {into out : Multiset V}
    (same : map.nodes.flatten = before ++ (chain ++ after)) (changed : map'.nodes.flatten = before ++ (chain' ++ after))
    (exchanged : (chain'.map CNode.value : Multiset V) + out = chain.map CNode.value + into) :
    (values map' : Multiset V) + out = values map + into := by
  have apart (middle : List (CNode V)) : ((before ++ (middle ++ after)).map CNode.value : Multiset V) =
      (before.map CNode.value : Multiset V) + after.map CNode.value + middle.map CNode.value := by
    rw [List.map_append, List.map_append, ← Multiset.coe_add, ← Multiset.coe_add, ← add_assoc, add_right_comm]
  rw [values, values, same, changed, apart chain', apart chain, add_assoc, exchanged, ← add_assoc]

theorem put_values {map next : CHashMap V} (sized : CHashMap.Sized map) (done : map.put key value = some next) :
    (values next : Multiset V) + back ((freedByPut map key).map CNode.value) = values map + {value} := by
  have sized' := (CHashMap.put_sized sized done).1
  rw [CHashMap.put] at done
  obtain ⟨grown, resized, stored⟩ := Option.bind_eq_some_iff.mp done
  obtain rfl := Option.some.inj stored
  have bound : bucketIndex key grown.cap < grown.nodes.length := by
    obtain ⟨k, -, upper, cap⟩ := sized'.capacity
    have length := sized'.buckets
    simp only [List.length_modify] at length cap
    rw [length, cap]
    exact bucketIndex_lt key (by omega)
  have there := List.getElem?_eq_getElem bound
  have updated : CHashMap.putNode (⟨key, value⟩ : CNode V) = upsert CNode.key ⟨key, value⟩ :=
    funext fun chain => CHashMap.putNode_eq _ chain
  have freed : freedByPut map key = lookup CNode.key key grown.nodes[bucketIndex key grown.cap] := by
    rw [freedByPut, resized, ← freedIn_eq]
    simp only [Option.bind_eq_bind, Option.bind_some, there]
  obtain ⟨before, after, same, changed⟩ := flatten_modify (upsert CNode.key ⟨key, value⟩) there
  rw [← updated] at changed
  generalize grown.nodes[bucketIndex key grown.cap] = chain at freed same changed
  have moved : (values grown : Multiset V) = values map :=
    Multiset.coe_eq_coe.mpr ((CHashMap.resize_perm sized resized).map CNode.value)
  have exchanged := Multiset.coe_eq_coe.mpr ((upsert_perm CNode.key ⟨key, value⟩ chain).map CNode.value)
  rw [List.map_append, ← Multiset.coe_add, add_comm, ← Option.toList_map, List.map_cons, ← List.singleton_append,
    ← Multiset.coe_add, add_comm ([value] : Multiset V)] at exchanged
  rw [freed, ← moved]
  exact values_exchange same changed (by rw [updated]; exact exchanged)

theorem remove_values (map : CHashMap V) (key : CString) :
    (values (map.remove key).1 : Multiset V) + back (map.remove key).2 = values map := by
  cases found : map.getNode key with
  | none =>
    simp only [CHashMap.remove, found]
    exact add_zero _
  | some node =>
    obtain ⟨chain, here, inChain⟩ := Option.bind_eq_some_iff.mp found
    obtain ⟨before, after, same, changed⟩ := flatten_modify (Keyed.remove CNode.key key) here
    have exchanged := Multiset.coe_eq_coe.mpr ((Keyed.remove_perm CNode.key key chain).map CNode.value)
    rw [inChain, List.map_append, ← Multiset.coe_add, add_comm] at exchanged
    rw [← add_zero (values map : Multiset V)]
    simp only [CHashMap.remove, found]
    apply values_exchange same changed
    rw [add_zero]
    exact exchanged

theorem remove_sized {map : CHashMap V} (sized : CHashMap.Sized map) (key : CString) :
    CHashMap.Sized (map.remove key).1 := by
  cases found : map.getNode key with
  | none =>
    simp only [CHashMap.remove, found]
    exact sized
  | some node =>
    simp only [CHashMap.remove, found]
    refine ⟨sized.capacity, ?_, Nat.le_trans (Nat.sub_le ..) sized.fits⟩
    rw [List.length_modify]
    exact sized.buckets

@[simp] theorem map_free (owner : FreeingMap V) (values : List V) : (owner.free values).map = owner.map := by
  rw [free]
  split <;> rfl

theorem step_sized {op : Op V} {out : Option V} (sized : CHashMap.Sized owner.map)
    (taken : owner.step op = some (next, out)) : CHashMap.Sized next.map := by
  cases op with
  | setFreeCb present =>
    cases taken
    exact sized
  | put key value =>
    obtain ⟨after, done, same⟩ := Option.map_eq_some_iff.mp taken
    obtain ⟨map, stored, rfl⟩ := Option.map_eq_some_iff.mp done
    cases same
    rw [map_free]
    exact (CHashMap.put_sized sized stored).1
  | remove key freeValue =>
    obtain rfl : (owner.remove key freeValue).1 = next := congrArg Prod.fst (Option.some.inj taken)
    simp only [remove]
    split
    · rw [map_free]
      exact remove_sized sized key
    · exact remove_sized sized key
  | clear =>
    cases taken
    exact CHashMap.new_sized

theorem held_clear (owner : FreeingMap V) :
    held owner.clear = held ({ owner with map := .new }.free (values owner.map)) := by
  rw [clear, free, free]
  cases owner.freeCb <;> rfl

theorem remove_eq (owner : FreeingMap V) (key : CString) (freeValue : Bool) : owner.remove key freeValue =
    let removed := owner.map.remove key
    if freeValue && owner.freeCb then ({ owner with map := removed.1 }.free removed.2.toList, none)
    else ({ owner with map := removed.1 }, removed.2) := rfl

/-- A call of `free_cb` keeps the books; without it the values are lost. -/
theorem free_books (owner : FreeingMap V) {freed : List V} {before into out : Multiset V} {ok : Prop}
    (same : before + into = values owner.map + (freed : Multiset V) + out)
    (lossless : ok ↔ owner.freeCb = true ∨ freed = []) :
    Books (before + (owner.released : Multiset V)) (held (owner.free freed)) into out ok := by
  rw [free]
  split
  · rename_i present
    refine .balanced ?_ (lossless.mpr (.inl present))
    rw [held, ← Multiset.coe_add, add_right_comm, same]
    abel
  · rename_i absent
    refine ⟨freed, ?_, ?_⟩
    · rw [held, add_right_comm, same]
      abel
    · rw [Multiset.coe_eq_zero, lossless, or_iff_right absent]

theorem step_books {op : Op V} {out : Option V} (sized : CHashMap.Sized owner.map)
    (taken : owner.step op = some (next, out)) :
    Books owner.held next.held op.given (back out) (owner.Keeps op) := by
  cases op with
  | setFreeCb present =>
    cases taken
    exact .balanced rfl trivial
  | put key value =>
    obtain ⟨after, done, same⟩ := Option.map_eq_some_iff.mp taken
    obtain ⟨map, stored, rfl⟩ := Option.map_eq_some_iff.mp done
    cases same
    refine free_books { owner with map := map } ((put_values sized stored).symm.trans (add_zero _).symm) ?_
    rw [Keeps, Option.toList_eq_nil_iff, Option.map_eq_none_iff]
  | remove key freeValue =>
    have taken := Option.some.inj taken
    have kept := remove_values owner.map key
    rw [remove_eq] at taken
    generalize owner.map.remove key = removed at kept taken
    split at taken
    · rename_i frees
      cases taken
      have set := (Bool.and_eq_true_iff.mp frees).2
      refine free_books { owner with map := removed.1 } ?_ (iff_of_true trivial (.inl set))
      rw [← kept]
      exact rfl
    · cases taken
      refine .balanced ?_ trivial
      rw [held, held, ← kept]
      exact (add_zero _).trans (add_right_comm ..)
  | clear =>
    cases taken
    rw [held_clear]
    refine free_books { owner with map := .new } ?_ ?_
    · exact (add_zero _).trans ((zero_add _).symm.trans (add_zero _).symm)
    · rw [Keeps, values, List.map_eq_nil_iff]

/-- In every run, what was put and neither stands in the table nor was released or returned is what
was lost, and nothing was lost exactly as long as every call kept all values. -/
theorem values_accounted (ops : List (Op V)) (last : FreeingMap V) (outs : List (Option V))
    (path : Run.run step new ops = some (last, outs)) :
    held last + (outs.map back).sum ≤ (ops.map Op.given).sum ∧
      ((ops.map Op.given).sum = held last + (outs.map back).sum ↔ Run.Along step Keeps new ops) := by
  have books := run_books held Op.given back (fun sized taken => step_sized sized taken)
    (fun sized taken => step_books sized taken) CHashMap.new_sized path
  have none : held (new : FreeingMap V) = 0 := rfl
  rw [none] at books
  refine ⟨?_, ?_⟩
  · exact books.le.trans_eq (zero_add _)
  · rw [← books.exact_iff, zero_add]

/-- A resize strands "ca", which is put again; "a" is put again too, "b" is removed and "c" released. -/
def releasing : List (Op Nat) :=
  [.setFreeCb true, .put (.ofBytes [99, 97]) 0, .put (.ofBytes [97]) 1, .put (.ofBytes [98]) 2, .put (.ofBytes [99]) 3,
    .put (.ofBytes [100]) 4, .put (.ofBytes [101]) 5, .put (.ofBytes [99, 97]) 6, .put (.ofBytes [97]) 7,
    .remove (.ofBytes [98]) false, .remove (.ofBytes [99]) true, .clear, .put (.ofBytes [97]) 8]

theorem releasing_accounted : ∃ last outs, Run.run step new releasing = some (last, outs) ∧
    (releasing.map Op.given).sum = held last + (outs.map back).sum := by
  have defined : (Run.run step new releasing).isSome = true := by decide +kernel
  obtain ⟨⟨last, outs⟩, path⟩ := Option.isSome_iff_exists.mp defined
  exact ⟨last, outs, path, (values_accounted releasing last outs path).2.mpr (by decide +kernel)⟩

end FreeingMap

end Devent
