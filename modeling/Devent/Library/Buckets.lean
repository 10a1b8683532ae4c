import Devent.Library.Keyed
import Mathlib.Data.List.Perm.Basic

/-! Tables of chains indexed by a home slot of the key. Distribution appends
each item to the slot it is sent to; a table whose items are all at home answers
every lookup in one chain. -/
namespace Devent.Buckets
open Keyed

variable {α K : Type}

/-- Append an item to the chain of its slot. -/
def place (table : List (List α)) (item : Nat × α) : List (List α) :=
  table.modify item.1 (· ++ [item.2])

theorem length_distribute (items : List (Nat × α)) (table : List (List α)) :
    (items.foldl place table).length = table.length := by
  induction items generalizing table with
  | nil => rfl
  | cons item rest ih => simp only [List.foldl_cons, ih, place, List.length_modify]

/-- A slot receives, in order, the items sent to it. -/
theorem distribute_get (items : List (Nat × α)) (table : List (List α)) (j : Nat) :
    (items.foldl place table)[j]? =
      table[j]?.map (· ++ (items.filter fun item => item.1 = j).map Prod.snd) := by
  induction items generalizing table with
  | nil => simp
  | cons item rest ih =>
    rw [List.foldl_cons, ih, place, List.getElem?_modify]
    by_cases here : item.1 = j
    · cases table[j]? <;> simp [here]
    · cases table[j]? <;> simp [here]

theorem place_perm {table : List (List α)} {item : Nat × α} (bound : item.1 < table.length) :
    (place table item).flatten.Perm (table.flatten ++ [item.2]) := by
  obtain ⟨j, a⟩ := item
  induction table generalizing j with
  | nil => cases bound
  | cons chain rest ih =>
    cases j with
    | zero =>
      simp only [place, List.modify_zero_cons, List.flatten_cons, List.append_assoc]
      exact List.perm_append_comm.append_left chain
    | succ j =>
      have tail := ih j (by simpa using bound)
      simp only [place, List.modify_succ_cons, List.flatten_cons, List.append_assoc] at tail ⊢
      exact tail.append_left chain

/-- Distribution neither loses nor duplicates an item. -/
theorem distribute_perm {items : List (Nat × α)} {table : List (List α)}
    (bound : ∀ item ∈ items, item.1 < table.length) :
    (items.foldl place table).flatten.Perm (table.flatten ++ items.map Prod.snd) := by
  induction items generalizing table with
  | nil => simp
  | cons item rest ih =>
    have here := place_perm (bound item List.mem_cons_self)
    have length : (place table item).length = table.length := List.length_modify ..
    have later : ∀ other ∈ rest, other.1 < (place table item).length := fun other member =>
      length ▸ bound other (List.mem_cons_of_mem _ member)
    have there := ih later
    rw [List.foldl_cons, List.map_cons, ← List.singleton_append, ← List.append_assoc]
    exact there.trans (here.append_right _)

section AtHome
variable (key : α → K) (home : K → Nat)

/-- Every item is in the slot of its key. -/
def AtHome (table : List (List α)) : Prop :=
  ∀ j chain, table[j]? = some chain → ∀ a ∈ chain, home (key a) = j

def DistinctChains (table : List (List α)) : Prop := ∀ chain ∈ table, (chain.map key).Nodup

variable {key home} {table : List (List α)}

/-- Keys of a table at home are distinct as soon as each chain's keys are:
equal keys would share a slot. -/
theorem keys_nodup (placed : AtHome key home table) (distinct : DistinctChains key table) :
    (table.flatten.map key).Nodup := by
  rw [List.map_flatten, List.nodup_flatten]
  refine ⟨?_, ?_⟩
  · intro keys member
    obtain ⟨chain, chainMem, rfl⟩ := List.mem_map.mp member
    exact distinct chain chainMem
  · rw [List.pairwise_iff_getElem]
    intro i j hi hj lt k inFirst inSecond
    rw [List.length_map] at hi hj
    simp only [List.getElem_map, List.mem_map] at inFirst inSecond
    obtain ⟨a, memA, rfl⟩ := inFirst
    obtain ⟨b, memB, sameKey⟩ := inSecond
    have homeA := placed i table[i] (List.getElem?_eq_getElem _) a memA
    have homeB := placed j table[j] (List.getElem?_eq_getElem _) b memB
    rw [sameKey] at homeB
    omega

theorem lookup_flatten_none [DecidableEq K] (home : K → Nat) (slot : Nat → Nat) {k : K}
    {rows : List (List α)}
    (placed : ∀ j chain, rows[j]? = some chain → ∀ a ∈ chain, home (key a) = slot j)
    (away : ∀ j < rows.length, slot j ≠ home k) : lookup key k rows.flatten = none := by
  rw [lookup_eq_none_iff]
  intro member
  obtain ⟨a, inRows, rfl⟩ := List.mem_map.mp member
  obtain ⟨chain, chainMem, inChain⟩ := List.mem_flatten.mp inRows
  obtain ⟨j, bound, rfl⟩ := List.getElem_of_mem chainMem
  exact away j bound (placed j _ (List.getElem?_eq_getElem bound) a inChain).symm

/-- A lookup in the whole table is a lookup in the home chain. -/
theorem lookup_flatten [DecidableEq K] (placed : AtHome key home table) (k : K) :
    lookup key k table.flatten = (table[home k]?).bind (lookup key k) := by
  by_cases bound : home k < table.length
  · have before : lookup key k (table.take (home k)).flatten = none := by
      apply lookup_flatten_none home id
      · intro j chain at_j
        rw [List.getElem?_take] at at_j
        split at at_j
        · exact placed j chain at_j
        · cases at_j
      · intro j lt
        simp only [List.length_take] at lt
        simp only [id]
        omega
    have after : lookup key k (table.drop (home k + 1)).flatten = none := by
      apply lookup_flatten_none home (home k + 1 + ·)
      · intro j chain at_j
        rw [List.getElem?_drop] at at_j
        exact placed _ chain at_j
      · intro j _
        omega
    have split : table.flatten = (table.take (home k)).flatten ++
        (table[home k] ++ (table.drop (home k + 1)).flatten) := by
      rw [← List.flatten_cons, ← List.flatten_append, List.getElem_cons_drop, List.take_append_drop]
    rw [split, lookup_append, lookup_append, before, after, List.getElem?_eq_getElem bound]
    simp
  · rw [List.getElem?_eq_none (by omega), Option.bind_none]
    apply lookup_flatten_none home id placed
    intro j lt
    simp only [id]
    omega

theorem AtHome.modify {j : Nat} {f : List α → List α} (placed : AtHome key home table)
    (fits : ∀ chain, table[j]? = some chain → ∀ a ∈ f chain, home (key a) = j) :
    AtHome key home (table.modify j f) := by
  intro i other at_i a member
  rw [List.getElem?_modify] at at_i
  obtain ⟨chain, old, rfl⟩ := Option.map_eq_some_iff.mp at_i
  split at member
  · next same =>
    subst same
    exact fits chain old a member
  · exact placed i chain old a member

theorem DistinctChains.modify {j : Nat} {f : List α → List α} (distinct : DistinctChains key table)
    (keeps : ∀ chain, (chain.map key).Nodup → ((f chain).map key).Nodup) :
    DistinctChains key (table.modify j f) := by
  intro other member
  obtain ⟨i, at_i⟩ := List.mem_iff_getElem?.mp member
  rw [List.getElem?_modify] at at_i
  obtain ⟨chain, old, rfl⟩ := Option.map_eq_some_iff.mp at_i
  have before := distinct chain (List.mem_of_getElem? old)
  split
  · exact keeps chain before
  · exact before

/-- A change of one chain, in the row of all chains. -/
theorem flatten_modify {j : Nat} {chain : List α} (f : List α → List α) (at_j : table[j]? = some chain) :
    ∃ before after, table.flatten = before ++ (chain ++ after) ∧
      (table.modify j f).flatten = before ++ (f chain ++ after) := by
  induction table generalizing j with
  | nil => cases at_j
  | cons first rest ih =>
    cases j with
    | zero =>
      cases at_j
      exact ⟨[], rest.flatten, rfl, by simp⟩
    | succ j =>
      obtain ⟨before, after, same, changed⟩ := ih at_j
      refine ⟨first ++ before, after, ?_, ?_⟩
      · rw [List.flatten_cons, same, List.append_assoc]
      · rw [List.modify_succ_cons, List.flatten_cons, changed, List.append_assoc]

theorem length_flatten_modify {j : Nat} {chain : List α} (f : List α → List α)
    (at_j : table[j]? = some chain) :
    (table.modify j f).flatten.length + chain.length = table.flatten.length + (f chain).length := by
  obtain ⟨before, after, same, changed⟩ := flatten_modify f at_j
  simp only [same, changed, List.length_append]
  omega

end AtHome

end Devent.Buckets
