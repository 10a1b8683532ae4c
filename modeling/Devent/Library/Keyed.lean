import Mathlib.Data.List.Nodup
import Mathlib.Data.List.Flatten
import Mathlib.Tactic.Common

/-! Chains of keyed items, and tables of such chains. A chain maps a key to its
first item; a table sends every item to the chain that an index function names. -/
namespace Devent.Keyed

variable {α K : Type} [DecidableEq K] (key : α → K)

def lookup (k : K) (chain : List α) : Option α := chain.find? fun a => decide (key a = k)

/-- Replace the first item with the same key, or append. -/
def upsert (a : α) : List α → List α
  | [] => [a]
  | b :: rest => if key b = key a then a :: rest else b :: upsert a rest

/-- Drop the first item with the key. -/
def remove (k : K) (chain : List α) : List α := chain.eraseP fun a => decide (key a = k)

variable {key}

@[simp] theorem lookup_nil (k : K) : lookup key k [] = none := rfl

theorem lookup_cons (k : K) (a : α) (chain : List α) :
    lookup key k (a :: chain) = if key a = k then some a else lookup key k chain := by
  by_cases same : key a = k <;> simp [lookup, same]

theorem lookup_key {k : K} {a : α} {chain : List α} (found : lookup key k chain = some a) :
    key a = k := by
  simpa using List.find?_some found

theorem lookup_mem {k : K} {a : α} {chain : List α} (found : lookup key k chain = some a) :
    a ∈ chain := List.mem_of_find?_eq_some found

theorem lookup_eq_none_iff {k : K} {chain : List α} :
    lookup key k chain = none ↔ k ∉ chain.map key := by
  simp only [lookup, List.find?_eq_none, decide_eq_true_eq, List.mem_map, not_exists, not_and]

theorem lookup_append (k : K) (first second : List α) :
    lookup key k (first ++ second) = (lookup key k first).or (lookup key k second) := by
  simp only [lookup, List.find?_append]

/-- Lookups only see the items that carry the key. -/
theorem lookup_filter {k : K} {p : α → Bool} {chain : List α}
    (kept : ∀ a ∈ chain, key a = k → p a = true) :
    lookup key k (chain.filter p) = lookup key k chain := by
  induction chain with
  | nil => rfl
  | cons a rest ih =>
    have tail := ih fun b member => kept b (List.mem_cons_of_mem _ member)
    by_cases same : key a = k
    · have here : p a = true := kept a List.mem_cons_self same
      rw [List.filter_cons_of_pos here, lookup_cons, lookup_cons, if_pos same, if_pos same]
    · by_cases here : p a = true
      · rw [List.filter_cons_of_pos here, lookup_cons, lookup_cons, if_neg same, if_neg same, tail]
      · rw [List.filter_cons_of_neg here, lookup_cons, if_neg same, tail]

theorem lookup_of_mem {a : α} {chain : List α} (distinct : (chain.map key).Nodup) (member : a ∈ chain) :
    lookup key (key a) chain = some a := by
  induction chain with
  | nil => cases member
  | cons b rest ih =>
    rw [List.map_cons, List.nodup_cons] at distinct
    rw [lookup_cons]
    rcases List.mem_cons.mp member with rfl | later
    · rw [if_pos rfl]
    · have different : key b ≠ key a := by
        intro same
        exact distinct.1 (same ▸ List.mem_map_of_mem later)
      rw [if_neg different, ih distinct.2 later]

theorem lookup_upsert (k : K) (a : α) (chain : List α) :
    lookup key k (upsert key a chain) = if key a = k then some a else lookup key k chain := by
  induction chain with
  | nil => rw [upsert, lookup_cons]
  | cons b rest ih =>
    rw [upsert]
    by_cases same : key b = key a
    · rw [if_pos same, lookup_cons, lookup_cons, same]
      split <;> rfl
    · rw [if_neg same, lookup_cons, lookup_cons, ih]
      by_cases here : key b = k
      · have other : key a ≠ k := fun equal => same (here.trans equal.symm)
        simp only [if_pos here, if_neg other]
      · simp only [if_neg here]

theorem map_upsert (a : α) (chain : List α) :
    (upsert key a chain).map key =
      if key a ∈ chain.map key then chain.map key else chain.map key ++ [key a] := by
  induction chain with
  | nil => rfl
  | cons b rest ih =>
    rw [upsert]
    by_cases same : key b = key a
    · simp [same]
    · have other : key a ≠ key b := Ne.symm same
      simp only [if_neg same, List.map_cons, ih, List.mem_cons, other, false_or]
      split <;> rfl

theorem nodup_upsert {a : α} {chain : List α} (distinct : (chain.map key).Nodup) :
    ((upsert key a chain).map key).Nodup := by
  rw [map_upsert]
  split
  · exact distinct
  · next fresh => simpa [List.nodup_append, distinct] using fresh

theorem mem_upsert {a b : α} {chain : List α} (member : b ∈ upsert key a chain) :
    b = a ∨ b ∈ chain := by
  induction chain with
  | nil => exact .inl (List.mem_singleton.mp member)
  | cons c rest ih =>
    rw [upsert] at member
    split at member
    · rcases List.mem_cons.mp member with same | later
      · exact .inl same
      · exact .inr (List.mem_cons_of_mem _ later)
    · rcases List.mem_cons.mp member with same | later
      · exact .inr (same ▸ List.mem_cons_self)
      · exact (ih later).imp id (List.mem_cons_of_mem _)

theorem mem_upsert_of_ne {a b : α} {chain : List α} (member : b ∈ chain) (other : key b ≠ key a) :
    b ∈ upsert key a chain := by
  induction chain with
  | nil => cases member
  | cons c rest ih =>
    rw [upsert]
    rcases List.mem_cons.mp member with rfl | later
    · rw [if_neg other]
      exact List.mem_cons_self
    · split
      · exact List.mem_cons_of_mem _ later
      · exact List.mem_cons_of_mem _ (ih later)

theorem length_upsert (a : α) (chain : List α) :
    (upsert key a chain).length =
      if key a ∈ chain.map key then chain.length else chain.length + 1 := by
  have lengths : ((upsert key a chain).map key).length = _ := congrArg List.length (map_upsert a chain)
  rw [List.length_map] at lengths
  rw [lengths]
  split <;> simp

theorem lookup_remove {k : K} (k' : K) {chain : List α} (distinct : (chain.map key).Nodup) :
    lookup key k' (remove key k chain) = if k = k' then none else lookup key k' chain := by
  induction chain with
  | nil => simp [remove]
  | cons b rest ih =>
    rw [List.map_cons, List.nodup_cons] at distinct
    by_cases here : key b = k
    · have gone : remove key k (b :: rest) = rest := by simp [remove, here]
      rw [gone, lookup_cons, here]
      split
      · next same => exact lookup_eq_none_iff.mpr (same ▸ here ▸ distinct.1)
      · rfl
    · have kept : remove key k (b :: rest) = b :: remove key k rest := by
        simp [remove, here]
      rw [kept, lookup_cons, lookup_cons, ih distinct.2]
      by_cases this : key b = k'
      · have other : k ≠ k' := fun equal => here (this.trans equal.symm)
        simp only [if_pos this, if_neg other]
      · simp only [if_neg this]

theorem length_remove {k : K} {a : α} {chain : List α} (member : a ∈ chain) (same : key a = k) :
    (remove key k chain).length + 1 = chain.length := by
  have positive := List.length_pos_of_mem member
  have erased := List.length_eraseP_of_mem (p := fun b => decide (key b = k)) member (by simpa using same)
  rw [remove]
  omega

theorem remove_absent {k : K} {chain : List α} (absent : k ∉ chain.map key) : remove key k chain = chain := by
  apply List.eraseP_of_forall_not
  rintro a member same
  exact absent (List.mem_map.mpr ⟨a, member, of_decide_eq_true same⟩)

/-- The item with the key, behind items without it. -/
theorem remove_middle {a : α} {first : List α} (absent : key a ∉ first.map key) (second : List α) :
    remove key (key a) (first ++ a :: second) = first ++ second ∧
      lookup key (key a) (first ++ a :: second) = some a := by
  constructor
  · have others : ∀ b ∈ first, ¬decide (key b = key a) = true := by
      rintro b member same
      exact absent (List.mem_map.mpr ⟨b, member, of_decide_eq_true same⟩)
    rw [remove, List.eraseP_append_right (a :: second) others, List.eraseP_cons, decide_eq_true rfl]
    rfl
  · rw [lookup_append, lookup_eq_none_iff.mpr absent, lookup_cons, if_pos rfl, Option.none_or]

theorem remove_sublist (k : K) (chain : List α) : (remove key k chain).Sublist chain :=
  List.eraseP_sublist

theorem upsert_perm (key : α → K) (a : α) (chain : List α) :
    ((lookup key (key a) chain).toList ++ upsert key a chain).Perm (a :: chain) := by
  induction chain with
  | nil => exact .refl _
  | cons b rest ih =>
    rw [lookup_cons, upsert]
    by_cases same : key b = key a
    · rw [if_pos same, if_pos same]
      exact .swap ..
    · rw [if_neg same, if_neg same]
      exact List.perm_middle.trans ((ih.cons b).trans (.swap ..))

theorem remove_perm (key : α → K) (k : K) (chain : List α) :
    ((lookup key k chain).toList ++ remove key k chain).Perm chain := by
  induction chain with
  | nil => exact .refl _
  | cons b rest ih =>
    rw [lookup_cons, remove, List.eraseP_cons]
    by_cases same : key b = k
    · rw [if_pos same, decide_eq_true same]
      exact .refl _
    · rw [if_neg same, decide_eq_false same]
      exact List.perm_middle.trans (ih.cons b)

end Devent.Keyed
