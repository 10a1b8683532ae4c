import Mathlib.Order.Lattice
import Mathlib.Data.List.Pairwise
import Mathlib.Order.Defs.LinearOrder
import Mathlib.Tactic.Common

/-! Binary search over an ascending sequence that is read through a partial
probe. A miss is encoded as the bit complement of the insertion point. -/
namespace Devent.Search

variable {K : Type} [LinearOrder K]

/-- `while (start <= end)` with the midpoint computed ahead; C division truncates. -/
def loop (probe : Int → Option K) (key : K) : Nat → Int → Int → Int → Option Int
  | 0, _, _, _ => none
  | rounds + 1, start, stop, mid =>
    if start ≤ stop then do
      let midKey ← probe mid
      if midKey = key then return mid
      if midKey < key then loop probe key rounds (mid + 1) stop ((mid + 1 + stop).tdiv 2)
      else loop probe key rounds start (mid - 1) ((start + (mid - 1)).tdiv 2)
    else some (-start - 1)

/-- The answer of a search: the index of the key, or the complement of the
place between all smaller and all greater keys. -/
inductive Answer (keys : List K) (key : K) : Int → Prop
  | found (i : Nat) (here : keys[i]? = some key) : Answer keys key i
  | missing (p : Nat) (bound : p ≤ keys.length)
      (below : ∀ (j : Nat) k, keys[j]? = some k → j < p → k < key)
      (above : ∀ (j : Nat) k, keys[j]? = some k → p ≤ j → key < k) : Answer keys key (-(p : Int) - 1)

theorem loop_spec {keys : List K} {probe : Int → Option K} {key : K} (sorted : keys.Pairwise (· ≤ ·))
    (reads : ∀ i : Nat, i < keys.length → probe i = keys[i]?) {rounds : Nat} {start stop mid : Int}
    (lower : 0 ≤ start) (upper : stop < keys.length) (ordered : start ≤ stop + 1)
    (middle : start ≤ stop → start ≤ mid ∧ mid ≤ stop) (enough : stop + 1 - start < rounds)
    (below : ∀ (j : Nat) k, keys[j]? = some k → (j : Int) < start → k < key)
    (above : ∀ (j : Nat) k, keys[j]? = some k → stop < (j : Int) → key < k) :
    ∃ answer, loop probe key rounds start stop mid = some answer ∧ Answer keys key answer := by
  induction rounds generalizing start stop mid with
  | zero => omega
  | succ rounds ih =>
    rw [loop]
    by_cases more : start ≤ stop
    · obtain ⟨low, high⟩ := middle more
      obtain ⟨m, rfl⟩ := Int.eq_ofNat_of_zero_le (show 0 ≤ mid by omega)
      have bound : m < keys.length := by omega
      have here : keys[m]? = some keys[m] := List.getElem?_eq_getElem bound
      have order := List.pairwise_iff_getElem.mp sorted
      rw [if_pos more, reads m bound, here]
      simp only [Option.bind_eq_bind, Option.bind_some]
      by_cases same : keys[m] = key
      · rw [if_pos same]
        exact ⟨m, rfl, .found m (here.trans (congrArg some same))⟩
      rw [if_neg same]
      by_cases less : keys[m] < key
      · rw [if_pos less]
        refine ih (by omega) upper (by omega) (fun next => ?_) (by omega) ?_ above
        · rw [Int.tdiv_eq_ediv_of_nonneg (by omega)]
          omega
        · intro j k at_j before
          obtain ⟨inside, rfl⟩ := List.getElem?_eq_some_iff.mp at_j
          rcases Nat.lt_or_eq_of_le (show j ≤ m by omega) with earlier | rfl
          · exact lt_of_le_of_lt (order j m inside bound earlier) less
          · exact less
      · rw [if_neg less]
        have greater : key < keys[m] := lt_of_le_of_ne (not_lt.mp less) (Ne.symm same)
        refine ih lower (by omega) (by omega) (fun next => ?_) (by omega) below ?_
        · rw [Int.tdiv_eq_ediv_of_nonneg (by omega)]
          omega
        · intro j k at_j after
          obtain ⟨inside, rfl⟩ := List.getElem?_eq_some_iff.mp at_j
          rcases Nat.lt_or_eq_of_le (show m ≤ j by omega) with later | rfl
          · exact lt_of_lt_of_le greater (order m j bound inside later)
          · exact greater
    · obtain ⟨p, rfl⟩ := Int.eq_ofNat_of_zero_le lower
      rw [if_neg more]
      refine ⟨_, rfl, .missing p (by omega) (fun j k at_j before => ?_) fun j k at_j after => ?_⟩
      · exact below j k at_j (by omega)
      · exact above j k at_j (by omega)

/-- A predicate that holds exactly before a position selects a prefix. -/
theorem filter_eq_take {α : Type} {q : α → Bool} {xs : List α} {p : Nat}
    (before : ∀ (j : Nat) a, xs[j]? = some a → j < p → q a = true)
    (after : ∀ (j : Nat) a, xs[j]? = some a → p ≤ j → q a = false) : xs.filter q = xs.take p := by
  have first : (xs.take p).filter q = xs.take p := by
    refine List.filter_eq_self.mpr fun a member => ?_
    obtain ⟨j, at_j⟩ := List.mem_iff_getElem?.mp member
    rw [List.getElem?_take] at at_j
    split at at_j
    · next lt => exact before j a at_j lt
    · cases at_j
  have second : (xs.drop p).filter q = [] := by
    refine List.filter_eq_nil_iff.mpr fun a member => ?_
    obtain ⟨j, at_j⟩ := List.mem_iff_getElem?.mp member
    rw [List.getElem?_drop] at at_j
    simp [after (p + j) a at_j (Nat.le_add_right p j)]
  calc xs.filter q = (xs.take p ++ xs.drop p).filter q := by rw [List.take_append_drop]
    _ = xs.take p := by rw [List.filter_append, first, second, List.append_nil]

theorem filter_eq_drop {α : Type} {q : α → Bool} {xs : List α} {p : Nat}
    (before : ∀ (j : Nat) a, xs[j]? = some a → j < p → q a = false)
    (after : ∀ (j : Nat) a, xs[j]? = some a → p ≤ j → q a = true) : xs.filter q = xs.drop p := by
  have first : (xs.take p).filter q = [] := by
    refine List.filter_eq_nil_iff.mpr fun a member => ?_
    obtain ⟨j, at_j⟩ := List.mem_iff_getElem?.mp member
    rw [List.getElem?_take] at at_j
    split at at_j
    · next lt => simp [before j a at_j lt]
    · cases at_j
  have second : (xs.drop p).filter q = xs.drop p := by
    refine List.filter_eq_self.mpr fun a member => ?_
    obtain ⟨j, at_j⟩ := List.mem_iff_getElem?.mp member
    rw [List.getElem?_drop] at at_j
    exact after (p + j) a at_j (Nat.le_add_right p j)
  calc xs.filter q = (xs.take p ++ xs.drop p).filter q := by rw [List.take_append_drop]
    _ = xs.drop p := by rw [List.filter_append, first, second, List.nil_append]

end Devent.Search
