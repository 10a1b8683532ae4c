import Mathlib.Data.List.TakeWhile
import Mathlib.Data.List.TakeDrop
import Mathlib.Tactic.Common

/-! Runs of items that satisfy a test, and the first of the longest ones. A scan that jumps over a
run which is longer than all before it finds that one. -/
namespace Devent.LongestRun

variable {α : Type} {p : α → Bool} {xs : List α} {n start len j k : Nat}

/-- How many items from `k` on satisfy the test. -/
def runAt (p : α → Bool) (xs : List α) (k : Nat) : Nat := ((xs.drop k).takeWhile p).length

structure FirstLongest (p : α → Bool) (xs : List α) (start : Nat) : Prop where
  longest : ∀ j, runAt p xs j ≤ runAt p xs start
  first : ∀ j, j < start → runAt p xs j < runAt p xs start

theorem FirstLongest.unique {start' : Nat} (first : FirstLongest p xs start) (second : FirstLongest p xs start') :
    start = start' := by
  obtain less | same | greater := Nat.lt_trichotomy start start'
  · exact absurd (first.longest start') (Nat.not_le.mpr (second.first start less))
  · exact same
  · exact absurd (second.longest start) (Nat.not_le.mpr (first.first start' greater))

theorem runAt_cons {a : α} (here : xs[k]? = some a) : runAt p xs k = if p a then runAt p xs (k + 1) + 1 else 0 := by
  obtain ⟨bound, rfl⟩ := List.getElem?_eq_some_iff.mp here
  rw [runAt, List.drop_eq_getElem_cons bound, List.takeWhile_cons]
  split
  · rfl
  · rfl

theorem runAt_behind (outside : xs.length ≤ k) : runAt p xs k = 0 := by
  rw [runAt, List.drop_eq_nil_of_le outside]
  rfl

theorem runAt_le (p : α → Bool) (inside : k ≤ xs.length) : k + runAt p xs k ≤ xs.length := by
  have short := (List.takeWhile_prefix (l := xs.drop k) p).length_le
  rw [List.length_drop] at short
  rw [runAt]
  omega

/-- Inside a run, what is left of it is the run. -/
theorem runAt_add (within : j ≤ runAt p xs k) : runAt p xs (k + j) + j = runAt p xs k := by
  induction j with
  | zero => rfl
  | succ j ih =>
    have before := ih (Nat.le_of_succ_le within)
    have more : 0 < runAt p xs (k + j) := by omega
    have inside : k + j < xs.length := by
      by_contra outside
      rw [runAt_behind (Nat.le_of_not_lt outside)] at more
      exact Nat.lt_irrefl 0 more
    have step := runAt_cons (p := p) (List.getElem?_eq_getElem inside)
    rw [← Nat.add_assoc k j 1]
    by_cases holds : p xs[k + j] = true
    · rw [if_pos holds] at step
      omega
    · rw [if_neg holds] at step
      omega

/-- A run leaves what is before it and behind it. -/
theorem split_runAt (p : α → Bool) (xs : List α) (k : Nat) : ∃ run,
    run.length = runAt p xs k ∧ (∀ a ∈ run, p a = true) ∧ xs = xs.take k ++ (run ++ xs.drop (k + runAt p xs k)) := by
  refine ⟨(xs.drop k).takeWhile p, rfl, fun a member => List.mem_takeWhile_imp member, ?_⟩
  have front := List.prefix_iff_eq_take.mp (List.takeWhile_prefix (l := xs.drop k) p)
  have whole := List.take_append_drop (runAt p xs k) (xs.drop k)
  rw [runAt, ← front] at whole
  rw [← List.drop_drop, runAt, whole, List.take_append_drop]

theorem runAt_map {β : Type} (f : β → α) (ys : List β) (k : Nat) : runAt p (ys.map f) k = runAt (p ∘ f) ys k := by
  rw [runAt, runAt, ← List.map_drop, List.takeWhile_map, List.length_map]

/-- The first longest run among those that begin before `n`; at length 0 there is none. -/
structure Best (p : α → Bool) (xs : List α) (n start len : Nat) : Prop where
  longest : ∀ j, j < n → runAt p xs j ≤ len
  first : 0 < len → runAt p xs start = len ∧ ∀ j, j < start → runAt p xs j < len

theorem best_zero (p : α → Bool) (xs : List α) (start : Nat) : Best p xs 0 start 0 := ⟨nofun, nofun⟩

/-- A run that is not longer is passed over. -/
theorem Best.pass (best : Best p xs n start len) (short : runAt p xs n ≤ len) : Best p xs (n + 1) start len := by
  refine ⟨fun j before => ?_, best.first⟩
  obtain earlier | rfl := Nat.lt_succ_iff_lt_or_eq.mp before
  · exact best.longest j earlier
  · exact short

/-- A longer one is taken, and the scan goes on behind the item that ends it. -/
theorem Best.take (best : Best p xs n start len) (longer : len < runAt p xs n) :
    Best p xs (n + runAt p xs n + 1) n (runAt p xs n) := by
  refine ⟨fun j before => ?_, fun _ => ⟨rfl, fun j before => Nat.lt_of_le_of_lt (best.longest j before) longer⟩⟩
  obtain earlier | later := Nat.lt_or_ge j n
  · exact Nat.le_of_lt (Nat.lt_of_le_of_lt (best.longest j earlier) longer)
  · obtain ⟨i, rfl⟩ := Nat.exists_eq_add_of_le later
    have inside : i ≤ runAt p xs n := by omega
    have rest := runAt_add inside
    omega

theorem Best.all (best : Best p xs n start len) (whole : xs.length ≤ n) (j : Nat) : runAt p xs j ≤ len := by
  obtain inside | outside := Nat.lt_or_ge j n
  · exact best.longest j inside
  · rw [runAt_behind (Nat.le_trans whole outside)]
    exact Nat.zero_le len

theorem Best.firstLongest (best : Best p xs n start len) (whole : xs.length ≤ n) (some : 0 < len) :
    FirstLongest p xs start := by
  obtain ⟨run, first⟩ := best.first some
  refine ⟨fun j => ?_, fun j before => ?_⟩
  · rw [run]
    exact best.all whole j
  · rw [run]
    exact first j before

end Devent.LongestRun
