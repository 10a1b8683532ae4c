import Devent.Dlib.NumberSet
import Devent.Library.Run
import Mathlib.Data.Finset.Basic

/-! `CNumSet` against finite sets. The search is right, but no number can be inserted: the loop that
makes room stores behind the block. A removal takes away the greatest number, whichever was meant. -/
namespace Devent.CNumSet
open Slots

/-- A finite set of numbers, with the statuses of the calls. -/
def numbersStep (numbers : Finset Int) : Op → Finset Int × Int
  | .put num => (insert num numbers, 0)
  | .remove num => (numbers.erase num, if num ∈ numbers then 0 else -1)
  | .clear => (∅, 0)

/-- The first slots hold the numbers in ascending order, and below the capacity is room. -/
structure Represents (set : CNumSet) (items : List Int) : Prop where
  len : set.len = items.length
  data : Holds set.data items
  ascending : items.Pairwise (· < ·)
  allocated : set.data.length = set.cap
  room : set.len < set.cap

/-- A set in ascending order whose queries answer for the numbers. -/
def Meets (set : CNumSet) (numbers : Finset Int) : Prop := ∃ items,
  Represents set items ∧ (∀ num, num ∈ numbers ↔ num ∈ items) ∧
    (∀ num, set.contains num = some (decide (num ∈ numbers))) ∧ ∀ index, set.get index = some items[index]?

/-- A put of a number that is there, a removal of the greatest number or of none. -/
def Safe (set : CNumSet) : Op → Prop
  | .put num => set.contains num = some true
  | .remove num => set.contains num = some true → set.get (set.len - 1) = some (some num)
  | .clear => True

instance (set : CNumSet) (op : Op) : Decidable (Safe set op) :=
  match op with
  | .put _ => inferInstanceAs (Decidable (_ = _))
  | .remove _ => inferInstanceAs (Decidable (_ → _))
  | .clear => .isTrue trivial

variable {set next : CNumSet} {items : List Int} {numbers : Finset Int} {num : Int}

theorem new_represents : Represents new [] where
  len := rfl
  data := holds_nil _
  ascending := List.Pairwise.nil
  allocated := List.length_replicate
  room := by decide

theorem numberIndex_spec (rep : Represents set items) (num : Int) :
    ∃ answer, set.numberIndex num = some answer ∧ Search.Answer items num answer := by
  have len := rep.len
  rw [numberIndex]
  split
  · next empty =>
    obtain rfl : items = [] := List.eq_nil_of_length_eq_zero (len.symm.trans empty)
    exact ⟨-1, rfl, .missing 0 (Nat.zero_le _) nofun nofun⟩
  · next nonempty =>
    refine Search.loop_spec (rep.ascending.imp Int.le_of_lt) (fun i bound => ?_) (Int.le_refl 0) (by omega) (by omega)
      (fun _ => ?_) (by omega) (fun j k _ before => absurd before (by omega)) fun j k at_j after => ?_
    · rw [probe, if_pos (Int.natCast_nonneg i), Int.toNat_natCast, rep.data.load bound, List.getElem?_eq_getElem bound]
    · rw [Int.tdiv_eq_ediv_of_nonneg (by omega)]
      omega
    · obtain ⟨bound, -⟩ := List.getElem?_eq_some_iff.mp at_j
      omega

theorem number_cases (rep : Represents set items) (num : Int) :
    (∃ i : Nat, set.numberIndex num = some (i : Int) ∧ items[i]? = some num) ∨
      ∃ p : Nat, set.numberIndex num = some (-(p : Int) - 1) ∧ p ≤ items.length ∧ num ∉ items := by
  obtain ⟨answer, searched, located⟩ := numberIndex_spec rep num
  cases located with
  | found i here => exact .inl ⟨i, searched, here⟩
  | missing p bound below above =>
    refine .inr ⟨p, searched, bound, fun member => ?_⟩
    obtain ⟨j, at_j⟩ := List.mem_iff_getElem?.mp member
    obtain before | after := Nat.lt_or_ge j p
    · exact Int.lt_irrefl _ (below j num at_j before)
    · exact Int.lt_irrefl _ (above j num at_j after)

theorem contains_spec (rep : Represents set items) (num : Int) : set.contains num = some (decide (num ∈ items)) := by
  rw [contains]
  split
  · next empty =>
    obtain rfl : items = [] := List.eq_nil_of_length_eq_zero (rep.len.symm.trans empty)
    rfl
  · obtain ⟨i, found, here⟩ | ⟨p, missed, bound, absent⟩ := number_cases rep num
    · rw [found, Option.map_some, decide_eq_true (Int.natCast_nonneg i), decide_eq_true (List.mem_of_getElem? here)]
    · rw [missed, Option.map_some, decide_eq_false (show ¬-(p : Int) - 1 ≥ 0 by omega), decide_eq_false absent]

theorem get_spec (rep : Represents set items) (index : Nat) : set.get index = some items[index]? := by
  have len := rep.len
  rw [get]
  split
  · rw [List.getElem?_eq_none (by omega)]
  · next inside =>
    have bound : index < items.length := by omega
    rw [rep.data.load bound, List.getElem?_eq_getElem bound]
    rfl

theorem meets_of_represents (rep : Represents set items) (same : ∀ num, num ∈ numbers ↔ num ∈ items) :
    Meets set numbers := by
  refine ⟨items, rep, same, fun num => ?_, get_spec rep⟩
  rw [contains_spec rep, decide_eq_decide.mpr (same num)]

theorem resize_represents (rep : Represents set items) (len : Nat) : Represents (set.resize len) items := by
  rw [resize]
  split
  · exact rep
  · have grows : set.data.length ≤ set.cap + set.cap / 2 := by
      rw [rep.allocated]
      exact Nat.le_add_right _ _
    refine ⟨rep.len, rep.data.realloc grows, rep.ascending, length_realloc grows, ?_⟩
    exact Nat.lt_of_lt_of_le rep.room (Nat.le_add_right _ _)

theorem put_present (rep : Represents set items) (present : num ∈ items) :
    set.put num = some (set.resize (set.len + 1), 0) := by
  obtain ⟨i, found, -⟩ | ⟨p, -, -, absent⟩ := number_cases (resize_represents rep (set.len + 1)) num
  · rw [put]
    simp only [found, Option.bind_eq_bind, Option.bind_some, ge_iff_le, Int.natCast_nonneg, if_true]
    rfl
  · exact absurd present absent

/-- The last copy goes to `data[cap]`. -/
theorem put_overruns (rep : Represents set items) (absent : num ∉ items) : set.put num = none := by
  have rep' := resize_represents rep (set.len + 1)
  have room := rep'.room
  have len := rep'.len
  obtain ⟨i, -, here⟩ | ⟨p, missed, bound, -⟩ := number_cases rep' num
  · exact absurd (List.mem_of_getElem? here) absent
  · have place : (-(-(p : Int) - 1) - 1).toNat = p := by omega
    have overrun : spreadUp (set.resize (set.len + 1)).cap (set.resize (set.len + 1)).cap p
        (set.resize (set.len + 1)).data = none :=
      spreadUp_overruns (by omega) (Nat.le_of_eq rep'.allocated)
    rw [put]
    simp only [missed, Option.bind_eq_bind, Option.bind_some, if_neg (show ¬-(p : Int) - 1 ≥ 0 by omega), place,
      overrun, Option.bind_none]

theorem remove_present (rep : Represents set items) (present : num ∈ items) :
    set.remove num = some ({ set with len := set.len - 1 }, 0) := by
  have nonempty : set.len ≠ 0 := by
    rw [rep.len]
    exact Nat.ne_zero_of_lt (List.length_pos_of_mem present)
  obtain ⟨i, found, -⟩ | ⟨p, -, -, absent⟩ := number_cases rep num
  · rw [remove, if_neg nonempty, found]
    simp only [Option.bind_eq_bind, Option.bind_some, if_neg (show ¬(i : Int) < 0 by omega),
      if_pos (show -(i : Int) - 1 < 0 by omega)]
    rfl
  · exact absurd present absent

theorem remove_absent (rep : Represents set items) (absent : num ∉ items) : set.remove num = some (set, -1) := by
  rw [remove]
  split
  · rfl
  · obtain ⟨i, -, here⟩ | ⟨p, missed, -, -⟩ := number_cases rep num
    · exact absurd (List.mem_of_getElem? here) absent
    · rw [missed]
      simp only [Option.bind_eq_bind, Option.bind_some, if_pos (show -(p : Int) - 1 < 0 by omega)]
      rfl

/-- Without the last number. -/
theorem Represents.dropLast (rep : Represents set items) :
    Represents { set with len := set.len - 1 } items.dropLast := by
  have kept := rep.data.take (items.length - 1)
  rw [← List.dropLast_eq_take] at kept
  refine ⟨?_, kept, rep.ascending.sublist (List.dropLast_sublist items), rep.allocated, ?_⟩
  · rw [List.length_dropLast, ← rep.len]
  · exact Nat.lt_of_le_of_lt (Nat.sub_le _ _) rep.room

/-- What a removal leaves are the numbers without the one meant only if it was the greatest. -/
theorem mem_dropLast_iff (rep : Represents set items) (present : num ∈ items) :
    (∀ other, (other ≠ num ∧ other ∈ items) ↔ other ∈ items.dropLast) ↔ items[items.length - 1]? = some num := by
  obtain ⟨front, last, rfl⟩ : ∃ front last, items = front ++ [last] := by
    obtain rfl | split := List.eq_nil_or_concat' items
    · cases present
    · exact split
  have top : (front ++ [last])[(front ++ [last]).length - 1]? = some last := by
    rw [← List.getLast?_eq_getElem?, List.getLast?_concat]
  rw [List.dropLast_concat, top]
  have order := rep.ascending
  rw [List.pairwise_append] at order
  have away : last ∉ front := fun member => Int.lt_irrefl _ (order.2.2 last member last (List.mem_singleton.mpr rfl))
  constructor
  · intro same
    by_contra other
    have ends : last ≠ num := fun equal => other (congrArg some equal)
    exact away ((same last).mp ⟨ends, by simp⟩)
  · rintro ⟨⟩ other
    rw [List.mem_append, List.mem_singleton]
    constructor
    · rintro ⟨differs, inside | equal⟩
      · exact inside
      · exact absurd equal differs
    · intro inside
      exact ⟨fun equal => away (equal ▸ inside), .inl inside⟩

def Related (set : CNumSet) (numbers : Finset Int) : Prop :=
  ∃ items, Represents set items ∧ ∀ num, num ∈ numbers ↔ num ∈ items

theorem safe_put_iff (rep : Represents set items) : Safe set (.put num) ↔ num ∈ items := by
  rw [Safe, contains_spec rep, Option.some.injEq, decide_eq_true_iff]

theorem safe_remove_iff (rep : Represents set items) :
    Safe set (.remove num) ↔ (num ∈ items → items[items.length - 1]? = some num) := by
  rw [Safe, contains_spec rep, get_spec rep, rep.len, Option.some.injEq, Option.some.injEq, decide_eq_true_iff]

theorem step_keeps {op : Op} (related : Related set numbers) (safe : Safe set op) :
    ∃ next, set.step op = some (next, (numbersStep numbers op).2) ∧ Related next (numbersStep numbers op).1 := by
  obtain ⟨items, rep, same⟩ := related
  cases op with
  | put num =>
    have present := (safe_put_iff rep).mp safe
    refine ⟨_, put_present rep present, items, resize_represents rep _, fun other => ?_⟩
    rw [numbersStep, Finset.insert_eq_of_mem ((same num).mpr present), same]
  | remove num =>
    by_cases present : num ∈ items
    · have last := (mem_dropLast_iff rep present).mpr ((safe_remove_iff rep).mp safe present)
      refine ⟨{ set with len := set.len - 1 }, ?_, items.dropLast, rep.dropLast, fun other => ?_⟩
      · rw [step, remove_present rep present, numbersStep, if_pos ((same num).mpr present)]
      · rw [numbersStep, Finset.mem_erase, same, last]
    · have absent : num ∉ numbers := fun member => present ((same num).mp member)
      refine ⟨set, ?_, items, rep, fun other => ?_⟩
      · rw [step, remove_absent rep present, numbersStep, if_neg absent]
      · rw [numbersStep, Finset.erase_eq_of_notMem absent, same]
  | clear =>
    refine ⟨set.clear, rfl, [], ⟨rfl, holds_nil _, List.Pairwise.nil, rep.allocated, ?_⟩, fun other => ?_⟩
    · exact Nat.zero_lt_of_lt rep.room
    · simp [numbersStep]

theorem step_breaks {op : Op} (related : Related set numbers) (unsafeStep : ¬Safe set op)
    (stepped : set.step op = some (next, (numbersStep numbers op).2)) : ¬Meets next (numbersStep numbers op).1 := by
  rintro ⟨items', rep', same', -⟩
  obtain ⟨items, rep, same⟩ := related
  cases op with
  | put num =>
    have absent : num ∉ items := fun member => unsafeStep ((safe_put_iff rep).mpr member)
    rw [step, put_overruns rep absent] at stepped
    cases stepped
  | remove num =>
    obtain ⟨present, lower⟩ := Classical.not_imp.mp fun safe => unsafeStep ((safe_remove_iff rep).mpr safe)
    rw [step, remove_present rep present] at stepped
    obtain ⟨rfl, -⟩ := Prod.mk.inj (Option.some.inj stepped)
    have left := rep.dropLast
    obtain rfl : items' = items.dropLast := rep'.data.unique left.data (rep'.len.symm.trans left.len)
    refine lower ((mem_dropLast_iff rep present).mp fun other => ?_)
    rw [← same', numbersStep, Finset.mem_erase, same]
  | clear => exact unsafeStep trivial

/-- In an empty set nothing but a put goes wrong. -/
theorem along_empty (rep : Represents set []) (ops : List Op) :
    Run.Along step Safe set ops ↔ ∀ op ∈ ops, ∀ num, op ≠ .put num := by
  induction ops generalizing set with
  | nil => exact iff_of_true trivial nofun
  | cons op rest ih =>
    rw [List.forall_mem_cons]
    cases op with
    | put num =>
      refine iff_of_false (fun along => ?_) fun both => both.1 num rfl
      cases (safe_put_iff rep).mp along.1
    | remove num =>
      have safe : Safe set (.remove num) := (safe_remove_iff rep).mpr nofun
      have stepped : set.step (.remove num) = some (set, -1) := remove_absent rep List.not_mem_nil
      constructor
      · exact fun along => ⟨nofun, (ih rep).mp (along.2 set _ stepped)⟩
      · refine fun both => ⟨safe, fun next out taken => ?_⟩
        cases stepped.symm.trans taken
        exact (ih rep).mpr both.2
    | clear =>
      have rep' : Represents set.clear [] :=
        ⟨rfl, holds_nil _, List.Pairwise.nil, rep.allocated, Nat.zero_lt_of_lt rep.room⟩
      constructor
      · exact fun along => ⟨nofun, (ih rep').mp (along.2 set.clear _ rfl)⟩
      · refine fun both => ⟨trivial, fun next out taken => ?_⟩
        cases taken
        exact (ih rep').mpr both.2

/-- From any set in order, every state of a run is the set of its numbers with the right statuses
exactly if each put names a number that is there, and each removal the greatest or none; from the
new set, exactly if there is no put. -/
theorem number_set_iff (ops : List Op) :
    (∀ set items numbers, Represents set items → (∀ num, num ∈ numbers ↔ num ∈ items) →
        ((∀ arrived, arrived <+: ops → ∃ last,
          Run.run step set arrived = some (last, (Run.track numbersStep numbers arrived).2) ∧
            Meets last (Run.track numbersStep numbers arrived).1) ↔ Run.Along step Safe set ops)) ∧
      ((∀ arrived, arrived <+: ops → ∃ last,
        Run.run step new arrived = some (last, (Run.track numbersStep ∅ arrived).2) ∧
          Meets last (Run.track numbersStep ∅ arrived).1) ↔ ∀ op ∈ ops, ∀ num, op ≠ .put num) := by
  have runs (set : CNumSet) (numbers : Finset Int) (related : Related set numbers) :=
    @Run.answers_iff_along _ _ _ _ step Related Meets numbersStep Safe
      (fun ⟨_, rep, same⟩ => meets_of_represents rep same) step_keeps
      (fun related unsafeStep _ => step_breaks related unsafeStep) set numbers related ops
  refine ⟨fun set items numbers rep same => runs set numbers ⟨items, rep, same⟩, ?_⟩
  have empty : Related new ∅ := ⟨[], new_represents, fun num => by simp⟩
  exact (runs new ∅ empty).trans (along_empty new_represents ops)

/-- The first put of a new set. -/
theorem first_put_overruns : ¬∃ last,
    Run.run step new [.put 1] = some (last, (Run.track numbersStep ∅ [.put 1]).2) ∧
      Meets last (Run.track numbersStep ∅ [.put 1]).1 := by
  rintro ⟨last, path, -⟩
  have overrun : Run.run step new [.put 1] = none := by decide +kernel
  cases overrun.symm.trans path

end Devent.CNumSet
