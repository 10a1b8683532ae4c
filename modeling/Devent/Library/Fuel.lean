import Mathlib.Tactic.Common

/-! Programs run with fuel. An outcome is a value, a fault, or still running; a
stable program keeps its outcome once it has one. How a stable program ends is
read off its sequencing, without mention of fuel, by the same rules for partial and
for total correctness. -/
namespace Devent

inductive Outcome (E α : Type) where
  | value (a : α)
  | fault (e : E)
  | running
  deriving DecidableEq

namespace Outcome

variable {E α β : Type}

protected def bind : Outcome E α → (α → Outcome E β) → Outcome E β
  | .value a, f => f a
  | .fault e, _ => .fault e
  | .running, _ => .running

instance : Monad (Outcome E) where
  pure := .value
  bind := Outcome.bind

@[simp] theorem pure_eq (a : α) : (pure a : Outcome E α) = .value a := rfl

@[simp] theorem value_bind (a : α) (f : α → Outcome E β) : (Outcome.value a >>= f) = f a := rfl

@[simp] theorem fault_bind (e : E) (f : α → Outcome E β) : (Outcome.fault e >>= f) = .fault e := rfl

@[simp] theorem running_bind (f : α → Outcome E β) : (Outcome.running >>= f) = .running := rfl

theorem bind_bind {γ : Type} (x : Outcome E α) (f : α → Outcome E β) (g : β → Outcome E γ) :
    (x >>= f) >>= g = x >>= fun a => f a >>= g := by
  cases x <;> rfl

theorem bind_value_iff {x : Outcome E α} {f : α → Outcome E β} {b : β} :
    (x >>= f) = .value b ↔ ∃ a, x = .value a ∧ f a = .value b := by
  cases x <;> simp

theorem bind_fault_iff {x : Outcome E α} {f : α → Outcome E β} {e : E} :
    (x >>= f) = .fault e ↔ x = .fault e ∨ ∃ a, x = .value a ∧ f a = .fault e := by
  cases x <;> simp

/-- With enough fuel, this outcome. -/
def Ends (f : Nat → Outcome E α) (o : Outcome E α) : Prop := ∃ N, ∀ n, N ≤ n → f n = o

def Stable (f : Nat → Outcome E α) : Prop := ∀ n m, n ≤ m → f n ≠ .running → f m = f n

variable {f : Nat → Outcome E α} {g : α → Nat → Outcome E β} {o o' : Outcome E α}

theorem ends_const_iff : Ends (fun _ => o) o' ↔ o = o' := by
  constructor
  · rintro ⟨N, reached⟩
    exact reached N (Nat.le_refl N)
  · exact fun same => ⟨0, fun _ _ => same⟩

theorem Ends.unique (ended : Ends f o) (ended' : Ends f o') : o = o' := by
  obtain ⟨N, reached⟩ := ended
  obtain ⟨M, reached'⟩ := ended'
  exact (reached _ (Nat.le_max_left N M)).symm.trans (reached' _ (Nat.le_max_right N M))

/-- A first round that only costs fuel. -/
theorem ends_succ_iff {f' : Nat → Outcome E α} (round : ∀ n, f (n + 1) = f' n) :
    Ends f o ↔ Ends f' o := by
  constructor
  · rintro ⟨N, reached⟩
    exact ⟨N, fun n later => (round n).symm.trans (reached (n + 1) (Nat.le_succ_of_le later))⟩
  · rintro ⟨N, reached⟩
    refine ⟨N + 1, fun n later => ?_⟩
    obtain ⟨n, rfl⟩ := Nat.exists_eq_add_of_le' (Nat.le_trans (Nat.le_add_left 1 N) later)
    exact (round n).trans (reached n (Nat.le_of_succ_le_succ later))

theorem stable_const (o : Outcome E α) : Stable fun _ => o := fun _ _ _ _ => rfl

theorem Stable.ends (stable : Stable f) {n : Nat} (done : f n ≠ .running) : Ends f (f n) :=
  ⟨n, fun m later => stable n m later done⟩

theorem Stable.bind (first : Stable f) (second : ∀ a, Stable (g a)) :
    Stable fun n => f n >>= fun a => g a n := by
  intro n m le done
  simp only at done ⊢
  cases head : f n with
  | value a =>
    rw [head, value_bind] at done
    rw [first n m le (by simp [head]), head, value_bind, value_bind, second a n m le done]
  | fault e => rw [first n m le (by simp [head]), head, fault_bind, fault_bind]
  | running => simp [head] at done

theorem Stable.ite {c : Prop} [Decidable c] {f' : Nat → Outcome E α} (left : Stable f)
    (right : Stable f') : Stable fun n => if c then f n else f' n := by
  by_cases holds : c
  · simpa only [if_pos holds] using left
  · simpa only [if_neg holds] using right

theorem Stable.ends_value_iff (first : Stable f) (second : ∀ a, Stable (g a)) {b : β} :
    Ends (fun n => f n >>= fun a => g a n) (.value b) ↔
      ∃ a, Ends f (.value a) ∧ Ends (g a) (.value b) := by
  constructor
  · rintro ⟨N, reached⟩
    obtain ⟨a, head, tail⟩ := bind_value_iff.mp (reached N (Nat.le_refl N))
    refine ⟨a, ?_, ?_⟩
    · exact head ▸ first.ends (by simp [head])
    · exact tail ▸ (second a).ends (by simp [tail])
  · rintro ⟨a, ⟨N, head⟩, M, tail⟩
    refine ⟨max N M, fun n later => bind_value_iff.mpr ⟨a, ?_, ?_⟩⟩
    · exact head n (Nat.le_trans (Nat.le_max_left N M) later)
    · exact tail n (Nat.le_trans (Nat.le_max_right N M) later)

theorem Stable.ends_fault_iff (first : Stable f) (second : ∀ a, Stable (g a)) {e : E} :
    Ends (fun n => f n >>= fun a => g a n) (.fault e) ↔
      Ends f (.fault e) ∨ ∃ a, Ends f (.value a) ∧ Ends (g a) (.fault e) := by
  constructor
  · rintro ⟨N, reached⟩
    rcases bind_fault_iff.mp (reached N (Nat.le_refl N)) with head | ⟨a, head, tail⟩
    · exact .inl (head ▸ first.ends (by simp [head]))
    · refine .inr ⟨a, ?_, ?_⟩
      · exact head ▸ first.ends (by simp [head])
      · exact tail ▸ (second a).ends (by simp [tail])
  · rintro (⟨N, head⟩ | ⟨a, ⟨N, head⟩, M, tail⟩)
    · exact ⟨N, fun n later => bind_fault_iff.mpr (.inl (head n later))⟩
    · refine ⟨max N M, fun n later => bind_fault_iff.mpr (.inr ⟨a, ?_, ?_⟩)⟩
      · exact head n (Nat.le_trans (Nat.le_max_left N M) later)
      · exact tail n (Nat.le_trans (Nat.le_max_right N M) later)

/-- A first step that needs no fuel, and succeeds exactly under `c`. -/
theorem ends_step_iff {c : Prop} {a : α} {b : β} (good : c → o = .value a) (bad : ¬c → ∃ e, o = .fault e) :
    Ends (fun n => o >>= fun a => g a n) (.value b) ↔ c ∧ Ends (g a) (.value b) := by
  by_cases holds : c
  · simp only [good holds, value_bind, holds, true_and]
  · obtain ⟨e, fault⟩ := bad holds
    simp only [fault, fault_bind, ends_const_iff, reduceCtorEq, holds, false_and]

/-- A stable program never faults, at any fuel, iff it does not end in a fault. -/
theorem Stable.never_fault_iff (stable : Stable f) :
    (∀ n e, f n ≠ .fault e) ↔ ∀ e, ¬ Ends f (.fault e) := by
  constructor
  · rintro never e ⟨N, reached⟩
    exact never N e (reached N (Nat.le_refl N))
  · intro never n e now
    exact never e (now ▸ stable.ends (by simp [now]))

/-- No fault, every result meets `p`, and under `total` there is a result: partial
correctness where `total` is `False`, total correctness where it is `True`. -/
structure Meets (total : Prop) (f : Nat → Outcome E α) (p : α → Prop) : Prop where
  safe : ∀ e, ¬Ends f (.fault e)
  results : ∀ a, Ends f (.value a) → p a
  returns : total → ∃ a, Ends f (.value a)

/-- A result that meets `p`. -/
def Returns (f : Nat → Outcome E α) (p : α → Prop) : Prop := ∃ a, Ends f (.value a) ∧ p a

variable {p q : α → Prop} {r : β → Prop} {total : Prop}

theorem Stable.ends_iff (stable : Stable f) (ended : o ≠ .running) : Ends f o ↔ ∃ n, f n = o := by
  constructor
  · rintro ⟨N, reached⟩
    exact ⟨N, reached N (Nat.le_refl N)⟩
  · rintro ⟨n, rfl⟩
    exact stable.ends ended

theorem meets_value_iff {a : α} : Meets total (fun _ => (.value a : Outcome E α)) p ↔ p a := by
  constructor
  · exact fun meets => meets.results a (ends_const_iff.mpr rfl)
  · intro holds
    constructor
    · intro e ended
      cases ends_const_iff.mp ended
    · intro a' ended
      cases ends_const_iff.mp ended
      exact holds
    · exact fun _ => ⟨a, ends_const_iff.mpr rfl⟩

theorem not_meets_fault {e : E} : ¬Meets total (fun _ => (.fault e : Outcome E α)) p :=
  fun meets => meets.safe e (ends_const_iff.mpr rfl)

theorem returns_value_iff {a : α} : Returns (fun _ => (.value a : Outcome E α)) p ↔ p a := by
  simp only [Returns, ends_const_iff, value.injEq, exists_eq_left']

/-- What is asked of the results stands apart from how the program ends. -/
theorem meets_iff : Meets total f p ↔ Meets total f (fun _ => True) ∧ ∀ a, Ends f (.value a) → p a := by
  constructor
  · exact fun meets => ⟨⟨meets.safe, fun _ _ => trivial, meets.returns⟩, meets.results⟩
  · exact fun ⟨meets, results⟩ => ⟨meets.safe, results, meets.returns⟩

theorem returns_iff_meets : Returns f p ↔ Meets True f p := by
  constructor
  · rintro ⟨a, ended, holds⟩
    constructor
    · intro e fault
      cases fault.unique ended
    · intro a' ended'
      cases ended'.unique ended
      exact holds
    · exact fun _ => ⟨a, ended⟩
  · intro meets
    obtain ⟨a, ended⟩ := meets.returns trivial
    exact ⟨a, ended, meets.results a ended⟩

/-- A stable program never faults, at any fuel, iff it is partially correct. -/
theorem Stable.never_fault_iff_meets (stable : Stable f) :
    (∀ n e, f n ≠ .fault e) ↔ Meets False f fun _ => True := by
  rw [stable.never_fault_iff]
  exact ⟨fun safe => ⟨safe, fun _ _ => trivial, False.elim⟩, Meets.safe⟩

theorem Stable.meets_bind_iff (first : Stable f) (second : ∀ a, Stable (g a)) :
    Meets total (fun n => f n >>= fun a => g a n) r ↔ Meets total f fun a => Meets total (g a) r := by
  constructor
  · intro whole
    constructor
    · intro e ended
      exact whole.safe e ((first.ends_fault_iff second).mpr (.inl ended))
    · intro a head
      constructor
      · intro e tail
        exact whole.safe e ((first.ends_fault_iff second).mpr (.inr ⟨a, head, tail⟩))
      · intro b tail
        exact whole.results b ((first.ends_value_iff second).mpr ⟨a, head, tail⟩)
      · intro asked
        obtain ⟨b, ended⟩ := whole.returns asked
        obtain ⟨a', head', tail⟩ := (first.ends_value_iff second).mp ended
        cases head'.unique head
        exact ⟨b, tail⟩
    · intro asked
      obtain ⟨b, ended⟩ := whole.returns asked
      obtain ⟨a, head, -⟩ := (first.ends_value_iff second).mp ended
      exact ⟨a, head⟩
  · intro parts
    constructor
    · intro e ended
      obtain head | ⟨a, head, tail⟩ := (first.ends_fault_iff second).mp ended
      · exact parts.safe e head
      · exact (parts.results a head).safe e tail
    · intro b ended
      obtain ⟨a, head, tail⟩ := (first.ends_value_iff second).mp ended
      exact (parts.results a head).results b tail
    · intro asked
      obtain ⟨a, head⟩ := parts.returns asked
      obtain ⟨b, tail⟩ := (parts.results a head).returns asked
      exact ⟨b, (first.ends_value_iff second).mpr ⟨a, head, tail⟩⟩

theorem Stable.returns_bind_iff (first : Stable f) (second : ∀ a, Stable (g a)) :
    Returns (fun n => f n >>= fun a => g a n) r ↔ Returns f fun a => Returns (g a) r := by
  simp only [returns_iff_meets, first.meets_bind_iff second]

/-- A first step that succeeds exactly under `c`. -/
theorem meets_step_iff {c : Prop} {a : α} (good : c → o = .value a) (bad : ¬c → ∃ e, o = .fault e) :
    Meets total (fun n => o >>= fun a => g a n) r ↔ c ∧ Meets total (g a) r := by
  by_cases holds : c
  · simp only [good holds, value_bind, holds, true_and]
  · obtain ⟨e, fault⟩ := bad holds
    simp only [fault, fault_bind, not_meets_fault, holds, false_and]

end Outcome

/-- The result of a bind stays with more fuel when the results of both parts do. -/
theorem bind_some_mono {α β : Type} {x y : Option α} {f g : α → Option β} {result : β}
    (head : ∀ a, x = some a → y = some a) (tail : ∀ a b, f a = some b → g a = some b)
    (ended : (x >>= f) = some result) : (y >>= g) = some result := by
  obtain ⟨a, here, there⟩ := Option.bind_eq_some_iff.mp ended
  exact Option.bind_eq_some_iff.mpr ⟨a, head a here, tail a result there⟩

end Devent
