import Mathlib.Data.List.Basic

/-! Runs of a partial deterministic machine with outputs. A missing successor
is an undefined operation; a run is the sequence of all outputs. Invariants and
refinements are proved on one step and lifted to every finite run here. -/
namespace Devent.Run

variable {S T A R : Type}

def run (step : S → A → Option (S × R)) : S → List A → Option (S × List R)
  | s, [] => some (s, [])
  | s, a :: rest => do
    let (next, out) ← step s a
    let (last, outs) ← run step next rest
    return (last, out :: outs)

/-- A side condition that every step taken along a run meets. -/
def Along (step : S → A → Option (S × R)) (ok : S → A → Prop) : S → List A → Prop
  | _, [] => True
  | s, a :: rest => ok s a ∧ ∀ next out, step s a = some (next, out) → Along step ok next rest

variable {step : S → A → Option (S × R)}

/-- Side conditions are checked by executing the run. -/
instance decidableAlong {ok : S → A → Prop} [∀ s a, Decidable (ok s a)] :
    (s : S) → (as : List A) → Decidable (Along step ok s as)
  | _, [] => .isTrue trivial
  | s, a :: rest =>
    match taken : step s a with
    | none => decidable_of_iff (ok s a) (by simp [Along, taken])
    | some (next, _) =>
      have : Decidable (Along step ok next rest) := decidableAlong next rest
      decidable_of_iff (ok s a ∧ Along step ok next rest) (by simp [Along, taken])

theorem run_cons_iff {s last : S} {a : A} {rest : List A} {outs : List R} :
    run step s (a :: rest) = some (last, outs) ↔
      ∃ next out tail, step s a = some (next, out) ∧ run step next rest = some (last, tail) ∧
        outs = out :: tail := by
  simp only [run, Option.bind_eq_bind, Option.bind_eq_some_iff, Option.pure_def, Option.some.injEq,
    Prod.mk.injEq, Prod.exists]
  constructor
  · rintro ⟨next, out, head, last', tail, path, rfl, rfl⟩
    exact ⟨next, out, tail, head, path, rfl⟩
  · rintro ⟨next, out, tail, head, path, rfl⟩
    exact ⟨next, out, head, last, tail, path, rfl, rfl⟩

theorem run_append {s middle last : S} {first second : List A} {outs outs' : List R}
    (head : run step s first = some (middle, outs))
    (tail : run step middle second = some (last, outs')) :
    run step s (first ++ second) = some (last, outs ++ outs') := by
  induction first generalizing s outs with
  | nil =>
    simp only [run, Option.some.injEq, Prod.mk.injEq] at head
    obtain ⟨rfl, rfl⟩ := head
    simpa using tail
  | cons a rest ih =>
    obtain ⟨next, out, outs, taken, path, rfl⟩ := run_cons_iff.mp head
    exact run_cons_iff.mpr ⟨next, out, outs ++ outs', taken, ih path, rfl⟩

/-- A run passes through the state that any part of its inputs leads to. -/
theorem run_behind {s middle last : S} {first second : List A} {outs outs' : List R}
    (path : run step s (first ++ second) = some (last, outs'))
    (head : run step s first = some (middle, outs)) :
    ∃ tail, run step middle second = some (last, tail) := by
  induction first generalizing s outs outs' with
  | nil =>
    simp only [run, Option.some.injEq, Prod.mk.injEq] at head
    obtain ⟨rfl, -⟩ := head
    exact ⟨outs', path⟩
  | cons a rest ih =>
    obtain ⟨next, out, outs, taken, rest', rfl⟩ := run_cons_iff.mp head
    obtain ⟨next', out', outs', taken', path', rfl⟩ := run_cons_iff.mp path
    obtain ⟨rfl, -⟩ := Prod.mk.inj (Option.some.inj (taken.symm.trans taken'))
    exact ih path' rest'

theorem Along.before {ok : S → A → Prop} {s : S} {first second : List A}
    (along : Along step ok s (first ++ second)) : Along step ok s first := by
  induction first generalizing s with
  | nil => trivial
  | cons a rest ih => exact ⟨along.1, fun next out taken => ih (along.2 next out taken)⟩

theorem Along.behind {ok : S → A → Prop} {s middle : S} {first second : List A} {outs : List R}
    (along : Along step ok s (first ++ second)) (head : run step s first = some (middle, outs)) :
    Along step ok middle second := by
  induction first generalizing s outs with
  | nil =>
    simp only [run, Option.some.injEq, Prod.mk.injEq] at head
    obtain ⟨rfl, -⟩ := head
    exact along
  | cons a rest ih =>
    obtain ⟨next, out, outs, taken, rest', rfl⟩ := run_cons_iff.mp head
    exact ih (along.2 next out taken) rest'

/-- Every reachable state has an invariant that each admissible step keeps. -/
theorem run_along {P : S → Prop} {ok : S → A → Prop}
    (preserves : ∀ {s a next out}, P s → ok s a → step s a = some (next, out) → P next)
    {s last : S} {as : List A} {outs : List R} (initial : P s) (along : Along step ok s as)
    (path : run step s as = some (last, outs)) : P last := by
  induction as generalizing s outs with
  | nil =>
    simp only [run, Option.some.injEq, Prod.mk.injEq] at path
    exact path.1 ▸ initial
  | cons a rest ih =>
    obtain ⟨next, out, tail, taken, rest, rfl⟩ := run_cons_iff.mp path
    exact ih (preserves initial along.1 taken) (along.2 next out taken) rest

/-- A side condition that an invariant grants wherever another one is met. -/
theorem Along.weaken {P : S → Prop} {ok ok' : S → A → Prop} {s : S} {as : List A} (along : Along step ok s as)
    (preserves : ∀ {s a next out}, P s → ok s a → step s a = some (next, out) → P next)
    (gives : ∀ {s a}, P s → ok s a → ok' s a) (initial : P s) : Along step ok' s as := by
  induction as generalizing s with
  | nil => trivial
  | cons a rest ih =>
    exact ⟨gives initial along.1, fun next out taken =>
      ih (along.2 next out taken) (preserves initial along.1 taken)⟩

theorem along_congr {ok ok' : S → A → Prop} (same : ∀ s a, ok s a ↔ ok' s a) (s : S) (as : List A) :
    Along step ok s as ↔ Along step ok' s as := by
  have equal : ok = ok' := funext fun s => funext fun a => propext (same s a)
  rw [equal]

theorem along_true (s : S) (as : List A) : Along step (fun _ _ => True) s as := by
  induction as generalizing s with
  | nil => trivial
  | cons a rest ih => exact ⟨trivial, fun next _ _ => ih next⟩

theorem run_invariant {P : S → Prop}
    (preserves : ∀ {s a next out}, P s → step s a = some (next, out) → P next)
    {s last : S} {as : List A} {outs : List R} (initial : P s)
    (path : run step s as = some (last, outs)) : P last :=
  run_along (fun h _ taken => preserves h taken) initial (along_true s as) path

/-- Where a step outside the side condition breaks what the invariant grants, the states of a
run have it exactly along the side condition. -/
theorem states_iff_along {Inv Good : S → Prop} {ok : S → A → Prop} (good : ∀ {s}, Inv s → Good s)
    (keeps : ∀ {s a next out}, Inv s → ok s a → step s a = some (next, out) → Inv next)
    (breaks : ∀ {s a next out}, Inv s → Good next → step s a = some (next, out) → ok s a)
    {s last : S} {as : List A} {outs : List R} (initial : Inv s) (path : run step s as = some (last, outs)) :
    (∀ arrived, arrived <+: as → ∀ middle outs', run step s arrived = some (middle, outs') → Good middle) ↔
      Along step ok s as := by
  induction as generalizing s outs with
  | nil =>
    refine iff_of_true ?_ trivial
    intro arrived inside middle outs' head
    rw [List.prefix_nil.mp inside] at head
    cases head
    exact good initial
  | cons a rest ih =>
    obtain ⟨next, out, tail, taken, path', -⟩ := run_cons_iff.mp path
    constructor
    · intro all
      have single : run step s [a] = some (next, [out]) := run_cons_iff.mpr ⟨next, out, [], taken, rfl, rfl⟩
      have head : [a] <+: a :: rest := List.prefix_append [a] rest
      have accepted : ok s a := breaks initial (all [a] head next [out] single) taken
      refine ⟨accepted, fun next' out' taken' => ?_⟩
      cases taken.symm.trans taken'
      refine (ih (keeps initial accepted taken) path').mp fun arrived inside middle outs' path'' => ?_
      have longer : a :: arrived <+: a :: rest := List.cons_prefix_cons.mpr ⟨rfl, inside⟩
      exact all _ longer middle (out :: outs') (run_cons_iff.mpr ⟨next, out, outs', taken, path'', rfl⟩)
    · intro along arrived inside middle outs' head
      obtain ⟨others, same⟩ := inside
      exact good (run_along keeps initial (same.symm ▸ along).before head)

/-- The same for runs that may end early, where a step outside the side condition returns. -/
theorem all_states_iff_along {Inv Good : S → Prop} {ok : S → A → Prop} (good : ∀ {s}, Inv s → Good s)
    (keeps : ∀ {s a next out}, Inv s → ok s a → step s a = some (next, out) → Inv next)
    (breaks : ∀ {s a}, Inv s → ¬ok s a → ∃ next out, step s a = some (next, out) ∧ ¬Good next)
    {s : S} {as : List A} (initial : Inv s) :
    (∀ arrived, arrived <+: as → ∀ middle outs, run step s arrived = some (middle, outs) → Good middle) ↔
      Along step ok s as := by
  induction as generalizing s with
  | nil =>
    refine iff_of_true ?_ trivial
    intro arrived inside middle outs head
    rw [List.prefix_nil.mp inside] at head
    cases head
    exact good initial
  | cons a rest ih =>
    constructor
    · intro all
      have accepted : ok s a := by
        by_contra refused
        obtain ⟨next, out, taken, bad⟩ := breaks initial refused
        have single : run step s [a] = some (next, [out]) := run_cons_iff.mpr ⟨next, out, [], taken, rfl, rfl⟩
        exact bad (all [a] (List.prefix_append [a] rest) next [out] single)
      refine ⟨accepted, fun next out taken => ?_⟩
      refine (ih (keeps initial accepted taken)).mp fun arrived inside middle outs path => ?_
      have longer : a :: arrived <+: a :: rest := List.cons_prefix_cons.mpr ⟨rfl, inside⟩
      exact all _ longer middle (out :: outs) (run_cons_iff.mpr ⟨next, out, outs, taken, path, rfl⟩)
    · intro along arrived inside middle outs head
      obtain ⟨others, same⟩ := inside
      exact good (run_along keeps initial (same.symm ▸ along).before head)

/-- A prefix ends inside the first part, or goes on into the second. -/
theorem prefix_split {α : Type} {first second arrived : List α} (inside : arrived <+: first ++ second) :
    arrived.length < first.length ∨ ∃ rest, arrived = first ++ rest ∧ rest <+: second := by
  obtain short | long := Nat.lt_or_ge arrived.length first.length
  · exact .inl short
  · obtain ⟨rest, rfl⟩ := List.prefix_of_prefix_length_le (List.prefix_append first second) inside long
    exact .inr ⟨rest, rfl, (List.prefix_append_right_inj first).mp inside⟩

/-- A machine that is fed a stream in pieces: what each piece keeps between the state and the
items so far holds behind any cut. -/
theorem run_feeds {α : Type} {stream : List α} (items : A → List α) {Described : List α → S → Prop}
    {ok : A → Prop}
    (feeds : ∀ {sofar s a}, Described sofar s → ok a → sofar ++ items a <+: stream →
      ∃ next out, step s a = some (next, out) ∧ Described (sofar ++ items a) next)
    (as : List A) {s : S} {sofar : List α} (initial : Described sofar s) (all : ∀ a ∈ as, ok a)
    (inside : sofar ++ as.flatMap items <+: stream) :
    ∃ last outs, run step s as = some (last, outs) ∧ Described (sofar ++ as.flatMap items) last := by
  induction as generalizing s sofar with
  | nil =>
    rw [List.flatMap_nil, List.append_nil]
    exact ⟨s, [], rfl, initial⟩
  | cons a rest ih =>
    rw [List.flatMap_cons, ← List.append_assoc] at inside ⊢
    have here : sofar ++ items a <+: stream := (List.prefix_append _ _).trans inside
    obtain ⟨next, out, taken, described⟩ := feeds initial (all a List.mem_cons_self) here
    obtain ⟨last, outs, path, final⟩ :=
      ih described (fun a member => all a (List.mem_cons_of_mem _ member)) inside
    exact ⟨last, out :: outs, run_cons_iff.mpr ⟨next, out, outs, taken, path, rfl⟩, final⟩

/-- Forward simulation by an abstraction function, with equal outputs and equal
definedness, lifts from steps to runs. -/
theorem run_refines {step' : T → A → Option (T × R)} {P : S → Prop} (view : S → T)
    (preserves : ∀ {s a next out}, P s → step s a = some (next, out) → P next)
    (agrees : ∀ {s a}, P s → (step s a).map (fun (t, out) => (view t, out)) = step' (view s) a)
    {s : S} (initial : P s) (as : List A) :
    (run step s as).map (fun (t, outs) => (view t, outs)) = run step' (view s) as := by
  induction as generalizing s with
  | nil => rfl
  | cons a rest ih =>
    have here := agrees (a := a) initial
    cases taken : step s a with
    | none =>
      rw [taken] at here
      simp only [run, taken, ← here]
      rfl
    | some pair =>
      obtain ⟨next, out⟩ := pair
      have there := ih (preserves initial taken)
      rw [taken] at here
      simp only [run, taken, ← here, ← there, Option.bind_eq_bind, Option.bind_some, Option.map_some]
      cases run step next rest <;> rfl

/-- A total machine with outputs: the run of a specification. -/
def track (astep : T → A → T × R) : T → List A → T × List R
  | t, [] => (t, [])
  | t, a :: rest => ((track astep (astep t a).1 rest).1, (astep t a).2 :: (track astep (astep t a).1 rest).2)

/-- Simulation of a total specification along every run that is defined and
meets the side condition. -/
theorem run_simulates (Rel : S → T → Prop) (astep : T → A → T × R) {ok : S → A → Prop}
    (simulates : ∀ {s t a next out}, Rel s t → ok s a → step s a = some (next, out) →
      Rel next (astep t a).1 ∧ out = (astep t a).2)
    {s last : S} {t : T} {as : List A} {outs : List R} (initial : Rel s t)
    (along : Along step ok s as) (path : run step s as = some (last, outs)) :
    Rel last (track astep t as).1 ∧ outs = (track astep t as).2 := by
  induction as generalizing s t outs with
  | nil =>
    simp only [run, Option.some.injEq, Prod.mk.injEq] at path
    obtain ⟨rfl, rfl⟩ := path
    exact ⟨initial, rfl⟩
  | cons a rest ih =>
    obtain ⟨next, out, tail, taken, rest, rfl⟩ := run_cons_iff.mp path
    obtain ⟨related, rfl⟩ := simulates initial along.1 taken
    obtain ⟨final, rfl⟩ := ih related (along.2 _ _ taken) rest
    exact ⟨final, rfl⟩

/-- Simulation of a total specification that also keeps every step defined. -/
theorem run_simulates_total (Rel : S → T → Prop) (astep : T → A → T × R) {ok : S → A → Prop}
    (simulates : ∀ {s t a}, Rel s t → ok s a →
      ∃ next, step s a = some (next, (astep t a).2) ∧ Rel next (astep t a).1)
    {s : S} {t : T} {as : List A} (initial : Rel s t) (along : Along step ok s as) :
    ∃ last, run step s as = some (last, (track astep t as).2) ∧ Rel last (track astep t as).1 := by
  induction as generalizing s t with
  | nil => exact ⟨s, rfl, initial⟩
  | cons a rest ih =>
    obtain ⟨next, taken, related⟩ := simulates initial along.1
    obtain ⟨last, path, final⟩ := ih related (along.2 _ _ taken)
    exact ⟨last, run_cons_iff.mpr ⟨next, _, _, taken, path, rfl⟩, final⟩

/-- A machine answers as a total specification and stays as good in every state of a run,
exactly along the side condition, if a step outside it does not. -/
theorem answers_iff_along {Rel Good : S → T → Prop} {astep : T → A → T × R} {ok : S → A → Prop}
    (good : ∀ {s t}, Rel s t → Good s t)
    (keeps : ∀ {s t a}, Rel s t → ok s a →
      ∃ next, step s a = some (next, (astep t a).2) ∧ Rel next (astep t a).1)
    (breaks : ∀ {s t a}, Rel s t → ¬ok s a → ∀ next, step s a = some (next, (astep t a).2) →
      ¬Good next (astep t a).1)
    {s : S} {t : T} (initial : Rel s t) (as : List A) :
    (∀ arrived, arrived <+: as → ∃ last, run step s arrived = some (last, (track astep t arrived).2) ∧
      Good last (track astep t arrived).1) ↔ Along step ok s as := by
  induction as generalizing s t with
  | nil =>
    refine iff_of_true (fun arrived inside => ?_) trivial
    rw [List.prefix_nil.mp inside]
    exact ⟨s, rfl, good initial⟩
  | cons a rest ih =>
    constructor
    · intro all
      have head : [a] <+: a :: rest := List.prefix_append [a] rest
      obtain ⟨last, path, stays⟩ := all [a] head
      obtain ⟨next, out, tail, taken, ended, same⟩ := run_cons_iff.mp path
      cases ended
      obtain ⟨rfl, -⟩ := List.cons.inj same
      have accepted : ok s a := by
        by_contra refused
        exact breaks initial refused last taken stays
      refine ⟨accepted, fun next' out' taken' => ?_⟩
      obtain ⟨next, taken, related⟩ := keeps initial accepted
      cases taken.symm.trans taken'
      refine (ih related).mp fun arrived inside => ?_
      obtain ⟨last, path, stays⟩ := all (a :: arrived) (List.cons_prefix_cons.mpr ⟨rfl, inside⟩)
      obtain ⟨next', out', tail, taken', path', same⟩ := run_cons_iff.mp path
      cases taken.symm.trans taken'
      obtain ⟨-, rfl⟩ := List.cons.inj same
      exact ⟨last, path', stays⟩
    · rintro ⟨accepted, along⟩ arrived inside
      cases arrived with
      | nil => exact ⟨s, rfl, good initial⟩
      | cons first arrived =>
        obtain ⟨rfl, within⟩ := List.cons_prefix_cons.mp inside
        obtain ⟨next, taken, related⟩ := keeps initial accepted
        obtain ⟨last, path, stays⟩ := (ih related).mpr (along _ _ taken) arrived within
        exact ⟨last, run_cons_iff.mpr ⟨next, _, _, taken, path, rfl⟩, stays⟩

end Devent.Run
