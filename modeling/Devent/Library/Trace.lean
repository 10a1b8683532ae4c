import Mathlib.Data.List.Basic

/-! Order in a trace: what must have happened before an event, and what must not
happen after one. A trace grows at its end. -/
namespace Devent.Trace

variable {E : Type}

/-- Every event that needs it has a grant before it. -/
def Precedes (grants needs : E → Prop) (log : List E) : Prop :=
  ∀ before e after, log = before ++ e :: after → needs e → ∃ g ∈ before, grants g

/-- Nothing barred follows a stop. -/
def Excludes (stops barred : E → Prop) (log : List E) : Prop :=
  ∀ before e after, log = before ++ e :: after → stops e → ∀ e' ∈ after, ¬barred e'

variable {grants needs stops barred : E → Prop} {log more : List E}

theorem precedes_nil : Precedes grants needs ([] : List E) := by
  intro before e after split
  cases before <;> cases split

/-- Growth keeps the order when a grant is already there or none is needed. -/
theorem Precedes.append (precedes : Precedes grants needs log)
    (allowed : (∃ g ∈ log, grants g) ∨ ∀ e ∈ more, ¬needs e) : Precedes grants needs (log ++ more) := by
  intro before e after split needed
  obtain ⟨tail, rfl, later⟩ | ⟨tail, rfl, later⟩ := List.append_eq_append_iff.mp split
  · have member : e ∈ more := later ▸ List.mem_append_right tail List.mem_cons_self
    obtain ⟨g, granted, grant⟩ | none := allowed
    · exact ⟨g, List.mem_append_left tail granted, grant⟩
    · exact absurd needed (none e member)
  · cases tail with
    | nil =>
      have member : e ∈ more := by
        have same : more = e :: after := later.symm
        exact same ▸ List.mem_cons_self
      obtain ⟨g, granted, grant⟩ | none := allowed
      · exact ⟨g, by simpa using granted, grant⟩
      · exact absurd needed (none e member)
    | cons first rest =>
      obtain ⟨rfl, -⟩ := List.cons.inj later
      exact precedes before e rest rfl needed

theorem excludes_of_forall (none : ∀ e ∈ log, ¬stops e) : Excludes stops barred log := by
  intro before e after split stop
  have member : e ∈ log := split ▸ List.mem_append_right before List.mem_cons_self
  exact absurd stop (none e member)

end Devent.Trace
