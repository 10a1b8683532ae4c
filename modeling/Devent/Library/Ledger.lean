import Devent.Library.Run
import Mathlib.Algebra.BigOperators.Group.Multiset.Basic
import Mathlib.Data.Multiset.OrderedMonoid

/-! What becomes of the items that a machine is given. A step holds them, hands them back or loses
them; over a run nothing is lost exactly as long as no step loses anything, and nothing ever comes
back twice. -/
namespace Devent.Ledger
open Run

variable {S A R V : Type} {step : S → A → Option (S × R)}

/-- The books of a step, or of a run: what is lost, and whether that is nothing. -/
def Books (before after given back : Multiset V) (ok : Prop) : Prop :=
  ∃ lost, before + given = after + back + lost ∧ (lost = 0 ↔ ok)

variable {before middle after first second out out' : Multiset V} {ok ok' : Prop}

theorem Books.balanced (same : before + first = after + out) (kept : ok) : Books before after first out ok :=
  ⟨0, by rw [add_zero, same], iff_of_true rfl kept⟩

theorem Books.trans (head : Books before middle first out ok) (tail : Books middle after second out' ok') :
    Books before after (first + second) (out + out') (ok ∧ ok') := by
  obtain ⟨lost, same, exact⟩ := head
  obtain ⟨lost', same', exact'⟩ := tail
  refine ⟨lost + lost', ?_, ?_⟩
  · calc before + (first + second) = middle + out + lost + second := by rw [← add_assoc, same]
      _ = (middle + second) + (out + lost) := by
        rw [add_assoc middle, add_right_comm]
      _ = after + out' + lost' + (out + lost) := by rw [same']
      _ = after + (out + out') + (lost + lost') := by
        rw [add_comm out out', add_comm lost lost', ← add_assoc after, add_add_add_comm, add_assoc (after + out'),
          add_add_add_comm]
  · rw [← exact, ← exact', add_eq_zero]

/-- The books of a run are those of its steps. -/
theorem run_books (held : S → Multiset V) (given : A → Multiset V) (back : R → Multiset V)
    {Inv : S → Prop} {ok : S → A → Prop}
    (preserves : ∀ {s a next out}, Inv s → step s a = some (next, out) → Inv next)
    (books : ∀ {s a next out}, Inv s → step s a = some (next, out) →
      Books (held s) (held next) (given a) (back out) (ok s a))
    {s last : S} {as : List A} {outs : List R} (initial : Inv s) (path : run step s as = some (last, outs)) :
    Books (held s) (held last) (as.map given).sum (outs.map back).sum (Along step ok s as) := by
  induction as generalizing s outs with
  | nil =>
    cases path
    exact .balanced rfl trivial
  | cons a rest ih =>
    obtain ⟨next, out, tail, taken, onward, rfl⟩ := run_cons_iff.mp path
    obtain ⟨lost, same, exact⟩ := (books initial taken).trans (ih (preserves initial taken) onward)
    have along : Along step ok s (a :: rest) ↔ ok s a ∧ Along step ok next rest := by
      refine and_congr_right fun _ => ⟨fun later => later next out taken, fun later next' out' taken' => ?_⟩
      obtain ⟨rfl, -⟩ := Prod.mk.inj (Option.some.inj (taken.symm.trans taken'))
      exact later
    refine ⟨lost, ?_, exact.trans along.symm⟩
    rw [List.map_cons, List.sum_cons, List.map_cons, List.sum_cons]
    exact same

theorem Books.le (books : Books before after first out ok) : after + out ≤ before + first := by
  obtain ⟨lost, same, -⟩ := books
  rw [same]
  exact Multiset.le_add_right ..

theorem Books.exact_iff (books : Books before after first out ok) : before + first = after + out ↔ ok := by
  obtain ⟨lost, same, exact⟩ := books
  rw [same, ← exact]
  exact add_eq_left

end Devent.Ledger
