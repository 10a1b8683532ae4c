import Mathlib.Logic.Relation
import Mathlib.Data.Fintype.Card
import Mathlib.Order.WellFounded
import Mathlib.Data.Set.Finite.Basic

/-! Walks of a relation through finitely many places: they all end exactly when none
of them comes back to a place it has left. -/
namespace Devent.Walk
open Relation

variable {V : Type} {R : V → V → Prop} {v w : V}

/-- Every walk from here ends. -/
def Stops (R : V → V → Prop) (v : V) : Prop := Acc (fun later earlier => R earlier later) v

/-- Some walk from here comes back to a place. -/
def Revisits (R : V → V → Prop) (v : V) : Prop := ∃ w, ReflTransGen R v w ∧ TransGen R w w

theorem stops_of_end (stuck : ∀ w, ¬R v w) : Stops R v := Acc.intro v fun w move => absurd move (stuck w)

theorem Stops.next (stops : Stops R v) (move : R v w) : Stops R w := stops.inv move

theorem Stops.walk (stops : Stops R v) (walk : ReflTransGen R v w) : Stops R w := by
  induction walk with
  | refl => exact stops
  | tail _ move ih => exact ih.next move

theorem Stops.not_cycle (stops : Stops R v) : ¬TransGen R v v := by
  induction stops with
  | intro v _ ih =>
    intro cycle
    obtain ⟨w, move, back⟩ := TransGen.head'_iff.mp cycle
    exact ih w move (TransGen.tail' back move)

theorem stops_iff (finite : {w | ReflTransGen R v w}.Finite) : Stops R v ↔ ¬Revisits R v := by
  constructor
  · rintro stops ⟨w, walk, cycle⟩
    exact (stops.walk walk).not_cycle cycle
  · intro straight
    have : Finite {w | ReflTransGen R v w} := finite
    let Later (a b : {w | ReflTransGen R v w}) : Prop := TransGen R b a
    have : IsTrans _ Later := ⟨fun _ _ _ first second => second.trans first⟩
    have : Std.Irrefl Later := ⟨fun a cycle => straight ⟨a, a.property, cycle⟩⟩
    have wellFounded : WellFounded Later := Finite.wellFounded_of_trans_of_irrefl Later
    have all : ∀ a : {w | ReflTransGen R v w}, Stops R a.val := by
      intro a
      induction a using wellFounded.induction with
      | h a ih => exact Acc.intro a.val fun w move => ih ⟨w, a.property.tail move⟩ (TransGen.single move)
    exact all ⟨v, .refl⟩

end Devent.Walk
