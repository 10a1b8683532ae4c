import Mathlib.Data.List.Basic
import Mathlib.Data.List.Infix

/-! A stream between a writer and a reader: what was put in, and how much of it has been
taken out. It loses, repeats and reorders nothing, and the reader may cut it anywhere. -/
namespace Devent

structure Pipe (α : Type) where
  written : List α
  taken : Nat
  within : taken ≤ written.length

namespace Pipe

variable {α : Type}

def empty : Pipe α := ⟨[], 0, Nat.le_refl 0⟩

def heard (pipe : Pipe α) : List α := pipe.written.take pipe.taken

def flight (pipe : Pipe α) : List α := pipe.written.drop pipe.taken

def write (items : List α) (pipe : Pipe α) : Pipe α where
  written := pipe.written ++ items
  taken := pipe.taken
  within := by
    rw [List.length_append]
    exact Nat.le_trans pipe.within (Nat.le_add_right ..)

/-- The reader goes on by some items, as far as there are any. -/
def advance (n : Nat) (pipe : Pipe α) : Pipe α where
  written := pipe.written
  taken := min (pipe.taken + n) pipe.written.length
  within := Nat.min_le_right ..

variable (pipe : Pipe α) (items : List α)

theorem heard_append_flight : pipe.heard ++ pipe.flight = pipe.written := List.take_append_drop ..

theorem heard_isPrefix : pipe.heard <+: pipe.written := List.take_prefix ..

@[simp] theorem length_heard : pipe.heard.length = pipe.taken := by
  rw [heard, List.length_take]
  exact Nat.min_eq_left pipe.within

theorem length_flight : pipe.flight.length = pipe.written.length - pipe.taken := List.length_drop ..

@[simp] theorem written_write : (pipe.write items).written = pipe.written ++ items := rfl

@[simp] theorem taken_write : (pipe.write items).taken = pipe.taken := rfl

@[simp] theorem heard_write : (pipe.write items).heard = pipe.heard := List.take_append_of_le_length pipe.within

@[simp] theorem written_advance (n : Nat) : (pipe.advance n).written = pipe.written := rfl

/-- The reader hears the next items in flight. -/
theorem heard_advance (n : Nat) : (pipe.advance n).heard = pipe.heard ++ pipe.flight.take n := by
  have split : (pipe.advance n).heard = pipe.written.take (pipe.taken + n) := by
    have place : (pipe.advance n).taken = min (pipe.taken + n) pipe.written.length := rfl
    rw [heard, written_advance, place, List.take_eq_take_iff]
    omega
  rw [split, heard, flight, List.take_add]

theorem taken_advance {n : Nat} (there : n ≤ pipe.flight.length) : (pipe.advance n).taken = pipe.taken + n := by
  have room := pipe.within
  rw [length_flight] at there
  simp only [advance]
  omega

/-- What a pipe goes through: the writer puts something in, or the reader takes something out. -/
inductive Moves : Pipe α → Pipe α → Prop
  | write {pipe : Pipe α} (items : List α) : Moves pipe (pipe.write items)
  | advance {pipe : Pipe α} {n : Nat} (there : n ≤ pipe.flight.length) : Moves pipe (pipe.advance n)

theorem flight_nil_iff : pipe.flight = [] ↔ pipe.heard = pipe.written := by
  have whole := pipe.heard_append_flight
  constructor
  · intro none
    rw [none, List.append_nil] at whole
    exact whole
  · intro all
    rw [all] at whole
    exact List.append_right_eq_self.mp whole

end Pipe

end Devent
