import Mathlib.Data.List.Flatten
import Mathlib.Tactic.Common

/-! A queue kept as a list of chunks. Draining and peeking cross chunk borders;
on the flattened queue they are `take` and `drop`. -/
namespace Devent.Chunks

variable {α : Type}

/-- Take from the front; the chunk that is only partly taken stays in place. -/
def drain : Nat → List (List α) → List α × List (List α)
  | _, [] => ([], [])
  | n, chunk :: rest =>
    if chunk.length > n then (chunk.take n, chunk.drop n :: rest)
    else (chunk ++ (drain (n - chunk.length) rest).1, (drain (n - chunk.length) rest).2)

def peek : Nat → List (List α) → List α
  | _, [] => []
  | n, chunk :: rest =>
    if chunk.length = 0 then peek n rest
    else if chunk.length ≥ n then chunk.take n
    else chunk ++ peek (n - chunk.length) rest

theorem drain_taken (n : Nat) (chunks : List (List α)) :
    (drain n chunks).1 = chunks.flatten.take n := by
  induction chunks generalizing n with
  | nil => simp [drain]
  | cons chunk rest ih =>
    rw [drain, List.flatten_cons, List.take_append]
    split
    · next part =>
      rw [Nat.sub_eq_zero_of_le (Nat.le_of_lt part), List.take_zero, List.append_nil]
    · next short =>
      have whole : chunk.take n = chunk := List.take_of_length_le (by omega)
      rw [ih, whole]

theorem drain_left (n : Nat) (chunks : List (List α)) :
    (drain n chunks).2.flatten = chunks.flatten.drop n := by
  induction chunks generalizing n with
  | nil => simp [drain]
  | cons chunk rest ih =>
    rw [drain, List.flatten_cons, List.drop_append]
    split
    · next part =>
      rw [List.flatten_cons, Nat.sub_eq_zero_of_le (Nat.le_of_lt part), List.drop_zero]
    · next short =>
      have gone : chunk.drop n = [] := List.drop_of_length_le (by omega)
      rw [ih, gone, List.nil_append]

theorem peek_eq (n : Nat) (chunks : List (List α)) : peek n chunks = chunks.flatten.take n := by
  induction chunks generalizing n with
  | nil => simp [peek]
  | cons chunk rest ih =>
    rw [peek, List.flatten_cons]
    split
    · next empty => rw [ih, List.eq_nil_of_length_eq_zero empty, List.nil_append]
    split
    · next enough => rw [List.take_append_of_le_length enough]
    · next short =>
      have whole : chunk.take n = chunk := List.take_of_length_le (by omega)
      rw [ih, List.take_append, whole]

/-- The lengths of the chunks when `n` items are cut to at most `size` each. -/
def cut (size n : Nat) : List Nat :=
  List.replicate (n / size) size ++ if 0 < n % size then [n % size] else []

theorem cut_short {size n : Nat} (positive : 0 < n) (short : n ≤ size) : cut size n = [n] := by
  obtain less | rfl := Nat.lt_or_eq_of_le short
  · simp [cut, Nat.mod_eq_of_lt less, Nat.div_eq_of_lt less, positive]
  · simp [cut, Nat.div_self positive]

theorem cut_long {size n : Nat} (positive : 0 < size) (long : size < n) :
    cut size n = size :: cut size (n - size) := by
  have fits := Nat.le_of_lt long
  rw [cut, Nat.div_eq_sub_div positive fits, Nat.mod_eq_sub_mod fits, List.replicate_succ]
  rfl

end Devent.Chunks
