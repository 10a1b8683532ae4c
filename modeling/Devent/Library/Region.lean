import Mathlib.Data.List.TakeDrop
import Mathlib.Data.List.TakeWhile

/-! Arrays that are stored to and loaded from by index. A slot is empty until something is
stored there; a copy that leaves an array, or that loads an empty slot, is an overrun. -/
namespace Devent

abbrev Region (α : Type) := List (Option α)

inductive Overrun where
  | load
  | store
  deriving DecidableEq

namespace Region

variable {α : Type}

def uninit (n : Nat) : Region α := List.replicate n none

/-- An array with everything stored. -/
def full (values : List α) : Region α := values.map some

def load (region : Region α) (i : Nat) : Nat → Except Overrun (List α)
  | 0 => .ok []
  | n + 1 =>
    match region[i]? with
    | some (some value) => do
      let rest ← load region (i + 1) n
      return value :: rest
    | _ => .error .load

def store (region : Region α) (i : Nat) (values : List α) : Except Overrun (Region α) :=
  if i + values.length ≤ region.length then
    .ok (region.take i ++ full values ++ region.drop (i + values.length))
  else .error .store

/-- `memcpy` from one array into another. -/
def copy (dest : Region α) (i : Nat) (source : Region α) (j n : Nat) : Except Overrun (Region α) := do
  let values ← source.load j n
  dest.store i values

/-- At most `n` values, up to one that stops; that one is loaded too. -/
def loadUntil (stops : α → Bool) (region : Region α) (i : Nat) : Nat → Except Overrun (List α)
  | 0 => .ok []
  | n + 1 =>
    match region[i]? with
    | some (some value) =>
      if stops value then .ok []
      else do
        let rest ← loadUntil stops region (i + 1) n
        return value :: rest
    | _ => .error .load

variable {region : Region α} {values : List α} {i n : Nat}

@[simp] theorem length_uninit (n : Nat) : (uninit n : Region α).length = n := List.length_replicate

@[simp] theorem length_full (values : List α) : (full values).length = values.length := List.length_map _

theorem getElem?_full (before : List α) (value : α) (values : List α) (rest : Region α) :
    (full before ++ (full (value :: values) ++ rest))[before.length]? = some (some value) := by
  rw [← length_full before, List.getElem?_append_right (Nat.le_refl _), Nat.sub_self]
  rfl

/-- The first value goes over to those before it. -/
theorem full_shift (before : List α) (value : α) (values : List α) (rest : Region α) :
    full before ++ (full (value :: values) ++ rest) = full (before ++ [value]) ++ (full values ++ rest) := by
  simp [full]

/-- What is loaded is what is there, whatever follows. -/
theorem load_full (before values : List α) (rest : Region α) :
    load (full before ++ (full values ++ rest)) before.length values.length = .ok values := by
  induction values generalizing before with
  | nil => rfl
  | cons value values ih =>
    have next := ih (before ++ [value])
    rw [← full_shift, List.length_append, List.length_singleton] at next
    simp only [List.length_cons, load, getElem?_full, next]
    rfl

theorem load_take {values : List α} (fits : n ≤ values.length) :
    load (full values) 0 n = .ok (values.take n) := by
  have split : full values = full [] ++ (full (values.take n) ++ full (values.drop n)) := by
    simp only [full, List.map_nil, List.nil_append, ← List.map_append, List.take_append_drop]
  have width : (values.take n).length = n := by
    rw [List.length_take]
    exact Nat.min_eq_left fits
  have loaded := load_full [] (values.take n) (full (values.drop n))
  rw [← split, width] at loaded
  exact loaded

/-- A load that runs past the end of what is stored. -/
theorem load_short (i : Nat) (short : values.length < i + n) (positive : i ≤ values.length) :
    load (full values) i n = .error .load := by
  induction n generalizing i with
  | zero => omega
  | succ n ih =>
    obtain inside | ended := Nat.lt_or_ge i values.length
    · have here : (full values)[i]? = some (some values[i]) := by
        simp [full, List.getElem?_eq_getElem inside]
      have later := ih (i + 1) (by omega) inside
      simp only [load, here, later]
      rfl
    · have beyond : (full values)[i]? = none := by
        rw [List.getElem?_eq_none_iff, length_full]
        exact ended
      simp only [load, beyond]

theorem store_fits (fits : i + values.length ≤ region.length) : store region i values =
    .ok (region.take i ++ full values ++ region.drop (i + values.length)) := if_pos fits

theorem store_overruns (beyond : region.length < i + values.length) :
    store region i values = .error .store := if_neg (Nat.not_le.mpr beyond)

/-- A store inside an array keeps its size, and is there behind it. -/
theorem store_inside (region : Region α) (i : Nat) (values : List α) (fits : i + values.length ≤ region.length) :
    ∃ region', store region i values = .ok region' ∧ region'.length = region.length ∧
      ∀ value ∈ values.head?, region'[i]? = some (some value) := by
  refine ⟨_, store_fits fits, ?_, fun value head => ?_⟩
  · simp only [List.length_append, List.length_take, List.length_drop, length_full]
    omega
  · obtain ⟨rest, rfl⟩ := List.head?_eq_some_iff.mp head
    have front : (region.take i).length = i := by
      rw [List.length_take]
      omega
    rw [List.append_assoc, List.getElem?_append_right (by rw [front]), front, Nat.sub_self]
    rfl

/-- A store at the front of an empty array. -/
theorem store_uninit (fits : values.length ≤ n) :
    store (uninit n) 0 values = .ok (full values ++ uninit (n - values.length)) := by
  have room : 0 + values.length ≤ (uninit n : Region α).length := by
    rw [length_uninit, Nat.zero_add]
    exact fits
  rw [store_fits room, List.take_zero, List.nil_append, Nat.zero_add, uninit, List.drop_replicate]
  rfl

theorem full_append (first second : List α) : full (first ++ second) = full first ++ full second :=
  List.map_append

theorem uninit_add (m n : Nat) : (uninit (m + n) : Region α) = uninit m ++ uninit n :=
  List.replicate_append_replicate.symm

/-- A store into the slots made for it. -/
theorem store_over (before : Region α) (values : List α) (after : Region α) {hole : Region α}
    (width : hole.length = values.length) :
    store (before ++ (hole ++ after)) before.length values = .ok (before ++ (full values ++ after)) := by
  have fits : before.length + values.length ≤ (before ++ (hole ++ after)).length := by
    rw [List.length_append, List.length_append, width]
    exact Nat.add_le_add_left (Nat.le_add_right ..) _
  have behind : (before ++ (hole ++ after)).drop (before.length + values.length) = after := by
    rw [← width, ← List.append_assoc, ← List.length_append, List.drop_left]
  rw [store_fits fits, List.take_left, behind, List.append_assoc]

/-- An array filled from its front to its end. -/
theorem store_whole (width : values.length = n) : store (uninit n) 0 values = .ok (full values) := by
  rw [store_uninit (Nat.le_of_eq width), width, Nat.sub_self]
  simp only [uninit, List.replicate_zero, List.append_nil]

/-- Loading up to a stop, from values that are all there. -/
theorem loadUntil_full (stops : α → Bool) (before values : List α) (rest : Region α) :
    loadUntil stops (full before ++ (full values ++ rest)) before.length values.length =
      .ok (values.takeWhile fun value => !stops value) := by
  induction values generalizing before with
  | nil => rfl
  | cons value values ih =>
    have next := ih (before ++ [value])
    rw [← full_shift, List.length_append, List.length_singleton] at next
    simp only [List.length_cons, loadUntil, getElem?_full, next]
    by_cases stopped : stops value = true
    · simp [stopped]
    · rw [if_neg stopped, List.takeWhile_cons_of_pos (by simpa using stopped)]
      rfl

end Region

end Devent
