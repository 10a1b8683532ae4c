import Mathlib.Data.List.InsertIdx
import Mathlib.Data.List.Pairwise
import Mathlib.Tactic.Common

/-! An allocated block of slots, uninitialised until written. Every access names
a slot of the block or is undefined. A block holds a sequence in its first slots;
the two shifting loops of array code insert into and erase from that sequence. -/
namespace Devent.Slots

variable {α : Type}

abbrev Block (α : Type) := List (Option α)

def malloc (α : Type) (cap : Nat) : Block α := List.replicate cap none

/-- Growing a block keeps its slots. -/
def realloc (block : Block α) (cap : Nat) : Block α :=
  block.take cap ++ List.replicate (cap - block.length) none

/-- Read an initialised slot. -/
def load (block : Block α) (i : Nat) : Option α := block[i]?.join

def store (block : Block α) (i : Nat) (a : α) : Option (Block α) :=
  if i < block.length then some (block.set i (some a)) else none

/-- Assign one slot to another, initialised or not. -/
def copy (block : Block α) (target source : Nat) : Option (Block α) := do
  let slot ← block[source]?
  if target < block.length then some (block.set target slot) else none

/-- `for (i = n - 1; i >= index; i--) a[i + 1] = a[i]`. -/
def shiftUp (index : Nat) : Nat → Block α → Option (Block α)
  | 0, block => some block
  | i + 1, block =>
    if i ≥ index then do
      let block ← copy block (i + 1) i
      shiftUp index i block
    else some block

/-- `for (i = first; i < stop; i++) a[i + 1] = a[i]`, with `rounds` to go. -/
def spreadUp (stop : Nat) : Nat → Nat → Block α → Option (Block α)
  | 0, i, block => if i < stop then none else some block
  | rounds + 1, i, block =>
    if i < stop then do
      let block ← copy block (i + 1) i
      spreadUp stop rounds (i + 1) block
    else some block

/-- `for (i = first; i < stop; i++) a[i] = a[i + shift]`, with `rounds` to go. -/
def shiftDown (shift stop : Nat) : Nat → Nat → Block α → Option (Block α)
  | 0, i, block => if i < stop then none else some block
  | rounds + 1, i, block =>
    if i < stop then do
      let block ← copy block i (i + shift)
      shiftDown shift stop rounds (i + 1) block
    else some block

/-- The first slots hold the sequence. -/
structure Holds (block : Block α) (xs : List α) : Prop where
  fits : xs.length ≤ block.length
  slot : ∀ i < xs.length, block[i]? = some xs[i]?

variable {block : Block α} {xs : List α}

theorem holds_nil (block : Block α) : Holds block [] := ⟨Nat.zero_le _, nofun⟩

theorem Holds.load (holds : Holds block xs) {i : Nat} (bound : i < xs.length) :
    load block i = some xs[i] := by
  rw [Slots.load, holds.slot i bound, Option.join_some, List.getElem?_eq_getElem bound]

theorem Holds.take (holds : Holds block xs) (n : Nat) : Holds block (xs.take n) := by
  refine ⟨Nat.le_trans (List.length_take_le' n xs) holds.fits, fun i bound => ?_⟩
  rw [List.length_take] at bound
  rw [holds.slot i (by omega), List.getElem?_take_of_lt (by omega)]

/-- Slots behind the sequence may be cut off. -/
theorem Holds.shrink (holds : Holds block xs) {n : Nat} (covers : xs.length ≤ n) : Holds (block.take n) xs := by
  refine ⟨?_, fun i bound => ?_⟩
  · rw [List.length_take]
    exact Nat.le_min.mpr ⟨covers, holds.fits⟩
  · rw [List.getElem?_take_of_lt (Nat.lt_of_lt_of_le bound covers), holds.slot i bound]

theorem length_realloc {cap : Nat} (grows : block.length ≤ cap) : (realloc block cap).length = cap := by
  simp only [realloc, List.length_append, List.length_take, List.length_replicate]
  omega

theorem Holds.realloc {cap : Nat} (holds : Holds block xs) (grows : block.length ≤ cap) :
    Holds (realloc block cap) xs := by
  refine ⟨?_, fun i bound => ?_⟩
  · rw [length_realloc grows]
    exact Nat.le_trans holds.fits grows
  have inside : i < block.length := Nat.lt_of_lt_of_le bound holds.fits
  rw [Slots.realloc, List.take_of_length_le grows, List.getElem?_append_left inside, holds.slot i bound]

theorem Holds.set (holds : Holds block xs) {i : Nat} (a : α) (bound : i < xs.length) :
    ∃ block', store block i a = some block' ∧ block'.length = block.length ∧ Holds block' (xs.set i a) := by
  have inside : i < block.length := Nat.lt_of_lt_of_le bound holds.fits
  refine ⟨_, if_pos inside, List.length_set, ⟨?_, fun j lt => ?_⟩⟩
  · rw [List.length_set, List.length_set]
    exact holds.fits
  · rw [List.length_set] at lt
    rw [List.getElem?_set, List.getElem?_set, if_pos inside, if_pos bound]
    split
    · rfl
    · exact holds.slot j lt

theorem copy_eq {target source : Nat} (inTarget : target < block.length) (inSource : source < block.length) :
    copy block target source = some (block.set target block[source]) := by
  simp only [copy, List.getElem?_eq_getElem inSource, Option.bind_eq_bind, Option.bind_some, if_pos inTarget]

/-- Slots above `index` receive their lower neighbour. -/
theorem shiftUp_spec (index : Nat) {n : Nat} (room : n < block.length) : ∃ block',
    shiftUp index n block = some block' ∧ block'.length = block.length ∧
    ∀ j, block'[j]? = if index < j ∧ j ≤ n then block[j - 1]? else block[j]? := by
  induction n generalizing block with
  | zero =>
    refine ⟨block, rfl, rfl, fun j => ?_⟩
    rw [if_neg (by omega)]
  | succ i ih =>
    rw [shiftUp]
    by_cases above : i ≥ index
    · have bound : i < block.length := Nat.lt_of_succ_lt room
      have copied := copy_eq room bound
      have bound' : i < (block.set (i + 1) block[i]).length := by
        rw [List.length_set]
        exact bound
      obtain ⟨block', shifted, length, slots⟩ := ih bound'
      rw [if_pos above, copied]
      refine ⟨block', shifted, length.trans List.length_set, fun j => ?_⟩
      rw [slots, List.getElem?_set, List.getElem?_set]
      have here := List.getElem?_eq_getElem bound
      by_cases last : j = i + 1
      · subst last
        rw [if_neg (by omega), if_pos rfl, if_pos room, if_pos (by omega)]
        exact here.symm
      · rw [if_neg (Ne.symm last)]
        by_cases moved : index < j ∧ j ≤ i
        · rw [if_pos moved, if_neg (show i + 1 ≠ j - 1 by omega),
            if_pos (show index < j ∧ j ≤ i + 1 by omega)]
        · rw [if_neg moved, if_neg (by omega)]
    · rw [if_neg above]
      refine ⟨block, rfl, rfl, fun j => ?_⟩
      rw [if_neg (by omega)]

/-- Slots from `i` on receive the slot `shift` above. -/
theorem shiftDown_spec {shift stop rounds i : Nat} (enough : stop ≤ i + rounds)
    (room : stop + shift ≤ block.length) : ∃ block',
    shiftDown shift stop rounds i block = some block' ∧ block'.length = block.length ∧
    ∀ j, block'[j]? = if i ≤ j ∧ j < stop then block[j + shift]? else block[j]? := by
  induction rounds generalizing i block with
  | zero =>
    refine ⟨block, if_neg (by omega), rfl, fun j => ?_⟩
    rw [if_neg (by omega)]
  | succ rounds ih =>
    rw [shiftDown]
    by_cases inside : i < stop
    · have bound : i + shift < block.length := by omega
      have target : i < block.length := by omega
      have copied := copy_eq target bound
      have enough' : stop ≤ i + 1 + rounds := by omega
      have room' : stop + shift ≤ (block.set i block[i + shift]).length := by
        rw [List.length_set]
        exact room
      obtain ⟨block', shifted, length, slots⟩ := ih enough' room'
      rw [if_pos inside, copied]
      refine ⟨block', shifted, length.trans List.length_set, fun j => ?_⟩
      rw [slots, List.getElem?_set, List.getElem?_set]
      by_cases here : j = i
      · subst here
        rw [if_neg (by omega), if_pos rfl, if_pos (by omega), if_pos (by omega),
          List.getElem?_eq_getElem bound]
      · rw [if_neg (Ne.symm here)]
        by_cases later : i + 1 ≤ j ∧ j < stop
        · rw [if_pos later, if_neg (show i ≠ j + shift by omega),
            if_pos (show i ≤ j ∧ j < stop by omega)]
        · rw [if_neg later, if_neg (by omega)]
    · rw [if_neg inside]
      refine ⟨block, rfl, rfl, fun j => ?_⟩
      rw [if_neg (by omega)]

/-- Slots above the first one, up to `stop`, receive its content. -/
theorem spreadUp_spec {stop rounds i : Nat} (enough : stop ≤ i + rounds) (room : stop < block.length) :
    ∃ block', spreadUp stop rounds i block = some block' ∧ block'.length = block.length ∧
      ∀ j, block'[j]? = if i < j ∧ j ≤ stop then block[i]? else block[j]? := by
  induction rounds generalizing i block with
  | zero =>
    refine ⟨block, if_neg (by omega), rfl, fun j => ?_⟩
    rw [if_neg (by omega)]
  | succ rounds ih =>
    rw [spreadUp]
    by_cases inside : i < stop
    · have bound : i < block.length := Nat.lt_trans inside room
      have target : i + 1 < block.length := by omega
      have enough' : stop ≤ i + 1 + rounds := by omega
      have room' : stop < (block.set (i + 1) block[i]).length := by
        rw [List.length_set]
        exact room
      obtain ⟨block', spread, length, slots⟩ := ih enough' room'
      rw [if_pos inside, copy_eq target bound]
      refine ⟨block', spread, length.trans List.length_set, fun j => ?_⟩
      have here : (block.set (i + 1) block[i])[i + 1]? = block[i]? := by
        rw [List.getElem?_set_self target, List.getElem?_eq_getElem bound]
      rw [slots, here]
      by_cases next : j = i + 1
      · subst next
        rw [if_neg (by omega), here, if_pos (by omega)]
      · rw [List.getElem?_set_ne (Ne.symm next)]
        by_cases later : i + 1 < j ∧ j ≤ stop
        · rw [if_pos later, if_pos (by omega)]
        · rw [if_neg later, if_neg (by omega)]
    · rw [if_neg inside]
      refine ⟨block, rfl, rfl, fun j => ?_⟩
      rw [if_neg (by omega)]

/-- Without room for the last copy. -/
theorem spreadUp_overruns {stop rounds i : Nat} (inside : i < stop) (full : block.length ≤ stop) :
    spreadUp stop rounds i block = none := by
  induction rounds generalizing i block with
  | zero => exact if_pos inside
  | succ rounds ih =>
    rw [spreadUp, if_pos inside]
    cases copied : copy block (i + 1) i with
    | none => rfl
    | some block' =>
      have same : block'.length = block.length ∧ i + 1 < block.length := by
        simp only [copy, Option.bind_eq_bind, Option.bind_eq_some_iff] at copied
        obtain ⟨slot, -, copied⟩ := copied
        split at copied
        · next target =>
          cases copied
          exact ⟨List.length_set, target⟩
        · cases copied
      exact ih (by omega) (by omega)

theorem insertIdx_eq {index : Nat} (a : α) (bound : index ≤ xs.length) :
    xs.insertIdx index a = xs.take index ++ a :: xs.drop index := by
  induction xs generalizing index with
  | nil =>
    obtain rfl : index = 0 := Nat.le_zero.mp bound
    rfl
  | cons x rest ih =>
    cases index with
    | zero => rfl
    | succ index =>
      rw [List.insertIdx_succ_cons, ih (Nat.le_of_succ_le_succ bound)]
      rfl

/-- Shift up and store: an insertion. -/
theorem Holds.insert {index : Nat} (holds : Holds block xs) (a : α) (bound : index ≤ xs.length)
    (room : xs.length < block.length) : ∃ shifted block',
    shiftUp index xs.length block = some shifted ∧ store shifted index a = some block' ∧
    block'.length = block.length ∧ Holds block' (xs.insertIdx index a) := by
  obtain ⟨shifted, up, length, slots⟩ := shiftUp_spec index room
  have inside : index < shifted.length := by omega
  refine ⟨shifted, _, up, if_pos inside, ?_, ⟨?_, fun j lt => ?_⟩⟩
  · rw [List.length_set, length]
  · rw [List.length_insertIdx, if_pos bound, List.length_set, length]
    exact room
  · rw [List.length_insertIdx, if_pos bound] at lt
    rw [List.getElem?_set, if_pos inside, List.getElem?_insertIdx, slots]
    by_cases here : index = j
    · subst here
      simp [bound]
    · rw [if_neg here]
      by_cases before : j < index
      · rw [if_neg (by omega), if_pos before, holds.slot j (by omega)]
      · rw [if_pos (by omega), if_neg before, if_neg (Ne.symm here), holds.slot (j - 1) (by omega)]

/-- Spreading moves at most one item, and is then an insertion. -/
theorem Holds.insert_spread {index : Nat} (holds : Holds block xs) (a : α) (bound : index ≤ xs.length)
    (last : xs.length ≤ index + 1) (room : xs.length < block.length) : ∃ spread block',
    spreadUp xs.length xs.length index block = some spread ∧ store spread index a = some block' ∧
    block'.length = block.length ∧ Holds block' (xs.insertIdx index a) := by
  obtain ⟨spread, up, length, slots⟩ := spreadUp_spec (i := index) (Nat.le_add_left _ _) room
  have inside : index < spread.length := by omega
  refine ⟨spread, _, up, if_pos inside, ?_, ⟨?_, fun j lt => ?_⟩⟩
  · rw [List.length_set, length]
  · rw [List.length_insertIdx, if_pos bound, List.length_set, length]
    exact room
  · rw [List.length_insertIdx, if_pos bound] at lt
    rw [List.getElem?_set, if_pos inside, List.getElem?_insertIdx, slots]
    by_cases here : index = j
    · subst here
      simp [bound]
    · rw [if_neg here]
      by_cases before : j < index
      · rw [if_neg (by omega), if_pos before, holds.slot j (by omega)]
      · obtain rfl : j = index + 1 := by omega
        rw [if_pos (by omega), if_neg before, if_neg (Ne.symm here), Nat.add_sub_cancel,
          holds.slot index (by omega)]

/-- With more to move, spreading repeats one item. -/
theorem Holds.spread_repeats {index : Nat} (holds : Holds block xs) (a : α)
    (more : index + 1 < xs.length) (room : xs.length < block.length) : ∃ spread block',
    spreadUp xs.length xs.length index block = some spread ∧ store spread index a = some block' ∧
    block'.length = block.length ∧ block'[index + 1]? = some xs[index]? ∧ block'[index + 2]? = some xs[index]? := by
  obtain ⟨spread, up, length, slots⟩ := spreadUp_spec (i := index) (Nat.le_add_left _ _) room
  have inside : index < spread.length := by omega
  have here := holds.slot index (by omega)
  refine ⟨spread, _, up, if_pos inside, ?_, ?_, ?_⟩
  · rw [List.length_set, length]
  · rw [List.getElem?_set_ne (by omega), slots, if_pos (by omega), here]
  · rw [List.getElem?_set_ne (by omega), slots, if_pos (by omega), here]

/-- A block holds one sequence of a length. -/
theorem Holds.unique {ys : List α} (holds : Holds block xs) (holds' : Holds block ys)
    (length : xs.length = ys.length) : xs = ys := by
  apply List.ext_getElem? fun i => ?_
  by_cases inside : i < xs.length
  · exact Option.some.inj ((holds.slot i inside).symm.trans (holds'.slot i (length ▸ inside)))
  · rw [List.getElem?_eq_none (by omega), List.getElem?_eq_none (by omega)]

/-- Shift down by one: an erasure, also when the loop goes on behind the sequence. -/
theorem Holds.erase_to {index stop rounds : Nat} (holds : Holds block xs) (bound : index < xs.length)
    (reaches : xs.length ≤ stop + 1) (enough : stop ≤ index + rounds) (room : stop + 1 ≤ block.length) :
    ∃ block', shiftDown 1 stop rounds index block = some block' ∧
      block'.length = block.length ∧ Holds block' (xs.eraseIdx index) := by
  obtain ⟨block', down, length, slots⟩ := shiftDown_spec enough room
  refine ⟨block', down, length, ⟨?_, fun j lt => ?_⟩⟩
  · rw [List.length_eraseIdx, if_pos bound]
    omega
  · rw [List.length_eraseIdx, if_pos bound] at lt
    rw [slots, List.getElem?_eraseIdx]
    by_cases before : j < index
    · rw [if_neg (by omega), if_pos before, holds.slot j (by omega)]
    · rw [if_pos (by omega), if_neg before, holds.slot (j + 1) (by omega)]

theorem Holds.erase {index : Nat} (holds : Holds block xs) (bound : index < xs.length) : ∃ block',
    shiftDown 1 (xs.length - 1) xs.length index block = some block' ∧
    block'.length = block.length ∧ Holds block' (xs.eraseIdx index) := by
  have fits := holds.fits
  exact holds.erase_to bound (by omega) (by omega) (by omega)

/-- Shift down by n from the bottom: the first n items are dropped. -/
theorem Holds.drop {n : Nat} (holds : Holds block xs) (bound : n ≤ xs.length) : ∃ block',
    shiftDown n (xs.length - n) xs.length 0 block = some block' ∧
    block'.length = block.length ∧ Holds block' (xs.drop n) := by
  have fits := holds.fits
  have enough : xs.length - n ≤ 0 + xs.length := by omega
  have room : xs.length - n + n ≤ block.length := by omega
  obtain ⟨block', down, length, slots⟩ := shiftDown_spec enough room
  refine ⟨block', down, length, ⟨?_, fun j lt => ?_⟩⟩
  · rw [List.length_drop]
    omega
  · rw [List.length_drop] at lt
    rw [slots, if_pos (by omega), List.getElem?_drop, holds.slot (j + n) (by omega), Nat.add_comm]

end Devent.Slots
