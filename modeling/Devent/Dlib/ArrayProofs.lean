import Devent.Dlib.Array
import Devent.Library.Run

/-! `Array` against sequences of pointers. The block has the bytes of one pointer, so only the first
element finds room; all else that goes wrong in growing and shifting lies behind that overrun. -/
namespace Devent.CArray

/-- Sequences, with what the calls return. -/
def seqStep (items : List Pointer) : Op → List Pointer × Int
  | .add value => (items ++ [value], items.length)
  | .insert index value =>
    if index < 0 then (items, -1)
    else (items.insertIdx (min index.toNat items.length) value, min index items.length)
  | .remove index => if index < 0 ∨ index ≥ items.length then (items, -1) else (items.eraseIdx index.toNat, 0)
  | .removeByValue value => (items.erase value, 0)
  | .clear => ([], 0)

def seqGet (items : List Pointer) (index : Int) : UInt64 :=
  if index < 0 then 0 else (items[index.toNat]?.map Subtype.val).getD 0

/-- The elements are there, in a block that is still allocated. -/
structure Meets (array : CArray) (items : List Pointer) : Prop where
  allocated : array.freed = false
  len : array.len = items.length
  elements : ∀ index, array.get index = some (seqGet items index)

/-- The size that the capacity promises. -/
def Sized (array : CArray) : Prop := pointerSize * array.cap ≤ array.array.length

def Adds : Op → Prop
  | .add _ => True
  | .insert index _ => 0 ≤ index
  | _ => False

instance : DecidablePred Adds
  | .add _ => .isTrue trivial
  | .insert index _ => inferInstanceAs (Decidable (0 ≤ index))
  | .remove _ | .removeByValue _ | .clear => .isFalse id

/-- A full array grows before it takes an element. -/
def Grows (array : CArray) (op : Op) : Prop :=
  Adds op → array.len = array.cap → ∀ next out, array.step op = some (next, out) → array.cap < next.cap

/-- Runs answer as sequences, and growing grows. -/
structure Refines (ops : List Op) : Prop where
  answers : ∀ arrived, arrived <+: ops → ∃ last,
    Run.run step init arrived = some (last, (Run.track seqStep [] arrived).2) ∧
      Meets last (Run.track seqStep [] arrived).1
  grows : Run.Along step Grows init ops

/-- And blocks have the size that the capacity promises. -/
def Correct (ops : List Op) : Prop :=
  Refines ops ∧ ∀ arrived, arrived <+: ops → ∀ last outs, Run.run step init arrived = some (last, outs) → Sized last

/-- An element is only added to an empty array. -/
def FindsEmpty (array : CArray) (op : Op) : Prop := Adds op → array.len = 0

instance (array : CArray) (op : Op) : Decidable (FindsEmpty array op) := inferInstanceAs (Decidable (_ → _))

variable {array : CArray} {value : Pointer}

/-- An array that holds one pointer, or none. -/
def holding (value : Pointer) : CArray := ⟨1, 8, Region.full (littleEndian pointerSize value.val.toNat), false⟩

/-- What is left of it when the pointer is removed. -/
def emptied : CArray := ⟨0, 8, Region.full (littleEndian pointerSize 0), false⟩

structure Empty (array : CArray) : Prop where
  len : array.len = 0
  cap : array.cap = 8
  width : array.array.length = pointerSize
  allocated : array.freed = false

inductive Represents (array : CArray) : List Pointer → Prop where
  | empty (empty : Empty array) : Represents array []
  | one (value : Pointer) (same : array = holding value) : Represents array [value]

theorem init_empty : Empty init := ⟨rfl, rfl, rfl, rfl⟩

theorem emptied_empty : Empty emptied := ⟨rfl, rfl, rfl, rfl⟩

theorem word_bytes (value : UInt64) :
    UInt64.ofNat (ofLittleEndian (littleEndian pointerSize value.toNat)) = value := by
  have bound : value.toNat < 256 ^ pointerSize := value.toNat_lt
  rw [ofLittleEndian_littleEndian, Nat.mod_eq_of_lt bound, UInt64.ofNat_toNat]

/-- The first slot is the whole block. -/
theorem store_first (allocated : array.freed = false) (width : array.array.length = pointerSize) (value : UInt64) :
    array.store 0 value = some { array with array := Region.full (littleEndian pointerSize value.toNat) } := by
  have fits : pointerSize * 0 + (littleEndian pointerSize value.toNat).length ≤ array.array.length := by
    rw [length_littleEndian, width]
    exact Nat.le_refl _
  have behind : array.array.drop (pointerSize * 0 + pointerSize) = [] := List.drop_eq_nil_of_le (Nat.le_of_eq width)
  rw [store, allocated, Region.store_fits fits, length_littleEndian, behind]
  simp only [Nat.mul_zero, List.take_zero, List.nil_append, List.append_nil]
  rfl

theorem store_second (width : array.array.length = pointerSize) (value : UInt64) : array.store 1 value = none := by
  have beyond : array.array.length < pointerSize * 1 + (littleEndian pointerSize value.toNat).length := by
    rw [length_littleEndian, width]
    decide
  rw [store, Region.store_overruns beyond]
  exact ite_self _

theorem load_first (value : Pointer) : (holding value).load 0 = some value.val := by
  have loaded := Region.load_full [] (littleEndian pointerSize value.val.toNat) []
  rw [length_littleEndian] at loaded
  simp only [Region.full, List.map_nil, List.nil_append, List.append_nil, List.length_nil] at loaded
  simp only [load, holding, Nat.mul_zero, Region.full, loaded, Except.toOption, Option.bind_eq_bind, Option.bind_some,
    word_bytes]
  rfl

/-- Below its capacity nothing grows. -/
theorem updateArrayCap_spare (spare : array.len ≠ array.cap) : array.updateArrayCap = some array := if_neg spare

theorem Represents.spare {items : List Pointer} (rep : Represents array items) : array.len ≠ array.cap := by
  cases rep with
  | empty empty =>
    rw [empty.len, empty.cap]
    decide
  | one value same =>
    subst same
    show 1 ≠ 8
    decide

theorem holding_store_null (value : Pointer) :
    (holding value).store 0 0 = some { holding value with array := Region.full (littleEndian pointerSize 0) } :=
  store_first rfl ((Region.length_full _).trans (length_littleEndian _ _)) 0

theorem add_empty (empty : Empty array) (value : Pointer) : array.add value = some (holding value, 0) := by
  have stored := store_first empty.allocated empty.width value.val
  rw [add, updateArrayCap_spare (Represents.empty empty).spare]
  simp only [Option.bind_eq_bind, Option.bind_some, empty.len, stored, empty.cap, empty.allocated]
  rfl

theorem add_holding (held value : Pointer) : (holding held).add value = none := by
  have width : (holding held).array.length = pointerSize := (Region.length_full _).trans (length_littleEndian _ _)
  have beyond := store_second width value.val
  have spare : (holding held).len ≠ (holding held).cap := (Represents.one held rfl).spare
  rw [add, updateArrayCap_spare spare]
  simp only [Option.bind_eq_bind, Option.bind_some]
  rw [show (holding held).len = 1 from rfl, beyond]
  rfl

theorem insert_negative (spare : array.len ≠ array.cap) {index : Int} (negative : index < 0) (value : Pointer) :
    array.insert index value = some (array, -1) := by
  have kept : (if index > array.len then (array.len : Int) else index) = index := if_neg (by omega)
  rw [insert, updateArrayCap_spare spare]
  simp only [Option.bind_eq_bind, Option.bind_some, kept, if_pos negative]

theorem insert_behind (spare : array.len ≠ array.cap) {index : Int} (behind : array.len ≤ index) (value : Pointer) :
    array.insert index value = array.add value := by
  have last : (if index > array.len then (array.len : Int) else index) = array.len := by
    split <;> omega
  have inside : ¬(array.len : Int) < 0 := by omega
  rw [insert, updateArrayCap_spare spare]
  simp only [Option.bind_eq_bind, Option.bind_some, last, if_neg inside, if_true]

/-- The copy of one byte already leaves the block. -/
theorem insert_front (held value : Pointer) : (holding held).insert 0 value = none := by
  have width : (Region.full (littleEndian pointerSize held.val.toNat)).length = pointerSize :=
    (Region.length_full _).trans (length_littleEndian _ _)
  have loaded : Region.load (Region.full (littleEndian pointerSize held.val.toNat)) 0 1 =
      .ok ((littleEndian pointerSize held.val.toNat).take 1) := by
    apply Region.load_take
    rw [length_littleEndian]
    decide
  have beyond : (Region.full (littleEndian pointerSize held.val.toNat)).length <
      pointerSize * 1 + ((littleEndian pointerSize held.val.toNat).take 1).length := by
    rw [width, List.length_take, length_littleEndian]
    decide
  have moved : (holding held).memcpy 1 0 1 = none := by
    have overruns := Region.store_overruns beyond
    simp only [memcpy, holding, Region.copy, Nat.mul_zero, loaded]
    simp only [bind, Except.bind, overruns]
    rfl
  have spare : (holding held).len ≠ (holding held).cap := (Represents.one held rfl).spare
  have one : (holding held).len = 1 := rfl
  have kept : ¬(0 : Int) > (1 : Nat) := by decide
  have front : ¬(0 : Int) = (1 : Nat) := by decide
  rw [insert, updateArrayCap_spare spare]
  simp only [Option.bind_eq_bind, Option.bind_some, one, if_neg kept, if_neg (Int.lt_irrefl 0), if_neg front,
    Int.toNat_zero, Nat.zero_add, Nat.sub_zero, moved, Option.bind_none]

theorem remove_outside {index : Int} (outside : index < 0 ∨ index ≥ array.len) :
    array.remove index = some (array, -1) := if_pos outside

theorem remove_holding (held : Pointer) : ∃ next, (holding held).remove 0 = some (next, 0) ∧ Empty next := by
  have inside : ¬((0 : Int) < 0 ∨ (0 : Int) ≥ (holding held).len) := by
    show ¬((0 : Int) < 0 ∨ (0 : Int) ≥ (1 : Nat))
    decide
  refine ⟨emptied, ?_, emptied_empty⟩
  rw [remove, if_neg inside]
  simp only [Option.bind_eq_bind, Int.toNat_zero, load_first, Option.bind_some, holding_store_null]
  rfl

theorem clear_empty (empty : Empty array) : array.clear = some (array, 0) := by
  obtain ⟨len, cap, block, freed⟩ := array
  obtain ⟨rfl, -, -, -⟩ := empty
  rfl

theorem clear_holding (held : Pointer) : ∃ next, (holding held).clear = some (next, 0) ∧ Empty next := by
  have more : 0 < (holding held).len := Nat.one_pos
  have one : (holding held).len = 1 := rfl
  refine ⟨emptied, ?_, emptied_empty⟩
  rw [clear, one]
  simp only [clearLoop, if_pos more, Option.bind_eq_bind, load_first, Option.bind_some, holding_store_null]
  rfl

theorem findValue_holding (held value : Pointer) :
    (holding held).findValue value.val 1 0 = some (if held = value then 0 else -1) := by
  have more : 0 < (holding held).len := Nat.one_pos
  have done : ¬0 + 1 < (holding held).len := Nat.lt_irrefl 1
  simp only [findValue, if_pos more, if_neg done, Option.bind_eq_bind, load_first, Option.bind_some,
    Subtype.ext_iff]
  by_cases here : held.val = value.val
  · rw [if_pos here, if_pos here]
    rfl
  · rw [if_neg here, if_neg here]

theorem removeByValue_empty (empty : Empty array) (value : Pointer) :
    array.removeByValue value.val = some (array, 0) := by
  obtain ⟨len, cap, block, freed⟩ := array
  obtain ⟨rfl, -, -, -⟩ := empty
  rw [removeByValue, if_neg value.property]
  rfl

theorem removeByValue_holding (held value : Pointer) : ∃ next,
    (holding held).removeByValue value.val = some (next, 0) ∧ Represents next ([held].erase value) := by
  have searched : (holding held).findValue value.val (holding held).len 0 = _ := findValue_holding held value
  rw [removeByValue, if_neg value.property, searched]
  by_cases here : held = value
  · subst here
    obtain ⟨next, removed, empty⟩ := remove_holding held
    rw [List.erase_cons_head]
    simp only [if_true, Option.bind_eq_bind, Option.bind_some, removed]
    exact ⟨next, rfl, .empty empty⟩
  · rw [if_neg here, List.erase_cons_tail (fun same => here (beq_iff_eq.mp same))]
    exact ⟨holding held, rfl, .one held rfl⟩

variable {items : List Pointer} {op : Op}

theorem Represents.meets (rep : Represents array items) : Meets array items := by
  cases rep with
  | empty empty =>
    refine ⟨empty.allocated, empty.len, fun index => ?_⟩
    rw [get, if_pos (by rw [empty.len]; omega), seqGet]
    split <;> rfl
  | one value same =>
    subst same
    refine ⟨rfl, rfl, fun index => ?_⟩
    rw [get, seqGet]
    have one : (holding value).len = 1 := rfl
    obtain negative | rfl | behind : index < 0 ∨ index = 0 ∨ 1 ≤ index := by omega
    · rw [if_pos (.inl negative), if_pos negative]
    · have inside : ¬((0 : Int) < 0 ∨ (0 : Int) ≥ (holding value).len) := by
        rw [one]
        decide
      rw [if_neg inside, if_neg (Int.lt_irrefl 0)]
      exact load_first value
    · rw [if_pos (by omega), if_neg (by omega), List.getElem?_eq_none (by rw [List.length_singleton]; omega)]
      rfl

theorem empty_keeps (empty : Empty array) (op : Op) :
    ∃ next, array.step op = some (next, (seqStep [] op).2) ∧ Represents next (seqStep [] op).1 := by
  have rep := Represents.empty empty
  have behind (index : Int) : index < 0 ∨ index ≥ array.len := by
    rw [empty.len]
    omega
  cases op with
  | add value => exact ⟨_, add_empty empty value, .one value rfl⟩
  | insert index value =>
    rw [seqStep]
    by_cases negative : index < 0
    · rw [if_pos negative]
      exact ⟨array, insert_negative rep.spare negative value, rep⟩
    · have last : array.len ≤ index := by
        rw [empty.len]
        omega
      have first : min index (0 : Nat) = 0 := by omega
      rw [if_neg negative, List.length_nil, Nat.min_zero, first]
      exact ⟨_, (insert_behind rep.spare last value).trans (add_empty empty value), .one value rfl⟩
  | remove index =>
    have outside : index < 0 ∨ index ≥ ([] : List Pointer).length := by
      rw [List.length_nil]
      omega
    rw [seqStep, if_pos outside]
    exact ⟨array, remove_outside (behind index), rep⟩
  | removeByValue value => exact ⟨array, removeByValue_empty empty value, rep⟩
  | clear => exact ⟨array, clear_empty empty, rep⟩

theorem holding_keeps (held : Pointer) (op : Op) (others : ¬Adds op) :
    ∃ next, (holding held).step op = some (next, (seqStep [held] op).2) ∧ Represents next (seqStep [held] op).1 := by
  have rep := Represents.one held rfl
  cases op with
  | add value => exact absurd trivial others
  | insert index value =>
    have negative : index < 0 := Int.not_le.mp others
    rw [seqStep, if_pos negative]
    exact ⟨_, insert_negative rep.spare negative value, rep⟩
  | remove index =>
    rw [seqStep]
    by_cases first : index = 0
    · subst first
      obtain ⟨next, removed, empty⟩ := remove_holding held
      have inside : ¬((0 : Int) < 0 ∨ (0 : Int) ≥ [held].length) := by
        rw [List.length_singleton]
        decide
      rw [if_neg inside]
      exact ⟨next, removed, .empty empty⟩
    · have outside : index < 0 ∨ index ≥ [held].length := by
        rw [List.length_singleton]
        omega
      rw [if_pos outside]
      exact ⟨_, remove_outside outside, rep⟩
  | removeByValue value => exact removeByValue_holding held value
  | clear =>
    obtain ⟨next, cleared, empty⟩ := clear_holding held
    exact ⟨next, cleared, .empty empty⟩

theorem holding_breaks (held : Pointer) (op : Op) (adds : Adds op) : (holding held).step op = none := by
  cases op with
  | add value => exact add_holding held value
  | insert index value =>
    have spare : (holding held).len ≠ (holding held).cap := (Represents.one held rfl).spare
    by_cases front : index = 0
    · subst front
      exact insert_front held value
    · have positive : 0 ≤ index := adds
      have behind : (holding held).len ≤ index := by
        show ((1 : Nat) : Int) ≤ index
        omega
      exact (insert_behind spare behind value).trans (add_holding held value)
  | remove index => exact absurd adds id
  | removeByValue value => exact absurd adds id
  | clear => exact absurd adds id

theorem step_keeps (rep : Represents array items) (empty : FindsEmpty array op) :
    ∃ next, array.step op = some (next, (seqStep items op).2) ∧ Represents next (seqStep items op).1 := by
  cases rep with
  | empty bare => exact empty_keeps bare op
  | one held same =>
    subst same
    exact holding_keeps held op fun adds => absurd (empty adds) Nat.one_ne_zero

theorem step_breaks (rep : Represents array items) (occupied : ¬FindsEmpty array op) : array.step op = none := by
  rw [FindsEmpty, Classical.not_imp] at occupied
  obtain ⟨adds, occupied⟩ := occupied
  cases rep with
  | empty bare => exact absurd bare.len occupied
  | one held same =>
    subst same
    exact holding_breaks held op adds

theorem init_small : ¬Sized init := show ¬pointerSize * 8 ≤ 8 by decide

theorem refines_iff (ops : List Op) : Refines ops ↔ Run.Along step FindsEmpty init ops := by
  have runs := @Run.answers_iff_along _ _ _ _ step (fun array items => Represents array items) Meets seqStep FindsEmpty
    Represents.meets step_keeps
    (fun rep occupied next taken _ => by cases (step_breaks rep occupied).symm.trans taken)
    init [] (.empty init_empty) ops
  constructor
  · exact fun refines => runs.mp refines.answers
  · intro along
    refine ⟨runs.mpr along, ?_⟩
    refine along.weaken (P := fun array => ∃ items, Represents array items) ?_ ?_ ⟨[], .empty init_empty⟩
    · rintro array op next out ⟨items, rep⟩ empty taken
      obtain ⟨next', taken', rep'⟩ := step_keeps rep empty
      cases taken.symm.trans taken'
      exact ⟨_, rep'⟩
    · rintro array op ⟨items, rep⟩ - - full
      exact absurd full rep.spare

/-- The block is too small for the capacity in every run, from its first state on. Apart from that,
runs are those of sequences exactly if every element is added to an empty array. -/
theorem array_iff (ops : List Op) :
    ¬Correct ops ∧ (Refines ops ↔ Run.Along step FindsEmpty init ops) :=
  ⟨fun correct => init_small (correct.2 [] List.nil_prefix init [] rfl), refines_iff ops⟩

/-- The second element is stored behind the block. -/
theorem second_overruns : ¬Refines [.add ⟨1, by decide⟩, .add ⟨2, by decide⟩] := by
  intro refines
  obtain ⟨last, path, -⟩ := refines.answers _ (List.prefix_refl _)
  have overrun : Run.run step init [.add ⟨1, by decide⟩, .add ⟨2, by decide⟩] = none := by decide +kernel
  cases overrun.symm.trans path

end Devent.CArray
