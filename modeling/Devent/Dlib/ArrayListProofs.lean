import Devent.Dlib.ArrayList
import Devent.Library.Run

/-! `CArrayList` against sequences. The lists are right; what goes wrong is the query of the index
just behind the elements, which reads the slot there. -/
namespace Devent.CArrayList
open Slots

variable {V : Type}

/-- Sequences by the addresses of their lists, with what the calls return. -/
def seqsStep (seqs : Nat → List (Option V)) : Op V → (Nat → List (Option V)) × Ret V
  | .add list data => (Function.update seqs list (seqs list ++ [data]), .status 0)
  | .remove list index => (Function.update seqs list ((seqs list).eraseIdx index), .pointer (seqs list)[index]?.join)
  | .removeLast list => (Function.update seqs list (seqs list).dropLast, .pointer (seqs list).getLast?.join)
  | .clear list cb => (Function.update seqs list [], .cleared (if cb then seqs list else []))
  | .merge dest src _ => (Function.update (Function.update seqs dest (seqs dest ++ seqs src)) src [], .status 0)

structure Represents (list : CArrayList V) (items : List (Option V)) : Prop where
  length : list.length = items.length
  data : Holds list.data items
  allocated : list.data.length = list.cap
  fits : list.length ≤ list.cap
  growable : 2 ≤ list.cap

/-- The list holds the sequence, and every query answers for it. -/
def Meets (list : CArrayList V) (items : List (Option V)) : Prop :=
  Represents list items ∧ ∀ index, list.get index = some items[index]?.join

/-- The slot that the step leaves behind the elements is in the block already, and NULL. Loops that
count in `int` have an end. -/
def NullBehind (lists : Lists V) : Op V → Prop
  | .add list _ => load (lists list).data ((lists list).length + 1) = some none
  | .remove list index =>
    index + 1 < (lists list).length → load (lists list).data ((lists list).length - 1) = some none
  | .removeLast _ => True
  | .clear list cb => (lists list).length ≠ 0 →
      load (lists list).data 0 = some none ∧ (cb = true → (lists list).length < 2 ^ 31)
  | .merge dest src _ => (lists src).length ≠ 0 →
      load (lists dest).data ((lists dest).length + (lists src).length) = some none ∧
        load (lists src).data 0 = some none ∧ (lists src).length < 2 ^ 31

variable {list next : CArrayList V} {items : List (Option V)} {data : Option V} {index : Nat}

theorem new_represents : Represents (new : CArrayList V) [] where
  length := rfl
  data := holds_nil _
  allocated := List.length_replicate
  fits := Nat.zero_le _
  growable := show 2 ≤ defaultCap by decide

/-- The index behind the elements is the only one that is not checked. -/
theorem meets_iff (rep : Represents list items) : Meets list items ↔ load list.data list.length = some none := by
  have length := rep.length
  have behind : list.get list.length = load list.data list.length := if_neg (Nat.lt_irrefl _)
  constructor
  · intro meets
    rw [← behind, meets.2, List.getElem?_eq_none (by omega)]
    rfl
  · refine fun null => ⟨rep, fun index => ?_⟩
    obtain inside | rfl | outside := Nat.lt_trichotomy index list.length
    · have bound : index < items.length := by omega
      rw [get, if_neg (by omega), rep.data.load bound, List.getElem?_eq_getElem bound]
      rfl
    · rw [behind, null, List.getElem?_eq_none (by omega)]
      rfl
    · rw [get, if_pos outside, List.getElem?_eq_none (by omega)]
      rfl

theorem load_set_ne {α : Type} {block : Block α} {i j : Nat} (a : Option α) (other : i ≠ j) :
    load (block.set i a) j = load block j := by
  rw [load, load, List.getElem?_set_ne other]

/-- Growing leaves every slot as it was, those outside undefined. -/
theorem load_realloc {α : Type} {block : Block α} {cap : Nat} (grows : block.length ≤ cap) (j : Nat) :
    load (realloc block cap) j = load block j := by
  rw [load, load, realloc, List.take_of_length_le grows]
  obtain inside | outside := Nat.lt_or_ge j block.length
  · rw [List.getElem?_append_left inside]
  · rw [List.getElem?_append_right outside, List.getElem?_eq_none outside, List.getElem?_replicate]
    split <;> rfl

theorem resize_spec (rep : Represents list items) : ∃ grown, list.resize (list.length + 1) = some grown ∧
    Represents grown items ∧ grown.length < grown.cap ∧ ∀ j, load grown.data j = load list.data j := by
  have fits := rep.fits
  have growable := rep.growable
  have allocated := rep.allocated
  rw [resize]
  by_cases room : list.cap > list.length + 1
  · rw [if_pos room]
    exact ⟨list, rfl, rep, by omega, fun _ => rfl⟩
  · rw [if_neg room]
    obtain ⟨newCap, grown, least, greater⟩ : ∃ newCap,
        growCap (list.length + 1) (list.length + 1) list.cap = some newCap ∧
          list.cap ≤ newCap ∧ list.length < newCap := by
      rw [growCap]
      by_cases full : list.cap < list.length + 1
      · obtain ⟨rounds, more⟩ := Nat.exists_eq_add_one_of_ne_zero (show list.length ≠ 0 by omega)
        rw [if_pos full, more, growCap, if_neg (by omega)]
        exact ⟨_, rfl, Nat.le_add_right _ _, by omega⟩
      · rw [if_neg full]
        exact ⟨_, rfl, Nat.le_refl _, by omega⟩
    have grows : list.data.length ≤ newCap := by omega
    rw [grown]
    refine ⟨{ list with cap := newCap, data := realloc list.data newCap }, rfl,
      ⟨rep.length, rep.data.realloc grows, length_realloc grows, Nat.le_of_lt greater, Nat.le_trans growable least⟩,
      greater, load_realloc grows⟩

theorem add_spec (rep : Represents list items) (data : Option V) : ∃ next, list.add data = some next ∧
    Represents next (items ++ [data]) ∧ ∀ j, list.length < j → load next.data j = load list.data j := by
  obtain ⟨grown, resized, rep', room, same⟩ := resize_spec rep
  have length := rep'.length
  have allocated := rep'.allocated
  have inside : grown.length < grown.data.length := allocated.symm ▸ room
  have start : grown.length = list.length := length.trans rep.length.symm
  refine ⟨{ grown with length := grown.length + 1, data := grown.data.set grown.length (some data) }, ?_,
    ⟨?_, ⟨?_, fun i bound => ?_⟩, ?_, room, rep'.growable⟩, fun j after => ?_⟩
  · rw [add, resized]
    simp only [Option.bind_eq_bind, Option.bind_some, store, if_pos inside]
    rfl
  · rw [List.length_append, ← length]
    rfl
  · rw [List.length_set, List.length_append, ← length]
    exact inside
  · rw [List.length_append, List.length_singleton] at bound
    by_cases here : i = items.length
    · subst here
      rw [← length, List.getElem?_set_self inside, length, List.getElem?_append_right (Nat.le_refl _), Nat.sub_self]
      rfl
    · have before : i < items.length := by omega
      rw [List.getElem?_set_ne (by omega), rep'.data.slot i before, List.getElem?_append_left before]
  · rw [List.length_set]
    exact allocated
  · rw [load_set_ne _ (by omega), same]

theorem Meets.null (meets : Meets list items) : load list.data list.length = some none := (meets_iff meets.1).mp meets

/-- The removed slot is set to NULL. -/
theorem removeLast_spec (meets : Meets list items) : ∃ next,
    list.removeLast = some (next, items.getLast?.join) ∧ Meets next items.dropLast := by
  have rep := meets.1
  have length := rep.length
  rw [removeLast]
  by_cases empty : list.length = 0
  · obtain rfl : items = [] := List.eq_nil_of_length_eq_zero (length.symm.trans empty)
    rw [if_pos empty]
    exact ⟨list, rfl, meets⟩
  · have bound : list.length - 1 < items.length := by omega
    have inside : list.length - 1 < list.data.length := Nat.lt_of_lt_of_le bound rep.data.fits
    have last : items.getLast? = some items[list.length - 1] := by
      rw [List.getLast?_eq_getElem?, ← length, List.getElem?_eq_getElem bound]
    rw [if_neg empty, last]
    simp only [Option.bind_eq_bind, rep.data.load bound, Option.bind_some, store, if_pos inside]
    refine ⟨{ list with length := list.length - 1, data := list.data.set (list.length - 1) (some none) }, rfl, ?_⟩
    have rep' : Represents { list with length := list.length - 1, data := list.data.set (list.length - 1) (some none) }
        items.dropLast := by
      refine ⟨?_, ⟨?_, fun i lt => ?_⟩, (List.length_set ..).trans rep.allocated,
        Nat.le_trans (Nat.sub_le ..) rep.fits, rep.growable⟩
      · rw [List.length_dropLast, ← length]
      · rw [List.length_set, List.length_dropLast]
        exact Nat.le_trans (Nat.sub_le ..) rep.data.fits
      · rw [List.length_dropLast] at lt
        rw [List.getElem?_set_ne (by omega), rep.data.slot i (by omega), List.getElem?_dropLast, if_pos lt]
    refine (meets_iff rep').mpr ?_
    show ((list.data.set (list.length - 1) (some none))[list.length - 1]?).join = _
    rw [List.getElem?_set_self inside]
    rfl

/-- A removal from the middle leaves the last element behind the others. -/
theorem remove_middle (rep : Represents list items) (middle : index + 1 < list.length) : ∃ next,
    list.remove index = some (next, items[index]?.join) ∧ Represents next (items.eraseIdx index) ∧
      load next.data next.length = load list.data (list.length - 1) := by
  have length := rep.length
  have fits := rep.data.fits
  have bound : index < items.length := by omega
  obtain ⟨block, shifted, width, slots⟩ := shiftDown_spec (show list.length - 1 ≤ index + list.length by omega)
    (show list.length - 1 + 1 ≤ list.data.length by omega)
  obtain ⟨block', shifted', -, holds⟩ := rep.data.erase_to bound (show items.length ≤ list.length - 1 + 1 by omega)
    (show list.length - 1 ≤ index + list.length by omega) (by omega)
  cases shifted.symm.trans shifted'
  refine ⟨{ list with length := list.length - 1, data := block }, ?_, ⟨?_, holds, width.trans rep.allocated,
    Nat.le_trans (Nat.sub_le ..) rep.fits, rep.growable⟩, ?_⟩
  · rw [remove, if_neg (by omega), if_neg (by omega), rep.data.load bound, List.getElem?_eq_getElem bound]
    simp only [Option.bind_eq_bind, Option.bind_some, shifted]
    rfl
  · rw [List.length_eraseIdx, if_pos bound, ← length]
  · show (block[list.length - 1]?).join = _
    rw [slots, if_neg (by omega), load]

theorem remove_end (meets : Meets list items) (last : ¬index + 1 < list.length) : ∃ next,
    list.remove index = some (next, items[index]?.join) ∧ Meets next (items.eraseIdx index) := by
  have length := meets.1.length
  rw [remove]
  by_cases outside : list.length = 0 ∨ index ≥ list.length
  · have none := List.getElem?_eq_none (show items.length ≤ index by omega)
    rw [if_pos outside, none, List.eraseIdx_of_length_le (by omega)]
    exact ⟨list, rfl, meets⟩
  · obtain rfl : index = list.length - 1 := by omega
    obtain ⟨next, removed, meets'⟩ := removeLast_spec meets
    rw [List.getLast?_eq_getElem?, ← length] at removed
    rw [if_neg outside, if_pos rfl, length, ← List.dropLast_eq_eraseIdx (by omega), ← length]
    exact ⟨next, removed, meets'⟩

theorem clearLoop_spec (rep : Represents list items) {rounds i : Nat} (enough : list.length ≤ i + rounds) :
    list.clearLoop rounds i = some (items.drop i) := by
  have length := rep.length
  induction rounds generalizing i with
  | zero =>
    rw [clearLoop, if_neg (by omega), List.drop_eq_nil_of_le (by omega)]
  | succ rounds ih =>
    rw [clearLoop]
    by_cases more : i < list.length
    · have bound : i < items.length := by omega
      rw [if_pos more, rep.data.load bound, ih (by omega), List.drop_eq_getElem_cons bound]
      rfl
    · rw [if_neg more, List.drop_eq_nil_of_le (by omega)]

/-- An `int` that counts up to `stop`. -/
theorem intFrom_zero (stop : Nat) : intFrom 0 stop = if 2 ^ 31 ≤ stop then none else some 0 := by
  have zero : sizeT (intT 0) = 0 := rfl
  rw [intFrom, zero]
  by_cases wide : 2 ^ 31 ≤ stop
  · rw [if_pos wide, if_pos ⟨by omega, wide⟩]
  · rw [if_neg wide, if_neg fun both => wide both.2]

theorem clear_spec (rep : Represents list items) (nonempty : list.length ≠ 0) (cb : Bool) : list.clear cb =
    if cb = true ∧ 2 ^ 31 ≤ list.length then none
    else some ({ list with length := 0 }, if cb then items else []) := by
  rw [clear, if_neg nonempty]
  cases cb with
  | false => rfl
  | true =>
    simp only [if_true, true_and, intFrom_zero]
    by_cases wide : 2 ^ 31 ≤ list.length
    · rw [if_pos wide, if_pos wide]
      rfl
    · rw [if_neg wide, if_neg wide]
      simp only [Option.bind_eq_bind, Option.bind_some, clearLoop_spec rep (Nat.le_add_left _ 0), List.drop_zero]
      rfl

theorem cleared_represents (rep : Represents list items) : Represents { list with length := 0 } [] :=
  ⟨rfl, holds_nil _, rep.allocated, Nat.zero_le _, rep.growable⟩

theorem mergeLoop_spec {dest src : CArrayList V} {items' : List (Option V)} (rep : Represents dest items)
    (rep' : Represents src items') {rounds i : Nat} (enough : src.length ≤ i + rounds) (inside : i ≤ src.length) :
    ∃ next,
    mergeLoop src rounds i dest = some next ∧ Represents next (items ++ items'.drop i) ∧
      (i < src.length → ∀ j, dest.length + (src.length - i) ≤ j → load next.data j = load dest.data j) := by
  have length := rep'.length
  induction rounds generalizing dest items i with
  | zero =>
    rw [mergeLoop, if_neg (by omega), List.drop_eq_nil_of_le (by omega), List.append_nil]
    exact ⟨dest, rfl, rep, fun more => by omega⟩
  | succ rounds ih =>
    rw [mergeLoop]
    by_cases more : i < src.length
    · have bound : i < items'.length := by omega
      obtain ⟨grown, added, rep'', kept⟩ := add_spec rep items'[i]
      obtain ⟨next, merged, final, kept'⟩ := ih rep'' (i := i + 1) (by omega) more
      have longer : grown.length = dest.length + 1 := by
        rw [rep''.length, List.length_append, ← rep.length]
        rfl
      rw [if_pos more, rep'.data.load bound]
      simp only [Option.bind_eq_bind, Option.bind_some, added, merged]
      refine ⟨next, rfl, ?_, fun _ j after => ?_⟩
      · rw [List.append_assoc, List.singleton_append, ← List.drop_eq_getElem_cons bound] at final
        exact final
      · by_cases last : i + 1 < src.length
        · rw [kept' last j (by omega), kept j (by omega)]
        · have ended : mergeLoop src rounds (i + 1) grown = some grown := by
            cases rounds with
            | zero => rw [mergeLoop, if_neg last]
            | succ rounds => rw [mergeLoop, if_neg last]
          cases ended.symm.trans merged
          exact kept j (by omega)
    · rw [if_neg more, List.drop_eq_nil_of_le (by omega), List.append_nil]
      exact ⟨dest, rfl, rep, fun inside => absurd inside more⟩

theorem merge_spec {dest src : CArrayList V} {items' : List (Option V)} (rep : Represents dest items)
    (rep' : Represents src items') (nonempty : src.length ≠ 0) (short : src.length < 2 ^ 31) : ∃ next,
    merge dest src = some (next, { src with length := 0 }) ∧ Represents next (items ++ items') ∧
      load next.data next.length = load dest.data (dest.length + src.length) := by
  obtain ⟨next, merged, final, kept⟩ := mergeLoop_spec rep rep' (Nat.le_add_left _ 0) (Nat.zero_le _)
  have longer : next.length = dest.length + src.length := by
    rw [final.length, List.drop_zero, List.length_append, ← rep.length, ← rep'.length]
  rw [List.drop_zero] at final
  refine ⟨next, ?_, final, ?_⟩
  · rw [merge, if_neg nonempty, intFrom_zero, if_neg (by omega)]
    simp only [Option.bind_eq_bind, Option.bind_some, merged]
    rfl
  · rw [longer]
    exact kept (by omega) _ (by omega)

def Related (lists : Lists V) (seqs : Nat → List (Option V)) : Prop := ∀ a, Meets (lists a) (seqs a)

/-- The step answers as sequences do, and every list behind it is right. -/
def Answers (lists : Lists V) (seqs : Nat → List (Option V)) (op : Op V) : Prop :=
  ∃ next, step lists op = some (next, (seqsStep seqs op).2) ∧ Related next (seqsStep seqs op).1

variable {lists : Lists V} {seqs : Nat → List (Option V)}

theorem start_related : Related (start : Lists V) (fun _ => []) := fun _ => (meets_iff new_represents).mpr rfl

theorem update_related_iff (related : Related lists seqs) (a : Nat) (next : CArrayList V) (items : List (Option V)) :
    Related (Function.update lists a next) (Function.update seqs a items) ↔ Meets next items := by
  constructor
  · intro all
    have here := all a
    rwa [Function.update_self, Function.update_self] at here
  · intro meets b
    by_cases here : b = a
    · subst here
      rwa [Function.update_self, Function.update_self]
    · rw [Function.update_of_ne here, Function.update_of_ne here]
      exact related b

theorem update_two_related_iff (related : Related lists seqs) {a b : Nat} (distinct : a ≠ b) (next next' : CArrayList V)
    (items items' : List (Option V)) :
    Related (Function.update (Function.update lists a next) b next')
      (Function.update (Function.update seqs a items) b items') ↔ Meets next items ∧ Meets next' items' := by
  constructor
  · intro all
    have first := all a
    have second := all b
    rw [Function.update_of_ne distinct, Function.update_of_ne distinct, Function.update_self,
      Function.update_self] at first
    rw [Function.update_self, Function.update_self] at second
    exact ⟨first, second⟩
  · rintro ⟨first, second⟩
    have related' := (update_related_iff related a next items).mpr first
    exact (update_related_iff related' b next' items').mpr second

theorem answers_iff {op : Op V} {next : Lists V} (taken : step lists op = some (next, (seqsStep seqs op).2)) :
    Answers lists seqs op ↔ Related next (seqsStep seqs op).1 := by
  constructor
  · rintro ⟨next', taken', related⟩
    cases taken.symm.trans taken'
    exact related
  · exact fun related => ⟨next, taken, related⟩

/-- A step that changes one list is right exactly if that list is. -/
theorem answers_update_iff (related : Related lists seqs) {op : Op V} {a : Nat} {next : CArrayList V}
    {items : List (Option V)} {out : Ret V} (taken : step lists op = some (Function.update lists a next, out))
    (tracked : seqsStep seqs op = (Function.update seqs a items, out)) :
    Answers lists seqs op ↔ Meets next items := by
  have answered : step lists op = some (Function.update lists a next, (seqsStep seqs op).2) := by
    rw [taken, tracked]
  rw [answers_iff answered, tracked]
  exact update_related_iff related a next items

theorem add_answers_iff (related : Related lists seqs) (a : Nat) (data : Option V) :
    Answers lists seqs (.add a data) ↔ NullBehind lists (.add a data) := by
  have rep := (related a).1
  obtain ⟨next, added, rep', kept⟩ := add_spec rep data
  have longer : next.length = (lists a).length + 1 := by
    rw [rep'.length, List.length_append, ← rep.length]
    rfl
  have taken : step lists (.add a data) = some (Function.update lists a next, .status 0) := by
    rw [step, added]
    rfl
  rw [answers_update_iff related taken rfl, meets_iff rep', longer, kept _ (Nat.lt_succ_self _)]
  rfl

theorem remove_answers_iff (related : Related lists seqs) (a index : Nat) :
    Answers lists seqs (.remove a index) ↔ NullBehind lists (.remove a index) := by
  by_cases middle : index + 1 < (lists a).length
  · obtain ⟨next, removed, rep', behind⟩ := remove_middle (related a).1 middle
    have taken : step lists (.remove a index) =
        some (Function.update lists a next, .pointer (seqs a)[index]?.join) := by
      rw [step, removed]
      rfl
    rw [answers_update_iff related taken rfl, meets_iff rep', behind]
    exact ⟨fun null _ => null, fun null => null middle⟩
  · obtain ⟨next, removed, meets⟩ := remove_end (related a) middle
    have taken : step lists (.remove a index) =
        some (Function.update lists a next, .pointer (seqs a)[index]?.join) := by
      rw [step, removed]
      rfl
    rw [answers_update_iff related taken rfl]
    exact iff_of_true meets fun inside => absurd inside middle

theorem removeLast_answers (related : Related lists seqs) (a : Nat) : Answers lists seqs (.removeLast a) := by
  obtain ⟨next, removed, meets⟩ := removeLast_spec (related a)
  have taken : step lists (.removeLast a) = some (Function.update lists a next, .pointer (seqs a).getLast?.join) := by
    rw [step, removed]
    rfl
  exact (answers_update_iff related taken rfl).mpr meets

theorem clear_answers_iff (related : Related lists seqs) (a : Nat) (cb : Bool) :
    Answers lists seqs (.clear a cb) ↔ NullBehind lists (.clear a cb) := by
  have rep := (related a).1
  have length := rep.length
  by_cases empty : (lists a).length = 0
  · have nil : seqs a = [] := List.eq_nil_of_length_eq_zero (length.symm.trans empty)
    have taken : step lists (.clear a cb) =
        some (Function.update lists a (lists a), .cleared (if cb then seqs a else [])) := by
      rw [step, clear, if_pos empty, nil, ite_self]
      rfl
    have unchanged : seqsStep seqs (.clear a cb) =
        (Function.update seqs a (seqs a), .cleared (if cb then seqs a else [])) := by
      rw [seqsStep, nil]
    rw [answers_update_iff related taken unchanged]
    exact iff_of_true (related a) fun nonempty => absurd empty nonempty
  · have spec := clear_spec rep empty cb
    by_cases endless : cb = true ∧ 2 ^ 31 ≤ (lists a).length
    · rw [if_pos endless] at spec
      refine iff_of_false ?_ fun null => ?_
      · rintro ⟨next, taken, -⟩
        rw [step, spec] at taken
        cases taken
      · have short := (null empty).2 endless.1
        omega
    · rw [if_neg endless] at spec
      have taken : step lists (.clear a cb) =
          some (Function.update lists a { lists a with length := 0 }, .cleared (if cb then seqs a else [])) := by
        rw [step, spec]
        rfl
      rw [answers_update_iff related taken rfl, meets_iff (cleared_represents rep)]
      have ends (called : cb = true) : (lists a).length < 2 ^ 31 := Nat.lt_of_not_ge fun long => endless ⟨called, long⟩
      exact ⟨fun null _ => ⟨null, ends⟩, fun null => (null empty).1⟩

theorem merge_answers_iff (related : Related lists seqs) {dest src : Nat} (distinct : dest ≠ src) :
    Answers lists seqs (.merge dest src distinct) ↔ NullBehind lists (.merge dest src distinct) := by
  have rep := (related dest).1
  have rep' := (related src).1
  have length := rep'.length
  by_cases empty : (lists src).length = 0
  · have nil : seqs src = [] := List.eq_nil_of_length_eq_zero (length.symm.trans empty)
    have taken : step lists (.merge dest src distinct) =
        some (Function.update (Function.update lists dest (lists dest)) src (lists src), .status 0) := by
      rw [step, merge, if_pos empty]
      rfl
    rw [answers_iff taken, seqsStep, update_two_related_iff related distinct, nil, List.append_nil]
    exact iff_of_true ⟨related dest, nil ▸ related src⟩ fun nonempty => absurd empty nonempty
  · by_cases short : (lists src).length < 2 ^ 31
    · obtain ⟨next, merged, final, behind⟩ := merge_spec rep rep' empty short
      have taken : step lists (.merge dest src distinct) =
          some (Function.update (Function.update lists dest next) src { lists src with length := 0 }, .status 0) := by
        rw [step, merged]
        rfl
      rw [answers_iff taken, seqsStep, update_two_related_iff related distinct, meets_iff final,
        meets_iff (cleared_represents rep'), behind]
      exact ⟨fun null _ => ⟨null.1, null.2, short⟩, fun null => ⟨(null empty).1, (null empty).2.1⟩⟩
    · refine iff_of_false ?_ fun null => short (null empty).2.2
      rintro ⟨next, taken, -⟩
      have endless : merge (lists dest) (lists src) = none := by
        rw [merge, if_neg empty, intFrom_zero, if_pos (by omega)]
        rfl
      rw [step, endless] at taken
      cases taken

theorem step_answers_iff (related : Related lists seqs) (op : Op V) : Answers lists seqs op ↔ NullBehind lists op := by
  cases op with
  | add a data => exact add_answers_iff related a data
  | remove a index => exact remove_answers_iff related a index
  | removeLast a => exact iff_of_true (removeLast_answers related a) trivial
  | clear a cb => exact clear_answers_iff related a cb
  | merge dest src distinct => exact merge_answers_iff related distinct

/-- Lists answer as sequences in every state of a run, queries behind the elements included,
exactly if each step leaves an allocated NULL there. -/
theorem array_list_iff (ops : List (Op V)) :
    (∀ arrived, arrived <+: ops → ∃ last,
      Run.run step (start : Lists V) arrived = some (last, (Run.track seqsStep (fun _ => []) arrived).2) ∧
        Related last (Run.track seqsStep (fun _ => []) arrived).1) ↔
      Run.Along step NullBehind (start : Lists V) ops :=
  @Run.answers_iff_along _ _ _ _ step Related Related seqsStep NullBehind id
    (fun related null => (step_answers_iff related _).mpr null)
    (fun related stale next taken good => stale ((step_answers_iff related _).mp ⟨next, taken, good⟩))
    start (fun _ => []) start_related ops

/-- Two elements, the first removed: the query of index 1 finds the second, that moved down. -/
theorem stale_slot : ¬∃ last,
    Run.run step start [.add 0 (some true), .add 0 (some false), .remove 0 0] =
        some (last, (Run.track seqsStep (fun _ => []) [.add 0 (some true), .add 0 (some false), .remove 0 0]).2) ∧
      Related last (Run.track seqsStep (fun _ => []) [.add 0 (some true), .add 0 (some false), .remove 0 0]).1 := by
  rintro ⟨last, path, related⟩
  have reached : (Run.run step start [.add 0 (some true), .add 0 (some false), .remove 0 0]).map
      (fun (lists, _) => (lists 0).get 1) = some (some (some false)) := by decide +kernel
  rw [path] at reached
  have stale : (last 0).get 1 = some (some false) := Option.some.inj reached
  cases stale.symm.trans ((related 0).2 1)

end Devent.CArrayList
