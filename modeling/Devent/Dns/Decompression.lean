import Devent.Dns.CompressedName

/-! When `get_name` finds a compressed name: where each pointer that is misread still leads to its text. -/
namespace Devent.Dns
open Outcome

variable {data : List Byte}

section Standing

variable {i n : Nat} {bytes : Text}

theorem At.octet {b : Byte} {segment : List Byte} (here : At data i (b :: segment)) :
    Span data i 1 ∧ octet data i = b := by
  have inside := here.le_length (by simp)
  simp only [List.length_cons] at inside
  have span : Span data i 1 := .inr ⟨Int.natCast_nonneg i, by omega⟩
  have value := (read_inside span).symm.trans here.read
  exact ⟨span, Outcome.value.inj value⟩

theorem root_stands (here : At data i [0]) : Legible data i ∧ Dns.octet data i = 0 := by
  obtain ⟨span, zero⟩ := here.octet
  refine ⟨⟨span, fun pointer => absurd zero (pointer_nonzero pointer), fun root => absurd zero root⟩, zero⟩

theorem lengthByte (short : bytes.length < 64) : (UInt8.ofNat bytes.length).toNat = bytes.length := by
  simp only [UInt8.toNat_ofNat']
  omega

theorem label_stands (positive : 0 < bytes.length) (short : bytes.length < 64)
    (here : At data i (UInt8.ofNat bytes.length :: bytes)) :
    Legible data i ∧ Dns.octet data i ≠ 0 ∧ ¬IsPointer data i ∧ labelStep data i = bytes.length + 1 ∧
      strndup data (i + 1) (sizeT (signedChar (Dns.octet data i))) = .value (bytes.takeWhile (· ≠ 0)) := by
  obtain ⟨span, first⟩ := here.octet
  obtain ⟨-, copy⟩ := at_cons_iff.mp here
  have length := lengthByte short
  have low : (Dns.octet data i).toNat = bytes.length := by rw [first, length]
  have width : signedChar (Dns.octet data i) = bytes.length := by rw [signedChar_low (by omega), low]
  have wide : sizeT (signedChar (Dns.octet data i)) = bytes.length := by
    rw [width]
    exact sizeT_natCast (by omega)
  have nonzero : Dns.octet data i ≠ 0 := by
    intro zero
    rw [zero, UInt8.toNat_zero] at low
    omega
  have plain : ¬IsPointer data i := by
    rw [IsPointer, pointer_iff, low]
    omega
  have copied := copy.strndup_takeWhile
  simp only [Nat.cast_add, Nat.cast_one] at copied
  refine ⟨⟨span, fun pointer => absurd pointer plain, fun _ _ => ?_⟩, nonzero, plain, ?_,
    by rw [wide]; exact copied⟩
  · rw [wide]
    have inside := copy.le_length (List.length_pos_iff.mp positive)
    exact .inl (.inr ⟨by omega, by omega⟩)
  · rw [labelStep, width]

theorem pointer_stands (range : n < 2 ^ 14) (here : At data i (htons (192 * 256 + n))) :
    Legible data i ∧ IsPointer data i ∧ pointerTarget data i = taken n := by
  obtain ⟨high, low⟩ := at_cons_iff.mp here
  obtain ⟨span, first⟩ := high.octet
  obtain ⟨span', second⟩ := low.octet
  simp only [Nat.cast_add, Nat.cast_one] at span' second
  have highByte : (Dns.octet data i).toNat = 192 + n / 256 := by
    rw [first, UInt8.toNat_ofNat']
    omega
  have lowByte : (Dns.octet data (i + 1)).toNat = n % 256 := by
    rw [second, UInt8.toNat_ofNat']
    omega
  have pointer : IsPointer data i := by
    rw [IsPointer, pointer_iff, highByte]
    omega
  have three : (3 : UInt8).toNat = 2 ^ 2 - 1 := rfl
  refine ⟨⟨span, fun _ => span', fun _ plain => absurd pointer plain⟩, pointer, ?_⟩
  rw [pointerTarget, lowByte, UInt8.toNat_and, highByte, three, Nat.and_two_pow_sub_one_eq_mod,
    Nat.shiftLeft_eq, taken]
  omega

/-- An offset below 256 is not misread. -/
theorem taken_small (small : n < 256) : taken n = n := by
  simp only [taken]
  omega

end Standing

theorem clean_takeWhile {bytes : Text} (clean : 0 ∉ bytes) : bytes.takeWhile (· ≠ 0) = bytes := by
  rw [List.takeWhile_eq_self_iff]
  intro b member
  exact decide_eq_true fun zero => clean (zero ▸ member)

/-- A copy cut at a zero byte cannot be made up for: a dot or nothing follows it. -/
theorem clean_of_copy {bytes more expected : Text} (shape : more = [] ∨ ∃ rest, more = dot :: rest)
    (same : bytes.takeWhile (· ≠ 0) ++ more = bytes ++ expected) : 0 ∉ bytes := by
  induction bytes with
  | nil => exact List.not_mem_nil
  | cons b bytes ih =>
    by_cases zero : b = 0
    · rw [zero] at same
      obtain rfl | ⟨rest, rfl⟩ := shape
      · cases same
      · cases (List.cons.inj same).1
    · have goes : decide (b ≠ 0) = true := decide_eq_true zero
      rw [List.takeWhile_cons_of_pos (p := fun c : Byte => decide (c ≠ 0)) goes] at same
      have clean := ih (List.cons.inj same).2
      intro member
      obtain first | later := List.mem_cons.mp member
      · exact zero first.symm
      · exact clean later

theorem joined_eq_none_iff {labels : List Text} : joined labels = none ↔ labels = [] := by
  cases labels <;> simp [joined]

namespace CompressedName

theorem first_le {name : CompressedName} {i : Nat} (stands : name.Stands data i) : name.first i ≤ i := by
  induction name generalizing i with
  | root | label => exact Nat.le_refl i
  | pointer offset target ih =>
    obtain ⟨⟨before, -⟩, -, there⟩ := stands
    exact Nat.le_trans (ih there) (Nat.le_of_lt before)

/-- The dotted labels behind what is gathered. -/
def tail (name : CompressedName) : Text := name.labels.flatMap (dot :: ·)

theorem tail_eq {name : CompressedName} (labels : name.labels ≠ []) :
    ∃ text, joined name.labels = some text ∧ name.tail = dot :: text := by
  cases split : name.labels with
  | nil => exact absurd split labels
  | cons bytes rest => exact ⟨_, rfl, by simp [tail, split]⟩

section Pointer

variable {offset i : Nat} {target : CompressedName}

/-- The code follows a standing pointer to where it is taken. -/
theorem pointer_taken (stands : (pointer offset target).Stands data i) :
    Legible data i ∧ IsPointer data i ∧ pointerTarget data i = taken offset :=
  pointer_stands stands.1.2 stands.2.1

/-- A pointer below 256 is followed to its own offset. -/
theorem pointer_small (stands : (pointer offset target).Stands data i) (small : offset < 256) :
    pointerTarget data i = offset ∧ pointerTarget data i ≤ data.length := by
  obtain ⟨-, -, target_eq⟩ := pointer_taken stands
  obtain ⟨⟨before, -⟩, here, -⟩ := stands
  have inside : i + 2 ≤ data.length := here.le_length (by simp [htons])
  rw [target_eq, taken_small small]
  exact ⟨rfl, by omega⟩

end Pointer

/-- A faithful name is found, whatever has been gathered. -/
structure Found (data : List Byte) (name : CompressedName) (i : Nat) : Prop where
  whole : name.Faithful data .whole → Gives data i i none 0 ⟨name.size, joined name.labels, name.first i⟩
  text : name.Faithful data .text → ∃ left, Gives data i i none 0 left ∧ left.text = joined name.labels
  behind : name.Faithful data .behind → ∀ start gathered size, Gives data start i (some gathered) size
    ⟨size + name.size, some (gathered ++ name.tail), start⟩

namespace Found

variable {i offset : Nat} {bytes : Text} {rest target : CompressedName}

theorem root (stands : CompressedName.root.Stands data i) : Found data .root i := by
  obtain ⟨legible, zero⟩ := root_stands stands
  refine ⟨fun _ => (gives_root legible zero).mpr rfl, fun _ => ⟨_, (gives_root legible zero).mpr rfl, rfl⟩,
    fun _ start gathered size => ?_⟩
  simpa [tail, labels, CompressedName.size] using (gives_root legible zero).mpr rfl

/-- One round, then the rest behind the label. -/
theorem gives_label (stands : (label bytes rest).Stands data i) (later : Found data rest (i + 1 + bytes.length))
    (faithful : (label bytes rest).Faithful data .behind) (start : Int) (text : Option Text) (size : Int) :
    Gives data start i text size
      ⟨size + (label bytes rest).size, some (gather text bytes ++ rest.tail), start⟩ := by
  obtain ⟨⟨positive, short⟩, here, -⟩ := stands
  obtain ⟨clean, faithful⟩ := faithful
  obtain ⟨legible, nonzero, plain, step, copied⟩ := label_stands positive short here
  have place : (i : Int) + (bytes.length + 1) = (i + 1 + bytes.length : Nat) := by omega
  have next := later.behind faithful start (gather text bytes) (size + (bytes.length + 1))
  have total : size + (bytes.length + 1) + (rest.size : Int) = size + (label bytes rest).size := by
    simp only [CompressedName.size]
    omega
  rw [Dns.gives_label legible nonzero plain copied, clean_takeWhile clean, step, place]
  rwa [total] at next

theorem label (stands : (label bytes rest).Stands data i) (later : Found data rest (i + 1 + bytes.length)) :
    Found data (label bytes rest) i := by
  refine ⟨fun faithful => ?_, fun faithful => ⟨_, gives_label stands later faithful i none 0, rfl⟩,
    fun faithful start gathered size => ?_⟩
  · have found := gives_label stands later faithful i none 0
    simpa [gather, joined, labels, tail, first] using found
  · have found := gives_label stands later faithful start (some gathered) size
    simpa [gather, labels, tail] using found

/-- The call that finds the text of the target, where there is one. -/
theorem gives_target (stands : (pointer offset target).Stands data i) (there : Found data target offset)
    (faithful : (pointer offset target).Faithful data .text) :
    pointerTarget data i ≤ data.length ∧ ∃ left,
      Gives data (pointerTarget data i) (pointerTarget data i) none 0 left ∧
        left.text = joined target.labels := by
  rw [Faithful] at faithful
  split at faithful
  · rename_i small
    obtain ⟨place, near⟩ := pointer_small stands small
    refine ⟨near, ?_⟩
    rw [place]
    exact there.text faithful
  · obtain ⟨within, spells⟩ := faithful
    rw [(pointer_taken stands).2.2]
    exact ⟨within, spells.gives _ _⟩

theorem pointer_whole (stands : (pointer offset target).Stands data i) (there : Found data target offset)
    (faithful : (pointer offset target).Faithful data .whole) :
    Gives data i i none 0 ⟨2, joined target.labels, target.first offset⟩ := by
  obtain ⟨legible, marked, target_eq⟩ := pointer_taken stands
  rw [Faithful] at faithful
  split at faithful
  · rename_i small
    obtain ⟨place, near⟩ := pointer_small stands small
    have found := there.whole faithful
    refine (gives_near legible marked near).mpr ⟨⟨target.size, _, target.first offset⟩, ?_, rfl⟩
    rw [place]
    exact found
  · obtain ⟨within, spells, lands⟩ := faithful
    rw [← target_eq] at within spells lands
    obtain ⟨left, found, text⟩ := spells.gives (pointerTarget data i) 0
    have place := (found.offset_cases.2 rfl rfl).unique lands
    refine (gives_near legible marked within).mpr ⟨left, found, ?_⟩
    simp only [append, text, place]
    rfl

theorem pointer_behind (stands : (pointer offset target).Stands data i) (there : Found data target offset)
    (faithful : (pointer offset target).Faithful data .behind) (start : Int) (gathered : Text) (size : Int) :
    Gives data start i (some gathered) size ⟨size + 2, some (gathered ++ target.tail), start⟩ := by
  obtain ⟨legible, marked, target_eq⟩ := pointer_taken stands
  obtain ⟨labels, faithful⟩ := faithful
  obtain faithful | ⟨null, within, spells⟩ := faithful
  · obtain ⟨text, joins, dotted⟩ := tail_eq labels
    obtain ⟨within, left, found, same⟩ := gives_target stands there faithful
    refine (gives_near legible marked within).mpr ⟨left, found, ?_⟩
    simp only [append, gather, same, joins, Option.getD_some, dotted]
  · rw [← target_eq] at within spells
    obtain ⟨left, found, same⟩ := spells.gives (pointerTarget data i) 0
    refine (gives_near legible marked within).mpr ⟨left, found, ?_⟩
    have tails : target.tail = dot :: nullText := by
      simp only [tail, null, List.flatMap_cons, List.flatMap_nil, List.append_nil]
    simp only [append, gather, same, Option.getD_none, tails]

theorem pointer (stands : (pointer offset target).Stands data i) (there : Found data target offset) :
    Found data (pointer offset target) i := by
  refine ⟨pointer_whole stands there, fun faithful => ?_, pointer_behind stands there⟩
  obtain ⟨legible, marked, -⟩ := pointer_taken stands
  obtain ⟨within, left, found, text⟩ := gives_target stands there faithful
  exact ⟨_, (gives_near legible marked within).mpr ⟨left, found, rfl⟩, text⟩

end Found

theorem Stands.found {name : CompressedName} {i : Nat} (stands : name.Stands data i) : Found data name i := by
  induction name generalizing i with
  | root => exact .root stands
  | label bytes rest ih => exact .label stands (ih stands.2.2)
  | pointer offset target ih => exact .pointer stands (ih stands.2.2)

theorem null_dotless : dot ∉ nullText := by decide

/-- A name that is found is faithful. -/
structure Telling (data : List Byte) (name : CompressedName) (i : Nat) : Prop where
  whole : ∀ left, Gives data i i none 0 left → left.text = joined name.labels →
    left.offset = name.first i → name.Faithful data .whole
  text : name.labels ≠ [] → ∀ left, Gives data i i none 0 left → left.text = joined name.labels →
    name.Faithful data .text
  behind : ∀ start gathered size left, Gives data start i (some gathered) size left →
    left.text = some (gathered ++ name.tail) → name.Faithful data .behind

namespace Telling

variable {i offset : Nat} {bytes : Text} {rest target : CompressedName}

theorem label_faithful (stands : (label bytes rest).Stands data i)
    (later : Telling data rest (i + 1 + bytes.length)) {start size : Int} {text : Option Text} {left : Name}
    (gives : Gives data start i text size left) (found : left.text = some (gather text bytes ++ rest.tail)) :
    (label bytes rest).Faithful data .behind := by
  obtain ⟨⟨positive, short⟩, here, -⟩ := stands
  obtain ⟨legible, nonzero, plain, step, copied⟩ := label_stands positive short here
  have place : (i : Int) + (bytes.length + 1) = (i + 1 + bytes.length : Nat) := by omega
  rw [gives_label legible nonzero plain copied, step, place] at gives
  obtain none | ⟨more, grown, shape⟩ := gives.text_cases
  · rw [none] at found
    cases found
  · have same : bytes.takeWhile (· ≠ 0) ++ more = bytes ++ rest.tail := by
      have equal := Option.some.inj (grown.symm.trans found)
      cases text with
      | none => exact equal
      | some gathered => simpa [gather] using equal
    have clean := clean_of_copy shape same
    rw [clean_takeWhile clean] at gives
    exact ⟨clean, later.behind _ _ _ _ gives found⟩

theorem label (stands : (label bytes rest).Stands data i)
    (later : Telling data rest (i + 1 + bytes.length)) : Telling data (label bytes rest) i := by
  refine ⟨fun left gives found _ => label_faithful stands later gives found,
    fun _ left gives found => label_faithful stands later gives found,
    fun start gathered size left gives found => label_faithful stands later gives ?_⟩
  rw [found]
  simp [tail, labels, gather]

/-- A call that finds the text of the target. -/
theorem target_faithful (stands : (pointer offset target).Stands data i) (there : Telling data target offset)
    (labels : target.labels ≠ []) {left : Name} (within : pointerTarget data i ≤ data.length)
    (gives : Gives data (pointerTarget data i) (pointerTarget data i) none 0 left)
    (found : left.text = joined target.labels) : (pointer offset target).Faithful data .text := by
  rw [Faithful]
  split
  · rename_i small
    rw [(pointer_small stands small).1] at gives
    exact there.text labels left gives found
  · rw [(pointer_taken stands).2.2] at within gives
    exact ⟨within, found ▸ gives.spells⟩

/-- A pointer beyond the message finds neither a label nor what stands before it. -/
theorem pointer_far (stands : (pointer offset target).Stands data i)
    (far : data.length < pointerTarget data i) : Telling data (pointer offset target) i := by
  obtain ⟨legible, marked, -⟩ := pointer_taken stands
  refine ⟨fun left gives found place => ?_, fun labels left gives found => ?_,
    fun start gathered size left gives found => ?_⟩
  · obtain rfl := (gives_far legible marked far).mp gives
    obtain ⟨⟨before, -⟩, -, there⟩ := stands
    have earlier := first_le there
    have same : (i : Int) = target.first offset := place
    omega
  · obtain rfl := (gives_far legible marked far).mp gives
    exact absurd (joined_eq_none_iff.mp found.symm) labels
  · obtain rfl := (gives_far legible marked far).mp gives
    cases found

theorem pointer_whole (stands : (pointer offset target).Stands data i) (there : Telling data target offset)
    (near : pointerTarget data i ≤ data.length) {left : Name}
    (gives : Gives data (pointerTarget data i) (pointerTarget data i) none 0 left)
    (found : left.text = joined target.labels) (place : left.offset = target.first offset) :
    (pointer offset target).Faithful data .whole := by
  rw [Faithful]
  split
  · rename_i small
    rw [(pointer_small stands small).1] at gives
    exact there.whole left gives found place
  · have lands := gives.offset_cases.2 rfl rfl
    rw [(pointer_taken stands).2.2] at near gives lands
    exact ⟨near, found ▸ gives.spells, place ▸ lands⟩

theorem labels_eq_null {labels : List Text} (joins : joined labels = some nullText) : labels = [nullText] := by
  cases labels with
  | nil => cases joins
  | cons bytes rest =>
    have spelled : nullText = bytes ++ rest.flatMap (dot :: ·) := (Option.some.inj joins).symm
    cases rest with
    | nil => rw [spelled, List.flatMap_nil, List.append_nil]
    | cons next others =>
      have member : dot ∈ nullText := by simp [spelled]
      exact absurd member null_dotless

theorem pointer_behind (stands : (pointer offset target).Stands data i) (there : Telling data target offset)
    (near : pointerTarget data i ≤ data.length) {left : Name}
    (gives : Gives data (pointerTarget data i) (pointerTarget data i) none 0 left)
    (same : dot :: left.text.getD nullText = target.tail) : (pointer offset target).Faithful data .behind := by
  have labels : target.labels ≠ [] := by
    intro empty
    simp [tail, empty] at same
  obtain ⟨text, joins, dotted⟩ := tail_eq labels
  have printed : left.text.getD nullText = text := (List.cons.inj (same.trans dotted)).2
  refine ⟨labels, ?_⟩
  cases own : left.text with
  | some own' =>
    rw [own] at printed
    exact .inl (target_faithful stands there labels near gives (by rw [own, joins, ← printed]; rfl))
  | none =>
    rw [own] at printed
    rw [← printed] at joins
    rw [(pointer_taken stands).2.2] at near gives
    exact .inr ⟨labels_eq_null joins, near, own ▸ gives.spells⟩

theorem pointer (stands : (pointer offset target).Stands data i) (there : Telling data target offset) :
    Telling data (pointer offset target) i := by
  obtain ⟨legible, marked, -⟩ := pointer_taken stands
  obtain far | near := Nat.lt_or_ge data.length (pointerTarget data i)
  · exact pointer_far stands far
  · refine ⟨fun left gives found place => ?_, fun labels left gives found => ?_,
      fun start gathered size left gives found => ?_⟩
    · obtain ⟨inner, nested, rfl⟩ := (gives_near legible marked near).mp gives
      exact pointer_whole stands there near nested found place
    · obtain ⟨inner, nested, rfl⟩ := (gives_near legible marked near).mp gives
      exact target_faithful stands there labels near nested found
    · obtain ⟨inner, nested, rfl⟩ := (gives_near legible marked near).mp gives
      have equal := Option.some.inj found
      refine pointer_behind stands there near nested ?_
      simpa [gather, tail, labels] using equal

end Telling

theorem Stands.telling {name : CompressedName} {i : Nat} (stands : name.Stands data i) :
    Telling data name i := by
  induction name generalizing i with
  | root => exact ⟨fun _ _ _ _ => trivial, fun _ _ _ _ => trivial, fun _ _ _ _ _ _ => trivial⟩
  | label bytes rest ih => exact .label stands (ih stands.2.2)
  | pointer offset target ih => exact .pointer stands (ih stands.2.2)

end CompressedName

/-- `get_name` finds a standing name, its size and its first label exactly when the name is
read faithfully. -/
theorem getName_expands_iff (data : List Byte) (name : CompressedName) (i : Nat)
    (stands : name.Stands data i) :
    Ends (fun fuel => getName data fuel i i none 0)
      (.value ⟨name.size, joined name.labels, name.first i⟩) ↔ name.Faithful data .whole :=
  ⟨fun gives => stands.telling.whole _ gives rfl rfl, stands.found.whole⟩

/-- "ns" behind a label, by a pointer to offset 2. -/
def nearPointer : List Byte := [0, 0, 2, 110, 115, 0, 1, 97, 0xC0, 2]

theorem nearPointer_expands : Ends (fun fuel => getName nearPointer fuel (6 : Nat) (6 : Nat) none 0)
    (.value ⟨4, some [97, 46, 110, 115], 6⟩) := by
  have stands : (CompressedName.label [97] (.pointer 2 (.label [110, 115] .root))).Stands nearPointer 6 :=
    ⟨by decide, ⟨[0xC0, 2], rfl⟩, by decide, ⟨[], rfl⟩, by decide, ⟨[0, 1, 97, 0xC0, 2], rfl⟩,
      ⟨[1, 97, 0xC0, 2], rfl⟩⟩
  exact (getName_expands_iff nearPointer _ 6 stands).mpr
    ⟨by decide, by decide, .inl ⟨by decide, trivial⟩⟩

/-- The name "a" at offset 256, and a pointer to it. -/
def farPointer : List Byte := List.replicate 256 0 ++ [1, 97, 0, 0xC1, 0]

theorem farPointer_misread : ¬∀ (data : List Byte) (name : CompressedName) (i : Nat), name.Stands data i →
    Ends (fun fuel => getName data fuel i i none 0)
      (.value ⟨name.size, joined name.labels, name.first i⟩) := by
  intro claim
  have stands : (CompressedName.pointer 256 (.label [97] .root)).Stands farPointer 259 :=
    ⟨by decide, ⟨[], by decide⟩, by decide, ⟨[0, 0xC1, 0], by decide⟩, ⟨[0xC1, 0], by decide⟩⟩
  have zero : octet farPointer (taken 256) = 0 := by decide
  have faithful := stands.telling.whole _ (claim farPointer _ 259 stands) rfl rfl
  have spells : Spells farPointer none (taken 256) (some [97]) := faithful.2.1
  cases spells with
  | alone _ pointer => exact pointer_nonzero pointer zero
  | label _ nonzero => exact nonzero zero

end Devent.Dns
