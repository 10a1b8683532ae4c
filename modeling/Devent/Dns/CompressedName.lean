import Devent.Dns.RoundTrip
import Devent.Dns.Containment

/-! Compressed names. RFC 1035 ends a name with a zero byte or with a pointer of fourteen
bits to an earlier name; `get_name` keeps two high bits of the pointer and shifts them by
four, so it follows an offset below 256 and takes any other one for a smaller. -/
namespace Devent.Dns
open Outcome

/-- A name as it is written: labels, then the root or a pointer to another name. -/
inductive CompressedName where
  | root
  | label (bytes : Text) (rest : CompressedName)
  | pointer (offset : Nat) (target : CompressedName)
  deriving DecidableEq

/-- The labels with dots between them; a name without labels is NULL. -/
def joined : List Text → Option Text
  | [] => none
  | first :: rest => some (first ++ rest.flatMap (dot :: ·))

namespace CompressedName

def labels : CompressedName → List Text
  | root => []
  | label bytes rest => bytes :: rest.labels
  | pointer _ target => target.labels

/-- The bytes the name occupies where it starts. -/
def size : CompressedName → Nat
  | root => 1
  | label bytes rest => bytes.length + 1 + rest.size
  | pointer _ _ => 2

/-- The offset of the first label, behind pointers. -/
def first (start : Nat) : CompressedName → Nat
  | root | label _ _ => start
  | pointer offset target => target.first offset

/-- The name stands in the message; each pointer leads to a name before it. -/
def Stands (data : List Byte) : CompressedName → Nat → Prop
  | root, i => At data i [0]
  | label bytes rest, i => (0 < bytes.length ∧ bytes.length < 64) ∧
      At data i (UInt8.ofNat bytes.length :: bytes) ∧ rest.Stands data (i + 1 + bytes.length)
  | pointer offset target, i => (offset < i ∧ offset < 2 ^ 14) ∧
      At data i (htons (192 * 256 + offset)) ∧ target.Stands data offset

instance decidableStands (data : List Byte) : (name : CompressedName) → (i : Nat) →
    Decidable (name.Stands data i)
  | root, i => inferInstanceAs (Decidable (At data i [0]))
  | label bytes rest, i => @instDecidableAnd _ _ _ (@instDecidableAnd _ _ _
      (decidableStands data rest (i + 1 + bytes.length)))
  | pointer offset target, _ => @instDecidableAnd _ _ _ (@instDecidableAnd _ _ _
      (decidableStands data target offset))

end CompressedName

/-- The offset for which a pointer is taken. -/
def taken (offset : Nat) : Nat := offset / 256 % 4 * 16 + offset % 256

section Layout

variable (data : List Byte)

/-- The text that the bytes from the cursor on add to what is gathered, for the pointers
that the code takes. A name behind a label is appended as it is printed. -/
inductive Spells : Option Text → Int → Option Text → Prop
  | root {text i} : Legible data i → octet data i = 0 → Spells text i text
  | far {text i} : Legible data i → IsPointer data i → data.length < pointerTarget data i → Spells text i none
  | alone {i left} : Legible data i → IsPointer data i → pointerTarget data i ≤ data.length →
      Spells none (pointerTarget data i) left → Spells none i left
  | behind {gathered i left} : Legible data i → IsPointer data i → pointerTarget data i ≤ data.length →
      Spells none (pointerTarget data i) left →
      Spells (some gathered) i (some (gather (some gathered) (left.getD nullText)))
  | label {text i copied result} : Legible data i → octet data i ≠ 0 → ¬IsPointer data i →
      strndup data (i + 1) (sizeT (signedChar (octet data i))) = .value copied →
      Spells (some (gather text copied)) (i + labelStep data i) result → Spells text i result

/-- Where the name at `i` starts once the pointers in front of it are followed. -/
inductive Lands : Int → Int → Prop
  | here {i} : ¬(IsPointer data i ∧ pointerTarget data i ≤ data.length) → Lands i i
  | through {i j} : IsPointer data i → pointerTarget data i ≤ data.length →
      Lands (pointerTarget data i) j → Lands i j

end Layout

/-- What is asked of a name: its own text and first label, its text alone, or the text
that is appended behind a label. -/
inductive Reading where
  | whole
  | text
  | behind
  deriving DecidableEq

namespace CompressedName

/-- The name is found although pointers are misread: labels have no zero byte, no pointer
behind a label leads to the root, and each pointer is below 256 or happens to be taken for
a place that spells the same. (Behind a label, NULL spells "(null)".) -/
def Faithful (data : List Byte) : Reading → CompressedName → Prop
  | _, root => True
  | _, label bytes rest => 0 ∉ bytes ∧ rest.Faithful data .behind
  | .whole, pointer offset target =>
    if offset < 256 then target.Faithful data .whole
    else taken offset ≤ data.length ∧ Spells data none (taken offset) (joined target.labels) ∧
      Lands data (taken offset) (target.first offset)
  | .text, pointer offset target =>
    if offset < 256 then target.Faithful data .text
    else taken offset ≤ data.length ∧ Spells data none (taken offset) (joined target.labels)
  | .behind, pointer offset target => target.labels ≠ [] ∧
      ((if offset < 256 then target.Faithful data .text
        else taken offset ≤ data.length ∧ Spells data none (taken offset) (joined target.labels)) ∨
        target.labels = [nullText] ∧ taken offset ≤ data.length ∧ Spells data none (taken offset) none)

end CompressedName

variable {data : List Byte}

/-- `get_name` returns this name. -/
def Gives (data : List Byte) (offset i : Int) (text : Option Text) (size : Int) (name : Name) : Prop :=
  Ends (fun fuel => getName data fuel offset i text size) (.value name)

/-- What is made of the name behind a pointer. -/
def append (offset : Int) (text : Option Text) (size : Int) (left : Name) : Name :=
  match text with
  | none => ⟨size + 2, left.text, left.offset⟩
  | some gathered => ⟨size + 2, some (gather (some gathered) (left.text.getD nullText)), offset⟩

section Rounds

variable {offset i size : Int} {text : Option Text} {name : Name}

theorem gives_root (legible : Legible data i) (root : octet data i = 0) :
    Gives data offset i text size name ↔ name = ⟨size + 1, text, offset⟩ := by
  refine (ends_succ_iff fun _ => getName_root legible root).trans ?_
  rw [ends_const_iff, value.injEq, eq_comm]

theorem gives_far (legible : Legible data i) (pointer : IsPointer data i)
    (far : data.length < pointerTarget data i) :
    Gives data offset i text size name ↔ name = ⟨-1, none, offset⟩ := by
  refine (ends_succ_iff fun _ => getName_far legible pointer far).trans ?_
  rw [ends_const_iff, value.injEq, eq_comm]

theorem gives_near (legible : Legible data i) (pointer : IsPointer data i)
    (near : pointerTarget data i ≤ data.length) :
    Gives data offset i text size name ↔
      ∃ left, Gives data (pointerTarget data i) (pointerTarget data i) none 0 left ∧
        name = append offset text size left := by
  have marked : octet data i >>> 6 = 3 := pointer
  have within : ¬data.length < pointerTarget data i := Nat.not_lt.mpr near
  have round : ∀ fuel, getName data (fuel + 1) offset i text size =
      getName data fuel (pointerTarget data i) (pointerTarget data i) none 0 >>= fun left =>
        return append offset text size left := by
    intro fuel
    simp only [pointerTarget] at within ⊢
    cases text <;>
      simp only [getName, read_inside legible.inside, value_bind, if_neg (pointer_nonzero pointer),
        if_pos marked, read_inside (legible.pointer pointer), gt_iff_lt, if_neg within, append]
  refine (ends_succ_iff round).trans ?_
  refine ((getName_stable data _ _ none 0).ends_value_iff fun _ => stable_const _).trans ?_
  simp only [pure_eq, ends_const_iff, value.injEq, eq_comm, Gives]

theorem gives_label {label : Text} (legible : Legible data i) (root : octet data i ≠ 0)
    (plain : ¬IsPointer data i)
    (copied : strndup data (i + 1) (sizeT (signedChar (octet data i))) = .value label) :
    Gives data offset i text size name ↔
      Gives data offset (i + labelStep data i) (some (gather text label)) (size + labelStep data i) name := by
  have unmarked : ¬octet data i >>> 6 = 3 := plain
  refine ends_succ_iff fun fuel => ?_
  simp only [getName, read_inside legible.inside, value_bind, if_neg root, if_neg unmarked, copied,
    labelStep]

/-- What a cursor may lead to, with the label it copies. -/
theorem round_cases (data : List Byte) (i : Int) : ¬Legible data i ∨ Legible data i ∧
    (octet data i = 0 ∨ (IsPointer data i ∧ data.length < pointerTarget data i) ∨
      (IsPointer data i ∧ pointerTarget data i ≤ data.length) ∨
      (octet data i ≠ 0 ∧ ¬IsPointer data i ∧
        ∃ label, strndup data (i + 1) (sizeT (signedChar (octet data i))) = .value label)) := by
  by_cases legible : Legible data i
  · obtain root | far | near | ⟨root, plain⟩ := cursor_cases data i
    · exact .inr ⟨legible, .inl root⟩
    · exact .inr ⟨legible, .inr (.inl far)⟩
    · exact .inr ⟨legible, .inr (.inr (.inl near))⟩
    · exact .inr ⟨legible, .inr (.inr (.inr ⟨root, plain, strndup_inside (legible.label root plain)⟩))⟩
  · exact .inl legible

/-- Induction over the rounds that lead to a returned name. -/
theorem Gives.induction {motive : Int → Int → Option Text → Int → Name → Prop}
    (root : ∀ {offset i text size}, Legible data i → octet data i = 0 →
      motive offset i text size ⟨size + 1, text, offset⟩)
    (far : ∀ {offset i text size}, Legible data i → IsPointer data i → data.length < pointerTarget data i →
      motive offset i text size ⟨-1, none, offset⟩)
    (near : ∀ {offset i text size left}, Legible data i → IsPointer data i →
      pointerTarget data i ≤ data.length → motive (pointerTarget data i) (pointerTarget data i) none 0 left →
      motive offset i text size (append offset text size left))
    (label : ∀ {offset i text size copied name}, Legible data i → octet data i ≠ 0 → ¬IsPointer data i →
      strndup data (i + 1) (sizeT (signedChar (octet data i))) = .value copied →
      motive offset (i + labelStep data i) (some (gather text copied)) (size + labelStep data i) name →
      motive offset i text size name)
    (gives : Gives data offset i text size name) : motive offset i text size name := by
  obtain ⟨fuel, value⟩ := ((getName_stable data offset i text size).ends_iff (by simp)).mp gives
  induction fuel generalizing offset i text size name with
  | zero => cases value
  | succ fuel ih =>
    obtain illegible | ⟨legible, zero | ⟨pointer, beyond⟩ | ⟨pointer, within⟩ |
        ⟨nonzero, plain, copied, copy⟩⟩ :=
      round_cases data i
    · obtain ⟨e, round⟩ := getName_illegible offset text size illegible
      cases (round fuel).symm.trans value
    · obtain rfl := (gives_root legible zero).mp gives
      exact root legible zero
    · obtain rfl := (gives_far legible pointer beyond).mp gives
      exact far legible pointer beyond
    · obtain ⟨left, inner, rfl⟩ := (gives_near legible pointer within).mp gives
      refine near legible pointer within (ih inner ?_)
      obtain ⟨finish, -, round⟩ := getName_near offset text size legible pointer within
      obtain ⟨left', nested, -⟩ := bind_value_iff.mp ((round fuel).symm.trans value)
      have stable := getName_stable data (pointerTarget data i) (pointerTarget data i) none 0
      obtain ⟨N, reached⟩ := inner
      have late := stable fuel (max N fuel) (Nat.le_max_right N fuel) (by simp [nested])
      have there := reached (max N fuel) (Nat.le_max_left N fuel)
      simp only at late there
      rw [← late, there]
    · have later := (gives_label legible nonzero plain copy).mp gives
      have unmarked : ¬octet data i >>> 6 = 3 := plain
      refine label legible nonzero plain copy (ih later ?_)
      simpa only [getName, read_inside legible.inside, value_bind, if_neg nonzero, if_neg unmarked, copy,
        labelStep] using value

theorem Gives.spells (gives : Gives data offset i text size name) : Spells data text i name.text := by
  refine Gives.induction (motive := fun _ i text _ name => Spells data text i name.text)
    ?_ ?_ ?_ ?_ gives
  · exact fun legible root => .root legible root
  · exact fun legible pointer far => .far legible pointer far
  · intro offset i text size left legible pointer near inner
    cases text with
    | none => exact .alone legible pointer near inner
    | some gathered => exact .behind legible pointer near inner
  · exact fun legible root plain copied inner => .label legible root plain copied inner

theorem Spells.gives {result : Option Text} (spells : Spells data text i result) (offset size : Int) :
    ∃ name, Gives data offset i text size name ∧ name.text = result := by
  induction spells generalizing offset size with
  | root legible root => exact ⟨_, (gives_root legible root).mpr rfl, rfl⟩
  | far legible pointer far => exact ⟨_, (gives_far legible pointer far).mpr rfl, rfl⟩
  | @alone i left legible pointer near _ ih =>
    obtain ⟨inner, nested, rfl⟩ := ih (pointerTarget data i) 0
    exact ⟨_, (gives_near legible pointer near).mpr ⟨inner, nested, rfl⟩, rfl⟩
  | @behind gathered i left legible pointer near _ ih =>
    obtain ⟨inner, nested, rfl⟩ := ih (pointerTarget data i) 0
    exact ⟨_, (gives_near legible pointer near).mpr ⟨inner, nested, rfl⟩, rfl⟩
  | label legible root plain copied _ ih =>
    obtain ⟨name, later, same⟩ := ih offset (size + labelStep data _)
    exact ⟨name, (gives_label legible root plain copied).mpr later, same⟩

/-- Behind a label the offset is known; before one it is where the name lands. -/
theorem Gives.offset_cases (gives : Gives data offset i text size name) :
    (text ≠ none → name.offset = offset) ∧ (text = none → offset = i → Lands data i name.offset) := by
  refine Gives.induction (motive := fun offset i text _ name => (text ≠ none → name.offset = offset) ∧
    (text = none → offset = i → Lands data i name.offset)) ?_ ?_ ?_ ?_ gives
  · intro offset i text size _ root
    refine ⟨fun _ => rfl, ?_⟩
    rintro - rfl
    exact .here fun pointer => pointer_nonzero pointer.1 root
  · intro offset i text size _ _ far
    refine ⟨fun _ => rfl, ?_⟩
    rintro - rfl
    exact .here fun pointer => Nat.not_le.mpr far pointer.2
  · intro offset i text size left _ pointer near inner
    cases text with
    | none => exact ⟨fun behind => absurd rfl behind, fun _ _ => .through pointer near (inner.2 rfl rfl)⟩
    | some gathered => exact ⟨fun _ => rfl, fun none => nomatch none⟩
  · intro offset i text size copied name _ _ plain _ inner
    have known := inner.1 (by simp)
    refine ⟨fun _ => known, ?_⟩
    rintro - rfl
    rw [known]
    exact .here fun pointer => plain pointer.1

theorem Lands.unique {j j' : Int} (lands : Lands data i j) (lands' : Lands data i j') : j = j' := by
  induction lands with
  | here last =>
    cases lands' with
    | here => rfl
    | through pointer near => exact absurd ⟨pointer, near⟩ last
  | through pointer near _ ih =>
    cases lands' with
    | here last => exact absurd ⟨pointer, near⟩ last
    | through _ _ rest => exact ih rest

/-- Behind a label the text only grows, by a dot and more, or it is given up. -/
theorem Gives.text_cases {gathered : Text} (gives : Gives data offset i (some gathered) size name) :
    name.text = none ∨ ∃ more, name.text = some (gathered ++ more) ∧
      (more = [] ∨ ∃ rest, more = dot :: rest) := by
  refine Gives.induction (motive := fun _ _ text _ name => ∀ gathered, text = some gathered →
    name.text = none ∨ ∃ more, name.text = some (gathered ++ more) ∧ (more = [] ∨ ∃ rest, more = dot :: rest))
    ?_ ?_ ?_ ?_ gives gathered rfl
  · rintro offset i text size - - gathered rfl
    exact .inr ⟨[], by rw [List.append_nil], .inl rfl⟩
  · exact fun _ _ _ _ _ => .inl rfl
  · rintro offset i text size left - - - - gathered rfl
    exact .inr ⟨dot :: left.text.getD nullText, rfl, .inr ⟨_, rfl⟩⟩
  · rintro offset i text size copied name - - - - inner gathered rfl
    obtain none | ⟨more, grown, -⟩ := inner _ rfl
    · exact .inl none
    · refine .inr ⟨dot :: copied ++ more, ?_, .inr ⟨copied ++ more, rfl⟩⟩
      rw [grown]
      simp only [gather, List.append_assoc]

end Rounds

end Devent.Dns
