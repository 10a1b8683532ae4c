import Devent.Dns.Message
import Mathlib.Data.List.TakeDrop

/-! Segments of a message. A reader that starts at a known segment returns its
bytes; a write replaces one segment by another of its length. -/
namespace Devent.Dns
open Outcome

/-- The segment stands at index `i`. -/
def At (data : List Byte) (i : Nat) (segment : List Byte) : Prop :=
  ∃ rest, data.drop i = segment ++ rest

instance (data : List Byte) (i : Nat) (segment : List Byte) : Decidable (At data i segment) :=
  decidable_of_iff (segment <+: data.drop i) (exists_congr fun _ => eq_comm)

variable {data segment segment' : List Byte} {i : Nat}

theorem at_whole (data : List Byte) : At data 0 data := ⟨[], (List.append_nil data).symm⟩

theorem at_append_iff : At data i (segment ++ segment') ↔
    At data i segment ∧ At data (i + segment.length) segment' := by
  constructor
  · rintro ⟨rest, whole⟩
    refine ⟨⟨segment' ++ rest, whole.trans (List.append_assoc ..)⟩, rest, ?_⟩
    rw [← List.drop_drop, whole, List.append_assoc, List.drop_left]
  · rintro ⟨⟨rest, first⟩, rest', second⟩
    refine ⟨rest', ?_⟩
    rw [← List.drop_drop, first, List.drop_left] at second
    rw [first, second, List.append_assoc]

theorem at_cons_iff {b : Byte} : At data i (b :: segment) ↔ At data i [b] ∧ At data (i + 1) segment := by
  have split : At data i ([b] ++ segment) ↔ _ := at_append_iff
  exact split

theorem At.unique (here : At data i segment) (here' : At data i segment')
    (width : segment.length = segment'.length) : segment = segment' := by
  obtain ⟨rest, whole⟩ := here
  obtain ⟨rest', whole'⟩ := here'
  exact (List.append_inj (whole.symm.trans whole') width).1

theorem At.le_length (here : At data i segment) (nonempty : segment ≠ []) :
    i + segment.length ≤ data.length := by
  obtain ⟨rest, whole⟩ := here
  have lengths := congrArg List.length whole
  simp only [List.length_drop, List.length_append] at lengths
  have positive := List.length_pos_iff.mpr nonempty
  omega

theorem At.read {b : Byte} (here : At data i (b :: segment)) : read data i = .value b := by
  obtain ⟨rest, whole⟩ := here
  have first : data[i]? = some b := by
    rw [← List.head?_drop, whole]
    rfl
  have positive : 0 ≤ (i : Int) := Int.natCast_nonneg i
  simp only [Dns.read, byteAt, if_pos positive, Int.toNat_natCast, first]

theorem At.readBytes (here : At data i segment) :
    readBytes data i segment.length = .value segment := by
  induction segment generalizing i with
  | nil => rfl
  | cons b segment ih =>
    obtain ⟨first, later⟩ := at_cons_iff.mp here
    have tail := ih later
    simp only [Nat.cast_add, Nat.cast_one] at tail
    simp only [List.length_cons, Dns.readBytes, first.read, value_bind, tail, pure_eq]

theorem At.hexDump (here : At data i segment) : hexDump data i segment.length = .value () := by
  simp only [Dns.hexDump, here.readBytes, value_bind, pure_eq]

theorem htons_value {n : Nat} (small : n < 2 ^ 16) :
    (UInt8.ofNat (n / 256)).toNat * 256 + (UInt8.ofNat n).toNat = n := by
  simp only [UInt8.toNat_ofNat']
  omega

theorem At.readNtohs {n : Nat} (small : n < 2 ^ 16) (here : At data i (htons n)) :
    readNtohs data i = .value n := by
  obtain ⟨high, low⟩ := at_cons_iff.mp here
  have second := low.read
  simp only [Nat.cast_add, Nat.cast_one] at second
  simp only [Dns.readNtohs, high.read, value_bind, second, pure_eq, htons_value small]

theorem copyString_takeWhile (segment rest : List Byte) (i : Int) :
    copyString (segment ++ rest) i segment.length = .value (segment.takeWhile (· ≠ 0)) := by
  induction segment generalizing i with
  | nil => cases rest <;> rfl
  | cons b segment ih =>
    have tail := ih (i + 1)
    by_cases zero : b = 0
    · have stops : ¬decide (b ≠ 0) = true := by simpa using zero
      simp only [List.cons_append, List.length_cons, copyString, if_pos zero,
        List.takeWhile_cons_of_neg (p := fun c : Byte => decide (c ≠ 0)) stops]
    · have goes : decide (b ≠ 0) = true := decide_eq_true zero
      simp only [List.cons_append, List.length_cons, copyString, if_neg zero, tail, value_bind, pure_eq,
        List.takeWhile_cons_of_pos (p := fun c : Byte => decide (c ≠ 0)) goes]

/-- What strndup copies of a segment. -/
theorem At.strndup_takeWhile (here : At data i segment) :
    Dns.strndup data i segment.length = .value (segment.takeWhile (· ≠ 0)) := by
  obtain ⟨rest, whole⟩ := here
  have positive : 0 ≤ (i : Int) := Int.natCast_nonneg i
  simp only [Dns.strndup, if_pos positive, Int.toNat_natCast, whole, copyString_takeWhile]

theorem At.strndup (clean : 0 ∉ segment) (here : At data i segment) :
    strndup data i segment.length = .value segment := by
  have whole : segment.takeWhile (· ≠ 0) = segment := by
    rw [List.takeWhile_eq_self_iff]
    intro b member
    exact decide_eq_true fun zero => clean (zero ▸ member)
  rw [here.strndup_takeWhile, whole]

/-- A write replaces a segment by another of its length. -/
theorem writeBytes_eq (before old bytes rest : List Byte) {i : Int}
    (place : i = before.length) (same : old.length = bytes.length) :
    writeBytes (before ++ (old ++ rest)) i bytes = .value (before ++ (bytes ++ rest)) := by
  subst place
  have positive : ¬((before.length : Int) < 0) := by omega
  have room : before.length + old.length ≤ (before ++ (old ++ rest)).length := by
    simp only [List.length_append]
    omega
  simp only [writeBytes, if_neg positive, Int.toNat_natCast, ← same, if_pos room, List.take_left,
    ← List.drop_drop, List.drop_left]

end Devent.Dns
