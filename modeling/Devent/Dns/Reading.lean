import Devent.Dns.Layout

/-! The reads of a message: each reader succeeds on its span and nowhere else. -/
namespace Devent.Dns
open Outcome

variable {data : List Byte}

theorem span_all (data : List Byte) : Span data 0 data.length := .inr ⟨Int.le_refl 0, by omega⟩

theorem byteAt_iff {i : Int} : byteAt data i = none ↔ ¬Span data i 1 := by
  by_cases nonneg : 0 ≤ i
  · simp only [byteAt, if_pos nonneg, List.getElem?_eq_none_iff, Span]
    omega
  · simp only [byteAt, if_neg nonneg, Span, true_iff]
    omega

theorem read_inside {i : Int} (inside : Span data i 1) : read data i = .value (octet data i) := by
  cases found : byteAt data i with
  | none => exact absurd inside (byteAt_iff.mp found)
  | some b => simp only [read, octet, found, Option.getD_some]

theorem read_outside {i : Int} (outside : ¬Span data i 1) : read data i = .fault i := by
  simp only [read, byteAt_iff.mpr outside]

theorem span_succ_iff {i : Int} {n : Nat} : Span data i (n + 1) ↔ Span data i 1 ∧ Span data (i + 1) n := by
  simp only [Span]
  omega

theorem readNtohs_inside {i : Int} (inside : Span data i 2) : readNtohs data i = .value (word data i) := by
  obtain ⟨first, second⟩ := span_succ_iff.mp inside
  simp only [readNtohs, read_inside first, read_inside second, value_bind, pure_eq, word]

theorem readNtohs_outside {i : Int} (outside : ¬Span data i 2) : ∃ e, readNtohs data i = .fault e := by
  by_cases first : Span data i 1
  · have second : ¬Span data (i + 1) 1 := fun second => outside (span_succ_iff.mpr ⟨first, second⟩)
    exact ⟨i + 1, by simp only [readNtohs, read_inside first, read_outside second, value_bind, fault_bind]⟩
  · exact ⟨i, by simp only [readNtohs, read_outside first, fault_bind]⟩

theorem readBytes_inside {i : Int} {n : Nat} (inside : Span data i n) :
    ∃ bytes, readBytes data i n = .value bytes := by
  induction n generalizing i with
  | zero => exact ⟨[], rfl⟩
  | succ n ih =>
    obtain ⟨first, later⟩ := span_succ_iff.mp inside
    obtain ⟨bytes, tail⟩ := ih later
    exact ⟨octet data i :: bytes, by simp only [readBytes, read_inside first, tail, value_bind, pure_eq]⟩

theorem readBytes_outside {i : Int} {n : Nat} (outside : ¬Span data i n) :
    ∃ e, readBytes data i n = .fault e := by
  induction n generalizing i with
  | zero => exact absurd (.inl rfl) outside
  | succ n ih =>
    by_cases first : Span data i 1
    · obtain ⟨e, tail⟩ := ih fun later => outside (span_succ_iff.mpr ⟨first, later⟩)
      exact ⟨e, by simp only [readBytes, read_inside first, tail, value_bind, fault_bind]⟩
    · exact ⟨i, by simp only [readBytes, read_outside first, fault_bind]⟩

theorem hexDump_inside {i : Int} {n : Nat} (inside : Span data i n) : hexDump data i n = .value () := by
  obtain ⟨bytes, copied⟩ := readBytes_inside inside
  simp only [hexDump, copied, value_bind, pure_eq]

theorem hexDump_outside {i : Int} {n : Nat} (outside : ¬Span data i n) :
    ∃ e, hexDump data i n = .fault e := by
  obtain ⟨e, copied⟩ := readBytes_outside outside
  exact ⟨e, by simp only [hexDump, copied, fault_bind]⟩

/-- `strndup` as a loop over the message. -/
theorem strndup_succ (i : Int) (n : Nat) : strndup data i (n + 1) = (do
    let b ← read data i
    if b = 0 then return [] else
      let more ← strndup data (i + 1) n
      return b :: more) := by
  by_cases nonneg : 0 ≤ i
  · have next : 0 ≤ i + 1 := by omega
    have index : (i + 1).toNat = i.toNat + 1 := by omega
    cases found : data[i.toNat]? with
    | none =>
      have ended : data.drop i.toNat = [] := List.drop_eq_nil_of_le (List.getElem?_eq_none_iff.mp found)
      simp only [strndup, if_pos nonneg, ended, copyString, read, byteAt, found, fault_bind]
    | some b =>
      obtain ⟨inside, rfl⟩ := List.getElem?_eq_some_iff.mp found
      simp only [strndup, if_pos nonneg, if_pos next, index, List.drop_eq_getElem_cons inside,
        copyString, read, byteAt, found, value_bind, pure_eq]
  · have outside : read data i = .fault i := by simp only [read, byteAt, if_neg nonneg]
    simp only [strndup, if_neg nonneg, outside, fault_bind, Nat.add_one_ne_zero, if_false]

theorem copies_succ_iff {i : Int} {n : Nat} :
    Copies data i (n + 1) ↔ Span data i 1 ∧ (octet data i = 0 ∨ Copies data (i + 1) n) := by
  constructor
  · rintro (whole | ⟨k, small, inside, zero⟩)
    · obtain ⟨first, later⟩ := span_succ_iff.mp whole
      exact ⟨first, .inr (.inl later)⟩
    · obtain ⟨first, later⟩ := span_succ_iff.mp inside
      cases k with
      | zero => exact ⟨first, .inl (by simpa using zero)⟩
      | succ k =>
        have same : i + 1 + (k : Int) = i + (k + 1 : Nat) := by omega
        exact ⟨first, .inr (.inr ⟨k, Nat.lt_of_succ_lt_succ small, later, same ▸ zero⟩)⟩
  · rintro ⟨first, zero | whole | ⟨k, small, inside, zero⟩⟩
    · exact .inr ⟨0, Nat.succ_pos n, first, by simpa using zero⟩
    · exact .inl (span_succ_iff.mpr ⟨first, whole⟩)
    · have same : i + 1 + (k : Int) = i + (k + 1 : Nat) := by omega
      exact .inr ⟨k + 1, Nat.succ_lt_succ small, span_succ_iff.mpr ⟨first, inside⟩, same ▸ zero⟩

theorem strndup_inside {i : Int} {n : Nat} (copies : Copies data i n) :
    ∃ text, strndup data i n = .value text := by
  induction n generalizing i with
  | zero =>
    refine ⟨[], ?_⟩
    by_cases nonneg : 0 ≤ i
    · simp only [strndup, if_pos nonneg, copyString]
    · simp only [strndup, if_neg nonneg, if_true]
  | succ n ih =>
    obtain ⟨first, rest⟩ := copies_succ_iff.mp copies
    by_cases zero : octet data i = 0
    · exact ⟨[], by simp only [strndup_succ, read_inside first, value_bind, if_pos zero, pure_eq]⟩
    · obtain ⟨text, tail⟩ := ih (rest.resolve_left zero)
      exact ⟨octet data i :: text, by
        simp only [strndup_succ, read_inside first, value_bind, if_neg zero, tail, pure_eq]⟩

theorem strndup_outside {i : Int} {n : Nat} (escapes : ¬Copies data i n) :
    ∃ e, strndup data i n = .fault e := by
  induction n generalizing i with
  | zero => exact absurd (.inl (.inl rfl)) escapes
  | succ n ih =>
    by_cases first : Span data i 1
    · have nonzero : octet data i ≠ 0 := fun zero => escapes (copies_succ_iff.mpr ⟨first, .inl zero⟩)
      obtain ⟨e, tail⟩ := ih fun rest => escapes (copies_succ_iff.mpr ⟨first, .inr rest⟩)
      exact ⟨e, by
        simp only [strndup_succ, read_inside first, value_bind, if_neg nonzero, tail, fault_bind]⟩
    · exact ⟨i, by simp only [strndup_succ, read_outside first, fault_bind]⟩

end Devent.Dns
