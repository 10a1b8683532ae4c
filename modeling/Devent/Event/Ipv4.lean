import Devent.Dlib.Digits
import Devent.Event.Tls

/-! Which texts `devent_parse_ipv4` takes for an address. strtol passes over blanks and a sign,
the dot behind a number may be missing, and nothing looks at what is behind the fourth. -/
namespace Devent

/-- Four numbers in 0..255 with single dots between them, and what they are. -/
def DottedQuad (s octets : List Byte) : Prop :=
  ∃ numbers : List (List Byte), numbers.length = 4 ∧
    (∀ number ∈ numbers, IsDecimal number ∧ decimalValue number ≤ 255) ∧
    s = [46].intercalate numbers ∧ octets = numbers.map fun number => UInt8.ofNat (decimalValue number)

def afterDot (rest : List Byte) : List Byte := if rest.head? = some 46 then rest.tail else rest

/-- So many numbers one after the other as strtol reads them, with or without a dot behind each. -/
inductive Loose : Nat → List Byte → List Byte → Prop
  | done (s : List Byte) : Loose 0 s []
  | number {count : Nat} {s blanks digits rest octets : List Byte} {sign : Sign}
      (numeral : Numeral s blanks sign digits rest) (small : decimalValue digits ≤ 255)
      (natural : sign = .minus → decimalValue digits = 0) (more : Loose count (afterDot rest) octets) :
      Loose (count + 1) s (UInt8.ofNat (decimalValue digits) :: octets)

/-- The text begins with four such numbers. -/
def LooseQuad (s : List Byte) : Prop := ∃ octets, Loose 4 s octets

variable {count : Nat} {s octets : List Byte}

/-- A signed number that is a byte. -/
theorem clip_octet_iff (sign : Sign) (n : Nat) :
    ((sign.clip n).2 = false ∧ 0 ≤ (sign.clip n).1 ∧ (sign.clip n).1 ≤ 255) ↔
      n ≤ 255 ∧ (sign = .minus → n = 0) := by
  cases sign with
  | none | plus =>
    simp only [Sign.clip]
    split
    · simp only [true_and, reduceCtorEq, false_implies, and_true]
      omega
    · simp only [reduceCtorEq, false_and, false_implies, and_true, false_iff, Bool.true_eq_false]
      omega
  | minus =>
    simp only [Sign.clip]
    split
    · simp only [true_and, true_implies]
      omega
    · simp only [Bool.true_eq_false, false_and, false_iff, true_implies]
      omega

theorem clip_octet {sign : Sign} {n : Nat} (small : n ≤ 255) (natural : sign = .minus → n = 0) :
    (sign.clip n).1.toNat = n := by
  cases sign with
  | none | plus =>
    have fits : n < 2 ^ 63 := by omega
    simp only [Sign.clip, if_pos fits, Int.toNat_natCast]
  | minus =>
    obtain rfl := natural rfl
    rfl

/-- One round of `devent_parse_ipv4`, at a number. -/
theorem deventParseIpv4_numeral {blanks digits rest : List Byte} {sign : Sign} (einval : Bool)
    (numeral : Numeral s blanks sign digits rest) : deventParseIpv4 einval (count + 1) s =
      if decimalValue digits ≤ 255 ∧ (sign = .minus → decimalValue digits = 0) then
        (deventParseIpv4 einval count (afterDot rest)).map (UInt8.ofNat (decimalValue digits) :: ·)
      else none := by
  simp only [deventParseIpv4, strtol_numeral einval numeral, clip_octet_iff]
  split
  · rename_i octet
    rw [clip_octet octet.1 octet.2]
    rfl
  · rfl

/-- `devent_parse_ipv4` accepts the loose form. -/
theorem deventParseIpv4_iff : deventParseIpv4 true count s = some octets ↔ Loose count s octets := by
  induction count generalizing s octets with
  | zero =>
    constructor
    · intro read
      cases read
      exact .done s
    · rintro ⟨⟩
      rfl
  | succ count ih =>
    constructor
    · intro read
      by_cases found : ∃ blanks sign digits rest, Numeral s blanks sign digits rest
      · obtain ⟨blanks, sign, digits, rest, numeral⟩ := found
        rw [deventParseIpv4_numeral true numeral] at read
        split at read
        · rename_i octet
          obtain ⟨octets, more, rfl⟩ := Option.map_eq_some_iff.mp read
          exact .number numeral octet.1 octet.2 (ih.mp more)
        · cases read
      · simp only [not_exists] at found
        simp [deventParseIpv4, strtol_none true found] at read
    · intro loose
      cases loose with
      | number numeral small natural more =>
        rw [deventParseIpv4_numeral true numeral, if_pos ⟨small, natural⟩, ih.mpr more]
        rfl

theorem noDigit_dot (rest : List Byte) : NoDigit 10 (46 :: rest) := by
  rintro _ ⟨⟩
  rfl

/-- Numbers with single dots between them are loose. -/
theorem loose_of_dotted {numbers : List (List Byte)}
    (small : ∀ number ∈ numbers, IsDecimal number ∧ decimalValue number ≤ 255) :
    Loose numbers.length ([46].intercalate numbers) (numbers.map fun number => UInt8.ofNat (decimalValue number)) := by
  induction numbers with
  | nil => exact .done _
  | cons number numbers ih =>
    obtain ⟨decimal, bound⟩ := small number List.mem_cons_self
    have later := ih fun other member => small other (List.mem_cons_of_mem _ member)
    have natural : Sign.none = .minus → decimalValue number = 0 := by
      intro minus
      cases minus
    cases numbers with
    | nil =>
      have whole : [46].intercalate [number] = number ++ [] := by simp [List.intercalate]
      rw [whole]
      exact .number (.of_decimal decimal (noDigit_nil 10)) bound natural later
    | cons next numbers =>
      have whole : [46].intercalate (number :: next :: numbers) =
          number ++ 46 :: [46].intercalate (next :: numbers) := by simp [List.intercalate]
      rw [whole]
      exact .number (.of_decimal decimal (noDigit_dot _)) bound natural later

theorem DottedQuad.loose (quad : DottedQuad s octets) : Loose 4 s octets := by
  obtain ⟨numbers, four, small, rfl, rfl⟩ := quad
  exact four ▸ loose_of_dotted small

/-- `devent_parse_ipv4` takes exactly the dotted quads, with their octets, of the texts that do
not begin with four numbers in another form. -/
theorem parse_ipv4_quad_iff (s : CString) :
    (∀ octets, deventParseIpv4 true 4 s.bytes = some octets ↔ DottedQuad s.bytes octets) ↔
      (LooseQuad s.bytes → ∃ octets, DottedQuad s.bytes octets) := by
  constructor
  · rintro exact ⟨octets, loose⟩
    exact ⟨octets, (exact octets).mp (deventParseIpv4_iff.mpr loose)⟩
  · intro strict octets
    constructor
    · intro read
      obtain ⟨octets', quad⟩ := strict ⟨octets, deventParseIpv4_iff.mp read⟩
      have same := read.symm.trans (deventParseIpv4_iff.mpr quad.loose)
      exact Option.some.inj same ▸ quad
    · exact fun quad => deventParseIpv4_iff.mpr quad.loose

/-- "1.2.3.4.5". -/
def fiveNumbers : CString := ⟨[49, 46, 50, 46, 51, 46, 52, 46, 53], by decide⟩

theorem count_dots (quad : DottedQuad s octets) : s.count 46 = 3 := by
  obtain ⟨numbers, four, small, rfl, -⟩ := quad
  have dotless : ∀ number ∈ numbers, List.count 46 number = 0 := by
    intro number member
    rw [List.count_eq_zero]
    intro dot
    exact absurd ((small number member).1.2 46 dot).1 (by decide)
  obtain ⟨a, b, c, d, rfl⟩ : ∃ a b c d, numbers = [a, b, c, d] := List.length_eq_four.mp four
  simp [List.intercalate, dotless]

theorem fifth_number_accepted :
    ¬∀ octets, deventParseIpv4 true 4 fiveNumbers.bytes = some octets ↔ DottedQuad fiveNumbers.bytes octets := by
  intro claim
  have dots := count_dots ((claim [1, 2, 3, 4]).mp (by decide))
  exact absurd dots (by decide)

end Devent
