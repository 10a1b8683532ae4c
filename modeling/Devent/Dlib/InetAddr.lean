import Devent.Dlib.Digits

/-! inet_addr at numbers with single dots between them. A zero in front makes a number octal, so
a number is read as the one it writes where it has no such zero, and below eight. -/
namespace Devent

/-- inet_addr takes the number for the one it writes. -/
def InetExact (number : List Byte) : Prop := number.head? = some 48 → decimalValue number < 8

/-- inet_addr takes all digits of the number. -/
def InetWhole (number : List Byte) : Prop := number.head? = some 48 → AllDigits 8 number

/-- What inet_addr makes of a number, if it takes all digits. -/
def inetReading (number : List Byte) : Nat :=
  if number.head? = some 48 then digitsFrom 8 8 0 number else decimalValue number

/-- Nothing comes next, or a dot. -/
def AtDot (rest : List Byte) : Prop := ∀ b ∈ rest.head?, b = 46

variable {s number rest : List Byte} {numbers : List (List Byte)} {value value' : Nat} {b : Byte}

theorem atDot_nil : AtDot [] := by
  rintro _ ⟨⟩

theorem atDot_cons (rest : List Byte) : AtDot (46 :: rest) := by
  rintro _ ⟨⟩
  rfl

theorem AtDot.noDigit {limit : Nat} (stop : AtDot rest) (narrow : limit ≤ 10) : NoDigit limit rest := by
  intro b head
  obtain rfl := stop b head
  rw [digitValue_eq narrow]
  exact if_neg (by simp)

theorem le_foldl_digits (value : Nat) (s : List Byte) :
    value ≤ s.foldl (fun value b => 10 * value + (b.toNat - 48)) value := by
  induction s generalizing value with
  | nil => exact Nat.le_refl value
  | cons b s ih =>
    have later := ih (10 * value + (b.toNat - 48))
    rw [List.foldl_cons]
    omega

theorem foldl_octal_lt (less : value < value') (s : List Byte) :
    s.foldl (fun value b => 8 * value + (b.toNat - 48)) value <
      s.foldl (fun value b => 10 * value + (b.toNat - 48)) value' := by
  induction s generalizing value value' with
  | nil => exact less
  | cons b s ih =>
    have next : 8 * value + (b.toNat - 48) < 10 * value' + (b.toNat - 48) := by omega
    exact ih next

/-- As octal digits, digits make the same number below eight, and a smaller one from there. -/
theorem foldl_octal_cases (small : value < 8) (all : AllDigits 8 s) :
    s.foldl (fun value b => 8 * value + (b.toNat - 48)) value =
        s.foldl (fun value b => 10 * value + (b.toNat - 48)) value ∧
      s.foldl (fun value b => 10 * value + (b.toNat - 48)) value < 8 ∨
    s.foldl (fun value b => 8 * value + (b.toNat - 48)) value <
        s.foldl (fun value b => 10 * value + (b.toNat - 48)) value ∧
      8 ≤ s.foldl (fun value b => 10 * value + (b.toNat - 48)) value := by
  induction s generalizing value with
  | nil => exact .inl ⟨rfl, small⟩
  | cons b s ih =>
    have digit := (isSome_digitValue_iff (by decide)).mp (all b List.mem_cons_self)
    simp only [List.foldl_cons]
    by_cases zero : value = 0
    · subst zero
      exact ih (by omega) fun b member => all b (List.mem_cons_of_mem _ member)
    · have large := le_foldl_digits (10 * value + (b.toNat - 48)) s
      exact .inr ⟨foldl_octal_lt (by omega) s, by omega⟩

theorem digit_le_decimalValue (member : b ∈ s) : b.toNat - 48 ≤ decimalValue s := by
  obtain ⟨front, behind, rfl⟩ := List.append_of_mem member
  have large := le_foldl_digits (10 * decimalValue front + (b.toNat - 48)) behind
  rw [decimalValue, List.foldl_append, List.foldl_cons]
  exact Nat.le_trans (Nat.le_add_left _ _) large

theorem InetExact.whole (exact : InetExact number) (decimal : IsDecimal number) : InetWhole number := by
  intro zero b member
  have small := exact zero
  have bound := digit_le_decimalValue member
  have digit := (isSome_digitValue_iff (Nat.le_refl 10)).mp (decimal.all b member)
  rw [isSome_digitValue_iff (by decide)]
  omega

theorem inetReading_cases (whole : InetWhole number) :
    inetReading number = decimalValue number ∧ InetExact number ∨
      inetReading number < decimalValue number ∧ ¬InetExact number := by
  rw [inetReading, InetExact]
  by_cases zero : number.head? = some 48
  · rw [if_pos zero, digitsFrom_eq (by decide) 0 (whole zero)]
    have small : 0 < 8 := by decide
    obtain ⟨same, small⟩ | ⟨less, large⟩ := foldl_octal_cases small (whole zero)
    · exact .inl ⟨same, fun _ => small⟩
    · exact .inr ⟨less, fun exact => Nat.not_lt.mpr large (exact zero)⟩
  · rw [if_neg zero]
    exact .inl ⟨rfl, fun there => absurd there zero⟩

theorem inetReading_eq_iff (whole : InetWhole number) :
    inetReading number = decimalValue number ↔ InetExact number := by
  obtain ⟨same, exact⟩ | ⟨less, broken⟩ := inetReading_cases whole
  · exact iff_of_true same exact
  · exact iff_of_false (Nat.ne_of_lt less) broken

theorem inetReading_le (whole : InetWhole number) : inetReading number ≤ decimalValue number := by
  obtain ⟨same, -⟩ | ⟨less, -⟩ := inetReading_cases whole
  · exact Nat.le_of_eq same
  · exact Nat.le_of_lt less

theorem inetNumber_eq (decimal : IsDecimal number) (stop : AtDot rest) : inetNumber (number ++ rest) =
    some (if number.head? = some 48 then scanDigits 8 8 0 (number ++ rest) else (decimalValue number, rest)) := by
  have scanned := decimal.scan (stop.noDigit (Nat.le_refl 10))
  obtain ⟨first, others, rfl⟩ := List.exists_cons_of_ne_nil decimal.1
  obtain ⟨digit, here⟩ := Option.isSome_iff_exists.mp (decimal.all first List.mem_cons_self)
  have second : ¬((others ++ rest)[0]? = some 120 ∨ (others ++ rest)[0]? = some 88) := by
    rw [← List.head?_eq_getElem?]
    cases others with
    | nil =>
      rintro (x | x) <;> cases stop _ x
    | cons second others =>
      have later := decimal.2 second (by simp)
      rintro (x | x) <;> obtain rfl := Option.some.inj x
      · exact absurd later.2 (by decide)
      · exact absurd later.2 (by decide)
  rw [List.cons_append] at scanned ⊢
  simp only [inetNumber, List.head?_cons, Option.bind_some, here, Option.isNone_some, List.getElem?_cons_succ,
    second, false_and, if_false, scanned, Bool.false_eq_true]
  by_cases zero : first = 48
  · simp [zero]
  · simp [zero]

theorem inetNumber_whole (decimal : IsDecimal number) (whole : InetWhole number) (stop : AtDot rest) :
    inetNumber (number ++ rest) = some (inetReading number, rest) := by
  rw [inetNumber_eq decimal stop, inetReading]
  by_cases zero : number.head? = some 48
  · rw [if_pos zero, if_pos zero, scanDigits_append 0 (whole zero) (stop.noDigit (by decide))]
  · rw [if_neg zero, if_neg zero]

/-- Behind a zero, an eight or a nine is left. -/
theorem inetNumber_broken (decimal : IsDecimal number) (part : ¬InetWhole number) (stop : AtDot rest) :
    ∃ value b behind, inetNumber (number ++ rest) = some (value, b :: behind) ∧ 48 ≤ b ∧ b ≤ 57 := by
  have zero : number.head? = some 48 := by
    by_contra other
    exact part fun there => absurd there other
  have more : ¬AllDigits 8 number := fun all => part fun _ => all
  obtain ⟨digits, left, rfl, all, behind⟩ := exists_digits 8 number
  cases left with
  | nil =>
    rw [List.append_nil] at more
    exact absurd all more
  | cons b left =>
    have apart : NoDigit 8 (b :: (left ++ rest)) := fun c head => behind c head
    have scanned : scanDigits 8 8 0 (digits ++ b :: (left ++ rest)) = _ := scanDigits_append 0 all apart
    rw [inetNumber_eq decimal stop, if_pos zero, List.append_assoc, List.cons_append, scanned]
    exact ⟨_, b, left ++ rest, rfl, decimal.2 b (by simp)⟩

theorem intercalate_cons (first second : List Byte) (others : List (List Byte)) :
    [46].intercalate (first :: second :: others) = first ++ 46 :: [46].intercalate (second :: others) := by
  simp [List.intercalate]

theorem intercalate_singleton (number : List Byte) : [46].intercalate [number] = number ++ [] := by
  simp [List.intercalate]

theorem inetNumbers_last {count : Nat} (read : inetNumber s = some (value, rest))
    (undotted : rest.head? ≠ some 46) : inetNumbers (count + 1) s = some ([value], rest) := by
  simp only [inetNumbers, read, Option.bind_eq_bind, Option.bind_some, if_neg undotted, Option.pure_def]

theorem inetNumbers_more {count : Nat} {values : List Nat} {behind : List Byte}
    (read : inetNumber s = some (value, 46 :: rest)) (small : value < 256)
    (later : inetNumbers count rest = some (values, behind)) :
    inetNumbers (count + 1) s = some (value :: values, behind) := by
  simp only [inetNumbers, read, Option.bind_eq_bind, Option.bind_some, List.head?_cons, List.tail_cons, if_true,
    if_pos small, later, Option.pure_def]

theorem inetNumbers_whole (nonempty : numbers ≠ [])
    (all : ∀ number ∈ numbers, IsDecimal number ∧ InetWhole number ∧ inetReading number < 256) :
    inetNumbers numbers.length ([46].intercalate numbers) = some (numbers.map inetReading, []) := by
  induction numbers with
  | nil => exact absurd rfl nonempty
  | cons first others ih =>
    obtain ⟨decimal, whole, small⟩ := all first List.mem_cons_self
    cases others with
    | nil =>
      rw [intercalate_singleton]
      exact inetNumbers_last (inetNumber_whole decimal whole atDot_nil) (by simp)
    | cons second others =>
      have later := ih (List.cons_ne_nil second others) fun number member => all number (List.mem_cons_of_mem _ member)
      rw [intercalate_cons]
      exact inetNumbers_more (inetNumber_whole decimal whole (atDot_cons _)) small later

/-- What is left of a number is left of the text. -/
theorem inetNumbers_broken
    (all : ∀ number ∈ numbers, IsDecimal number ∧ (InetWhole number → inetReading number < 256))
    (part : ∃ number ∈ numbers, ¬InetWhole number) : ∃ values b behind,
    inetNumbers numbers.length ([46].intercalate numbers) = some (values, b :: behind) ∧ 48 ≤ b ∧ b ≤ 57 := by
  induction numbers with
  | nil =>
    obtain ⟨number, member, -⟩ := part
    cases member
  | cons first others ih =>
    obtain ⟨decimal, small⟩ := all first List.mem_cons_self
    by_cases whole : InetWhole first
    · have later : ∃ number ∈ others, ¬InetWhole number := by
        obtain ⟨number, member, broken⟩ := part
        obtain rfl | member := List.mem_cons.mp member
        · exact absurd whole broken
        · exact ⟨number, member, broken⟩
      obtain ⟨values, b, behind, read, digit⟩ :=
        ih (fun number member => all number (List.mem_cons_of_mem _ member)) later
      cases others with
      | nil =>
        obtain ⟨number, member, -⟩ := later
        cases member
      | cons second others =>
        rw [intercalate_cons]
        exact ⟨_, b, behind, inetNumbers_more (inetNumber_whole decimal whole (atDot_cons _)) (small whole) read, digit⟩
    · have text : ∃ rest, [46].intercalate (first :: others) = first ++ rest ∧ AtDot rest := by
        cases others with
        | nil => exact ⟨[], intercalate_singleton first, atDot_nil⟩
        | cons second others => exact ⟨_, intercalate_cons first second others, atDot_cons _⟩
      obtain ⟨rest, split, stop⟩ := text
      obtain ⟨value, b, behind, read, digit⟩ := inetNumber_broken decimal whole stop
      have undotted : (b :: behind).head? ≠ some 46 := by
        intro dot
        obtain rfl := Option.some.inj dot
        exact absurd digit.1 (by decide)
      rw [split]
      exact ⟨[value], b, behind, inetNumbers_last read undotted, digit⟩

/-- The address that octets make, in host order. -/
def joinOctets (octets : List Byte) : Nat := octets.foldl (fun address octet => 256 * address + octet.toNat) 0

theorem inetJoin_four (a b c : Nat) {d : Nat} (small : d < 256) :
    inetJoin 4 [a, b, c, d] = some (a * 256 ^ 3 + (b * 256 ^ 2 + (c * 256 + d))) := by
  simp [inetJoin, small]

theorem inetAddr_broken
    (all : ∀ number ∈ numbers, IsDecimal number ∧ (InetWhole number → inetReading number < 256))
    (part : ∃ number ∈ numbers, ¬InetWhole number) (four : numbers.length = 4) :
    inetAddr ([46].intercalate numbers) = none := by
  obtain ⟨values, b, behind, read, digit⟩ := inetNumbers_broken all part
  rw [four] at read
  have blank : ¬(b :: behind = [] ∨ (b :: behind).head?.map isSpace = some true) := by
    rw [List.head?_cons, Option.map_some, not_space_of_digit digit]
    simp
  simp only [inetAddr, read, Option.bind_eq_bind, Option.bind_some, blank, false_and, if_false]
  cases inetJoin 4 values <;> rfl

theorem inetAddr_whole (four : numbers.length = 4)
    (all : ∀ number ∈ numbers, IsDecimal number ∧ InetWhole number ∧ inetReading number < 256) :
    inetAddr ([46].intercalate numbers) =
      (inetJoin 4 (numbers.map inetReading)).bind fun address =>
        if address ≠ 2 ^ 32 - 1 then some address else none := by
  have read := inetNumbers_whole (List.ne_nil_of_length_pos (by omega)) all
  rw [four] at read
  simp only [inetAddr, read, Option.bind_eq_bind, Option.bind_some, true_or, true_and, Option.pure_def]

/-- inet_addr reads a dotted quad as its octets if and only if it reads each number exactly. -/
theorem inetAddr_quad_iff (four : numbers.length = 4)
    (small : ∀ number ∈ numbers, IsDecimal number ∧ decimalValue number ≤ 255)
    (address : joinOctets (numbers.map fun number => UInt8.ofNat (decimalValue number)) ≠ 2 ^ 32 - 1) :
    inetAddr ([46].intercalate numbers) =
        some (joinOctets (numbers.map fun number => UInt8.ofNat (decimalValue number))) ↔
      ∀ number ∈ numbers, InetExact number := by
  have bounded : ∀ number ∈ numbers, InetWhole number → inetReading number < 256 := by
    intro number member whole
    have bound := (small number member).2
    have below := inetReading_le whole
    omega
  by_cases part : ∃ number ∈ numbers, ¬InetWhole number
  · have all : ∀ number ∈ numbers, IsDecimal number ∧ (InetWhole number → inetReading number < 256) :=
      fun number member => ⟨(small number member).1, bounded number member⟩
    rw [inetAddr_broken all part four]
    refine iff_of_false nofun fun exact => ?_
    obtain ⟨number, member, broken⟩ := part
    exact broken ((exact number member).whole (small number member).1)
  · simp only [not_exists, not_and, not_not] at part
    have all : ∀ number ∈ numbers, IsDecimal number ∧ InetWhole number ∧ inetReading number < 256 :=
      fun number member => ⟨(small number member).1, part number member, bounded number member (part number member)⟩
    rw [inetAddr_whole four all]
    obtain ⟨a, b, c, d, rfl⟩ := List.length_eq_four.mp four
    simp only [List.forall_mem_cons, List.map_cons, List.map_nil] at small part bounded address ⊢
    have octet (number : List Byte) (bound : decimalValue number ≤ 255) :
        (UInt8.ofNat (decimalValue number)).toNat = decimalValue number := by
      rw [UInt8.toNat_ofNat']
      omega
    simp only [joinOctets, List.foldl_cons, List.foldl_nil, octet _ small.1.2, octet _ small.2.1.2,
      octet _ small.2.2.1.2, octet _ small.2.2.2.1.2] at address ⊢
    rw [inetJoin_four _ _ _ (bounded.2.2.2.1 part.2.2.2.1), Option.bind_some, ← inetReading_eq_iff part.1,
      ← inetReading_eq_iff part.2.1, ← inetReading_eq_iff part.2.2.1, ← inetReading_eq_iff part.2.2.2.1]
    have first := inetReading_le part.1
    have second := inetReading_le part.2.1
    have third := inetReading_le part.2.2.1
    have fourth := inetReading_le part.2.2.2.1
    constructor
    · intro read
      split at read
      · rw [Option.some.injEq] at read
        refine ⟨?_, ?_, ?_, ?_, List.forall_mem_nil _⟩
        all_goals omega
      · cases read
    · rintro ⟨first, second, third, fourth, -⟩
      rw [first, second, third, fourth, if_pos (by omega), Option.some.injEq]
      omega

end Devent
