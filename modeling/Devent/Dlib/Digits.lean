import Devent.Dlib.Clib
import Mathlib.Data.List.Basic

/-! Numbers at the front of a text: which bytes the scanners of the C library take, what they
make of them, and where they stop. -/
namespace Devent

/-- A non-empty string of decimal digits. -/
def IsDecimal (s : List Byte) : Prop := s ≠ [] ∧ ∀ b ∈ s, 48 ≤ b ∧ b ≤ 57

instance : DecidablePred IsDecimal := fun _ => inferInstanceAs (Decidable (_ ∧ _))

/-- The number that decimal digits write. -/
def decimalValue (s : List Byte) : Nat := s.foldl (fun value b => 10 * value + (b.toNat - 48)) 0

/-- Digits below the limit, all of them. -/
def AllDigits (limit : Nat) (s : List Byte) : Prop := ∀ b ∈ s, (digitValue limit b).isSome = true

/-- No digit comes next. -/
def NoDigit (limit : Nat) (rest : List Byte) : Prop := ∀ b ∈ rest.head?, digitValue limit b = none

def digitsFrom (base limit value : Nat) (s : List Byte) : Nat :=
  s.foldl (fun value b => base * value + (digitValue limit b).getD 0) value

variable {base limit value : Nat} {s s' digits digits' rest rest' : List Byte}

/-- The scanner takes all digits and stops behind them. -/
theorem scanDigits_append (value : Nat) (all : AllDigits limit digits) (stop : NoDigit limit rest) :
    scanDigits base limit value (digits ++ rest) = (digitsFrom base limit value digits, rest) := by
  induction digits generalizing value with
  | nil =>
    cases rest with
    | nil => rfl
    | cons b rest =>
      have none : digitValue limit b = none := stop b rfl
      simp only [List.nil_append, scanDigits, none]
      rfl
  | cons b digits ih =>
    obtain ⟨digit, here⟩ := Option.isSome_iff_exists.mp (all b List.mem_cons_self)
    have later := ih (base * value + digit) fun b member => all b (List.mem_cons_of_mem _ member)
    simp only [List.cons_append, scanDigits, here, later, digitsFrom, List.foldl_cons, Option.getD_some]

theorem exists_digits (limit : Nat) (s : List Byte) :
    ∃ digits rest, s = digits ++ rest ∧ AllDigits limit digits ∧ NoDigit limit rest := by
  refine ⟨s.takeWhile fun b => (digitValue limit b).isSome, s.dropWhile fun b => (digitValue limit b).isSome,
    List.takeWhile_append_dropWhile.symm, fun b member => ?_, fun b head => ?_⟩
  · exact List.mem_takeWhile_imp (p := fun b => (digitValue limit b).isSome) member
  have stop := List.head?_dropWhile_not (fun b => (digitValue limit b).isSome) s
  rw [Option.mem_def.mp head] at stop
  simpa using stop

/-- Up to base ten no letter is a digit. -/
theorem digitValue_eq (narrow : limit ≤ 10) (b : Byte) : digitValue limit b =
    if 48 ≤ b.toNat ∧ b.toNat < 48 + limit then some (b.toNat - 48) else none := by
  simp only [digitValue, UInt8.le_iff_toNat_le, UInt8.reduceToNat]
  split_ifs
  all_goals first | rfl | omega

theorem isSome_digitValue_iff (narrow : limit ≤ 10) {b : Byte} :
    (digitValue limit b).isSome = true ↔ 48 ≤ b.toNat ∧ b.toNat < 48 + limit := by
  rw [digitValue_eq narrow]
  split
  · rename_i digit
    simp [digit]
  · rename_i other
    simpa using other

theorem allDigits_iff : AllDigits 10 s ↔ ∀ b ∈ s, 48 ≤ b ∧ b ≤ 57 := by
  apply forall₂_congr
  intro b _
  rw [isSome_digitValue_iff (Nat.le_refl 10), UInt8.le_iff_toNat_le, UInt8.le_iff_toNat_le]
  exact and_congr_right fun _ => Nat.lt_succ_iff

theorem IsDecimal.all (decimal : IsDecimal s) : AllDigits 10 s := allDigits_iff.mpr decimal.2

theorem digitsFrom_eq (narrow : limit ≤ 10) (value : Nat) (all : AllDigits limit s) :
    digitsFrom base limit value s = s.foldl (fun value b => base * value + (b.toNat - 48)) value := by
  induction s generalizing value with
  | nil => rfl
  | cons b s ih =>
    have digit := (isSome_digitValue_iff narrow).mp (all b List.mem_cons_self)
    have later := ih (base * value + (b.toNat - 48)) fun b member => all b (List.mem_cons_of_mem _ member)
    simp only [digitsFrom, List.foldl_cons, digitValue_eq narrow, if_pos digit, Option.getD_some]
    simpa only [digitsFrom, digitValue_eq narrow] using later

theorem IsDecimal.scan (decimal : IsDecimal digits) (stop : NoDigit 10 rest) :
    scanDigits 10 10 0 (digits ++ rest) = (decimalValue digits, rest) := by
  rw [scanDigits_append 0 decimal.all stop, digitsFrom_eq (Nat.le_refl 10) 0 decimal.all]
  rfl

/-- "%d" prints decimal digits that write the number. -/
theorem printNumber_decimal (n : Nat) : IsDecimal (printNumber n) ∧ decimalValue (printNumber n) = n := by
  have digit : ∀ c ∈ Nat.toDigits 10 n, 48 ≤ c.toNat ∧ c.toNat ≤ 57 := by
    intro c member
    have isDigit := Nat.isDigit_of_mem_toDigits (by decide) (Nat.le_refl 10) member
    simpa [Char.isDigit, UInt32.le_iff_toNat_le] using isDigit
  have byte : ∀ c ∈ Nat.toDigits 10 n, (UInt8.ofNat c.toNat).toNat = c.toNat := by
    intro c member
    have bounds := digit c member
    rw [UInt8.toNat_ofNat']
    omega
  refine ⟨⟨?_, ?_⟩, ?_⟩
  · rw [printNumber, ne_eq, List.map_eq_nil_iff]
    exact Nat.toDigits_ne_nil
  · intro b member
    obtain ⟨c, there, rfl⟩ := List.mem_map.mp member
    rw [UInt8.le_iff_toNat_le, UInt8.le_iff_toNat_le, byte c there]
    exact digit c there
  · rw [decimalValue, printNumber, List.foldl_map]
    calc (Nat.toDigits 10 n).foldl (fun value c => 10 * value + ((UInt8.ofNat c.toNat).toNat - 48)) 0
        = (Nat.toDigits 10 n).foldl (fun value c => 10 * value + (c.toNat - 48)) 0 := by
          apply List.foldl_ext
          intro value c member
          rw [byte c member]
      _ = n := by
          have read := Nat.ofDigitChars_ten_toDigits (n := n)
          rwa [Nat.ofDigitChars_eq_foldl] at read

inductive Sign where
  | none
  | plus
  | minus
  deriving DecidableEq

def Sign.text : Sign → List Byte
  | .none => []
  | .plus => [43]
  | .minus => [45]

/-- A number with the sign, in the range of `long`; the second part is an overflow. -/
def Sign.clip : Sign → Nat → Int × Bool
  | .minus, n => if n ≤ 2 ^ 63 then (-n, false) else (-2 ^ 63, true)
  | _, n => if n < 2 ^ 63 then (n, false) else (2 ^ 63 - 1, true)

/-- A text with a number at its front: blanks, a sign, digits, and what is behind them. -/
structure Numeral (s blanks : List Byte) (sign : Sign) (digits rest : List Byte) : Prop where
  whole : s = blanks ++ (sign.text ++ (digits ++ rest))
  blanks : ∀ b ∈ blanks, isSpace b = true
  decimal : IsDecimal digits
  stop : NoDigit 10 rest

theorem noDigit_nil (limit : Nat) : NoDigit limit [] := by
  rintro _ ⟨⟩

/-- Digits without blanks or a sign in front. -/
theorem Numeral.of_decimal {digits rest : List Byte} (decimal : IsDecimal digits) (stop : NoDigit 10 rest) :
    Numeral (digits ++ rest) [] .none digits rest := ⟨rfl, List.forall_mem_nil _, decimal, stop⟩

theorem not_space_of_digit {b : Byte} (digit : 48 ≤ b ∧ b ≤ 57) : isSpace b = false := by
  have low := UInt8.le_iff_toNat_le.mp digit.1
  simp only [UInt8.reduceToNat] at low
  simp only [isSpace, Bool.or_eq_false_iff, Bool.and_eq_false_iff, beq_eq_false_iff_ne, decide_eq_false_iff_not,
    UInt8.le_iff_toNat_le, UInt8.reduceToNat]
  refine ⟨?_, .inr (by omega)⟩
  rintro rfl
  simp at low

theorem digit_ne {b c : Byte} (digit : 48 ≤ b ∧ b ≤ 57) (below : c < 48) : b ≠ c := by
  rintro rfl
  exact absurd digit.1 (UInt8.not_le.mpr below)

/-- The text behind the blanks. -/
theorem Numeral.body {blanks : List Byte} {sign : Sign} (numeral : Numeral s blanks sign digits rest) :
    s.dropWhile isSpace = sign.text ++ (digits ++ rest) := by
  obtain ⟨first, others, rfl⟩ := List.exists_cons_of_ne_nil numeral.decimal.1
  have digit := numeral.decimal.2 first List.mem_cons_self
  rw [numeral.whole, List.dropWhile_append_of_pos numeral.blanks]
  cases sign with
  | none => exact List.dropWhile_cons_of_neg (by simp [not_space_of_digit digit])
  | plus => exact List.dropWhile_cons_of_neg (by decide)
  | minus => exact List.dropWhile_cons_of_neg (by decide)

/-- The sign, and the digits behind it. -/
theorem Numeral.signed {blanks : List Byte} {sign : Sign} (numeral : Numeral s blanks sign digits rest) :
    ((sign.text ++ (digits ++ rest)).head? == some 45) = decide (sign = .minus) ∧
      (if decide (sign = .minus) || (sign.text ++ (digits ++ rest)).head? == some 43 then
        (sign.text ++ (digits ++ rest)).tail else sign.text ++ (digits ++ rest)) = digits ++ rest := by
  cases sign with
  | none =>
    obtain ⟨first, others, rfl⟩ := List.exists_cons_of_ne_nil numeral.decimal.1
    have digit := numeral.decimal.2 first List.mem_cons_self
    have minus : first ≠ 45 := digit_ne digit (by decide)
    have plus : first ≠ 43 := digit_ne digit (by decide)
    simp [Sign.text, minus, plus]
  | plus => exact ⟨rfl, rfl⟩
  | minus => exact ⟨rfl, rfl⟩

/-- `strtol` reads the number at the front. -/
theorem strtol_numeral {blanks : List Byte} {sign : Sign} (einval : Bool)
    (numeral : Numeral s blanks sign digits rest) :
    strtol einval s = ⟨(sign.clip (decimalValue digits)).1, (sign.clip (decimalValue digits)).2, rest⟩ := by
  have read : ¬rest.length = (digits ++ rest).length := by
    have nonempty := List.length_pos_iff.mpr numeral.decimal.1
    rw [List.length_append]
    omega
  obtain ⟨negative, tail⟩ := numeral.signed
  simp only [strtol, numeral.body, negative, tail, numeral.decimal.scan numeral.stop, if_neg read]
  cases sign <;> simp only [Sign.clip, reduceCtorEq, decide_false, decide_true, Bool.false_eq_true, if_false, if_true]
  all_goals split <;> rfl

/-- A text without a number at its front. -/
theorem strtol_none (einval : Bool)
    (none : ∀ blanks sign digits rest, ¬Numeral s blanks sign digits rest) :
    strtol einval s = ⟨0, einval, s⟩ := by
  have split : s = s.takeWhile isSpace ++ s.dropWhile isSpace := List.takeWhile_append_dropWhile.symm
  have blanks : ∀ b ∈ s.takeWhile isSpace, isSpace b = true := fun b member => List.mem_takeWhile_imp member
  have empty {sign : Sign} {text : List Byte} (signed : s.dropWhile isSpace = sign.text ++ text) :
      (scanDigits 10 10 0 text).2.length = text.length := by
    obtain ⟨digits, rest, rfl, all, stop⟩ := exists_digits 10 text
    rw [scanDigits_append 0 all stop]
    cases digits with
    | nil => rfl
    | cons b digits =>
      refine absurd ?_ (none (s.takeWhile isSpace) sign (b :: digits) rest)
      exact ⟨signed ▸ split, blanks, ⟨List.cons_ne_nil b digits, allDigits_iff.mp all⟩, stop⟩
  have digits : ∃ sign : Sign, s.dropWhile isSpace = sign.text ++
      if (s.dropWhile isSpace).head? == some 45 || (s.dropWhile isSpace).head? == some 43 then
        (s.dropWhile isSpace).tail else s.dropWhile isSpace := by
    cases body : s.dropWhile isSpace with
    | nil => exact ⟨.none, rfl⟩
    | cons b body =>
      by_cases minus : b = 45
      · exact ⟨.minus, by simp [minus, Sign.text]⟩
      · by_cases plus : b = 43
        · exact ⟨.plus, by simp [plus, Sign.text]⟩
        · exact ⟨.none, by simp [minus, plus, Sign.text]⟩
  obtain ⟨sign, signed⟩ := digits
  simp only [strtol, empty signed, if_true]

end Devent
