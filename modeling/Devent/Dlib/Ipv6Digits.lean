import Devent.Dlib.Ipv6Text

/-! What `append_hex` prints. Bytes from 128 on are negative in `char`, and a group with such a byte
prints nothing. -/
namespace Devent.Ipv6
open LongestRun

/-- The block with a text at its front. -/
def block (text : List Byte) : List Byte := text ++ List.replicate (maxLen - text.length) 0

/-- What a call of `append_hex` or a store puts behind the text. -/
def Appends (call : List Byte → Nat → Option (List Byte × Nat)) (more : List Byte) : Prop :=
  ∀ text, text.length + more.length ≤ maxLen →
    call (block text) text.length = some (block (text ++ more), (text ++ more).length)

theorem appendByte_appends (c : Byte) : Appends (appendByte · · c) [c] := by
  intro text fits
  rw [List.length_singleton] at fits
  have split : maxLen - text.length = maxLen - (text ++ [c]).length + 1 := by
    rw [List.length_append, List.length_singleton]
    omega
  have inside : text.length < (block text).length := by
    rw [block, List.length_append, List.length_replicate]
    omega
  show appendByte (block text) text.length c = _
  rw [appendByte, if_pos inside, block, split, List.replicate_succ, List.set_append_right _ _ (Nat.le_refl _),
    Nat.sub_self, List.set_cons_zero, block, List.append_assoc, List.length_append]
  rfl

variable {call next : List Byte → Nat → Option (List Byte × Nat)} {more more' : List Byte}

theorem Appends.bind (first : Appends call more) (second : Appends next more') :
    Appends (fun dst index => do
      let (dst, index) ← call dst index
      next dst index) (more ++ more') := by
  intro text fits
  rw [List.length_append] at fits
  simp only [first text (by omega), Option.bind_eq_bind, Option.bind_some]
  rw [second (text ++ more) (by rw [List.length_append]; omega), List.append_assoc]

/-- The digits that the loop of `append_hex` prints of a number. -/
def digitsBelow (n : Nat) : Nat → List Byte
  | 0 => []
  | j + 1 => (if 0 < n / 16 ^ j then [hexByte (n / 16 ^ j % 16)] else []) ++ digitsBelow n j

theorem hexDigit_get : ∀ digit, digit < 16 → hexDigit[digit]? = some (hexByte digit) := by decide

theorem shift_natCast (n j : Nat) : (n : Int) >>> (j * 4) = (n / 16 ^ j : Nat) := by
  rw [Int.shiftRight_eq_div_pow, Nat.mul_comm, Nat.pow_mul]
  exact Int.natCast_ediv ..

theorem appendDigits_succ (n j : Nat) (dst : List Byte) (index : Nat) : appendDigits n (j + 1) dst index =
    if 0 < n / 16 ^ j then do
      let (dst, index) ← appendByte dst index (hexByte (n / 16 ^ j % 16))
      appendDigits n j dst index
    else appendDigits n j dst index := by
  have masked : (n / 16 ^ j) &&& 0xf = n / 16 ^ j % 16 := Nat.and_two_pow_sub_one_eq_mod _ 4
  have printed := hexDigit_get (n / 16 ^ j % 16) (Nat.mod_lt _ (by decide))
  simp only [appendDigits, shift_natCast, Int.toNat_natCast, masked, printed, Option.bind_eq_bind, Option.bind_some,
    gt_iff_lt, Int.natCast_pos]

theorem appendDigits_appends (n j : Nat) : Appends (appendDigits n j) (digitsBelow n j) := by
  induction j with
  | zero =>
    intro text _
    rw [digitsBelow, List.append_nil]
    rfl
  | succ j ih =>
    intro text fits
    rw [digitsBelow] at fits ⊢
    rw [appendDigits_succ]
    by_cases digit : 0 < n / 16 ^ j
    · rw [if_pos digit] at fits ⊢
      rw [if_pos digit]
      exact ((appendByte_appends _).bind ih) text fits
    · rw [if_neg digit] at fits ⊢
      rw [if_neg digit]
      exact ih text fits

theorem digitsBelow_zero (j : Nat) : digitsBelow 0 j = [] := by
  induction j with
  | zero => rfl
  | succ j ih => rw [digitsBelow, ih, Nat.zero_div, if_neg (Nat.lt_irrefl 0), List.append_nil]

/-- The last position prints the last digit. -/
theorem digitsBelow_succ (n j : Nat) :
    digitsBelow n (j + 1) = digitsBelow (n / 16) j ++ (if 0 < n then [hexByte (n % 16)] else []) := by
  induction j with
  | zero => rw [digitsBelow, digitsBelow, digitsBelow, Nat.pow_zero, Nat.div_one, List.append_nil, List.nil_append]
  | succ j ih =>
    have shifted : n / 16 ^ (j + 1) = n / 16 / 16 ^ j := by rw [Nat.pow_succ', Nat.div_div_eq_div_mul]
    rw [digitsBelow, ih, shifted, ← List.append_assoc]
    rfl

theorem digitsBelow_eq {n j : Nat} (positive : 0 < n) (bound : n < 16 ^ j) : digitsBelow n j = hexText n := by
  induction j generalizing n with
  | zero =>
    rw [Nat.pow_zero] at bound
    omega
  | succ j ih =>
    rw [digitsBelow_succ, if_pos positive, hexText_eq]
    by_cases small : n < 16
    · rw [if_pos small, Nat.div_eq_of_lt small, digitsBelow_zero, Nat.mod_eq_of_lt small]
      rfl
    · rw [Nat.pow_succ] at bound
      rw [if_neg small, ih (by omega) (Nat.div_lt_of_lt_mul (by omega))]

/-- A negative number has no digits. -/
theorem appendDigits_negative {i : Int} (negative : i < 0) (j : Nat) (dst : List Byte) (index : Nat) :
    appendDigits i j dst index = some (dst, index) := by
  induction j with
  | zero => rfl
  | succ j ih =>
    have below : ¬i >>> (j * 4) > 0 := by
      rw [Int.shiftRight_eq_div_pow]
      exact Int.not_lt.mpr
        (Int.le_of_lt (Int.ediv_neg_of_neg_of_pos negative (Int.natCast_pos.mpr (Nat.two_pow_pos _))))
    rw [appendDigits]
    simp only [if_neg below, ih]

/-- Both bytes are what they are in `char`. -/
def Low (pair : Byte × Byte) : Prop := pair.1.toNat < 128 ∧ pair.2.toNat < 128

instance : DecidablePred Low := fun _ => inferInstanceAs (Decidable (_ ∧ _))

/-- What is printed of a group. -/
def shown (pair : Byte × Byte) : List Byte := if Low pair then hexText (groupOf pair) else []

theorem uint32T_signedChar (b : Byte) :
    uint32T (signedChar b) = if b.toNat < 128 then b.toNat else b.toNat + 4294967040 := by
  have bound := b.toNat_lt
  rw [signedChar, uint32T]
  split <;> omega

theorem groupArgument_low {pair : Byte × Byte} (low : Low pair) : groupArgument pair.1 pair.2 = groupOf pair := by
  have first := low.1
  have second := low.2
  have bound : pair.2.toNat < 2 ^ 8 := Nat.lt_trans second (by decide)
  have joined := Nat.shiftLeft_add_eq_or_of_lt bound pair.1.toNat
  have narrow : pair.1.toNat <<< 8 < 2 ^ 32 := by
    rw [Nat.shiftLeft_eq]
    omega
  rw [groupArgument, uint32T_signedChar, uint32T_signedChar, if_pos first, if_pos second, Nat.mod_eq_of_lt narrow,
    ← joined, Nat.shiftLeft_eq, intT_small, groupOf]
  omega

theorem intT_or_negative {a b : Nat} (narrow : a < 2 ^ 32) (narrow' : b < 2 ^ 32) (high : 2 ^ 31 ≤ a ∨ 2 ^ 31 ≤ b) :
    intT (a ||| b) < 0 := by
  have below := Nat.or_lt_two_pow narrow narrow'
  have left : a ≤ a ||| b := Nat.left_le_or
  have right : b ≤ a ||| b := Nat.right_le_or
  rw [intT, Nat.mod_eq_of_lt below]
  split <;> omega

theorem groupArgument_high {pair : Byte × Byte} (high : ¬Low pair) : groupArgument pair.1 pair.2 < 0 := by
  have first := pair.1.toNat_lt
  have second := pair.2.toNat_lt
  rw [Low] at high
  rw [groupArgument, uint32T_signedChar, uint32T_signedChar]
  apply intT_or_negative
  · exact Nat.mod_lt _ (by decide)
  · split <;> omega
  · rw [Nat.shiftLeft_eq]
    split <;> split <;> omega

theorem appendHex_appends (pair : Byte × Byte) :
    Appends (appendHex · · (groupArgument pair.1 pair.2)) (shown pair) := by
  intro text fits
  show appendHex (block text) text.length (groupArgument pair.1 pair.2) = _
  rw [shown] at fits ⊢
  by_cases low : Low pair
  · rw [if_pos low] at fits ⊢
    rw [appendHex, groupArgument_low low]
    by_cases zero : groupOf pair = 0
    · have text' : hexText 0 = [48] := by decide
      rw [zero, text'] at fits ⊢
      exact appendByte_appends 48 text fits
    · have bound : groupOf pair < 16 ^ 8 := Nat.lt_trans (groupOf_lt pair) (by decide)
      have printed := digitsBelow_eq (Nat.pos_of_ne_zero zero) bound
      rw [if_neg (by omega)]
      rw [← printed] at fits ⊢
      exact appendDigits_appends (groupOf pair) 8 text fits
  · have negative := groupArgument_high low
    rw [if_neg low, List.append_nil, appendHex, if_neg (by omega), appendDigits_negative negative]

theorem length_shown_le (pair : Byte × Byte) : (shown pair).length ≤ 4 := by
  rw [shown]
  split
  · exact (length_hexText_le_iff (by decide)).mpr (groupOf_lt pair)
  · exact Nat.zero_le 4

end Devent.Ipv6
