import Devent.Dlib.Digits

/-! The port in an address text. The IPv4 branch of parse_address reads it with atoi, the IPv6
branch with stoi, which does not know the digit 9; both narrow what they have read to `int`. -/
namespace Devent

/-- The port that a text writes: decimal digits with a value in 1..65535. -/
def portOf (p : List Byte) : Option Nat :=
  if IsDecimal p ∧ 1 ≤ decimalValue p ∧ decimalValue p ≤ 65535 then some (decimalValue p) else none

def Sign.apply : Sign → Nat → Int
  | .minus, n => -n
  | _, n => n

/-- The low 32 bits are those of a port. -/
def WrapsToPort (value : Int) : Prop := 1 ≤ value % 2 ^ 32 ∧ value % 2 ^ 32 ≤ 65535

/-- A text that is no port, with a number at its front whose value as a `long` wraps to one. -/
def AtoiStray (p : List Byte) : Prop :=
  portOf p = none ∧ ∃ blanks sign digits rest, Numeral p blanks sign digits rest ∧
    WrapsToPort (sign.clip (decimalValue digits)).1

/-- A text that is no port, of digits other than 9 behind a minus or not, whose value wraps to one. -/
def StoiStray (p : List Byte) : Prop :=
  portOf p = none ∧ ∃ (sign : Sign) (digits : List Byte), sign ≠ .plus ∧ AllDigits 9 digits ∧
    p = sign.text ++ digits ∧ WrapsToPort (sign.apply (decimalValue digits))

variable {p digits s before rest sep : List Byte} {sign : Sign} {len port : Nat}

theorem portOf_eq_some_iff : portOf p = some port ↔ IsDecimal p ∧ 1 ≤ port ∧ port ≤ 65535 ∧ decimalValue p = port := by
  rw [portOf]
  constructor
  · intro valid
    split at valid
    · rename_i bounds
      obtain rfl := Option.some.inj valid
      exact ⟨bounds.1, bounds.2.1, bounds.2.2, rfl⟩
    · cases valid
  · rintro ⟨decimal, positive, bound, rfl⟩
    exact if_pos ⟨decimal, positive, bound⟩

theorem wrapsToPort_iff (value : Int) :
    WrapsToPort value ↔ 0 < intT (sizeT value) ∧ intT (sizeT value) ≤ 65535 := by
  have low : (sizeT value : Int) % 2 ^ 32 = value % 2 ^ 32 := by
    rw [sizeT, Int.toNat_of_nonneg (Int.emod_nonneg _ (by decide))]
    exact Int.emod_emod_of_dvd _ (by decide)
  rw [WrapsToPort, ← low, intT]
  split <;> omega

theorem strstr_first {c : Byte} (absent : c ∉ before) :
    strstr (c :: sep) (before ++ (c :: sep ++ rest)) = some (before, c :: sep ++ rest) := by
  induction before with
  | nil =>
    have here : (c :: sep).isPrefixOf (c :: sep ++ rest) = true :=
      List.isPrefixOf_iff_prefix.mpr (List.prefix_append _ _)
    simp only [List.nil_append, List.cons_append, strstr] at here ⊢
    rw [if_pos here]
  | cons b before ih =>
    obtain ⟨apart, absent⟩ := not_or.mp (List.mem_cons.not.mp absent)
    have elsewhere : ¬(c :: sep).isPrefixOf (b :: (before ++ (c :: sep ++ rest))) = true := by
      simp [List.isPrefixOf, apart]
    rw [List.cons_append, strstr, if_neg elsewhere, ih absent]
    rfl

theorem atoi_numeral {blanks : List Byte} (numeral : Numeral p blanks sign digits rest) :
    atoi p = intT (sizeT (sign.clip (decimalValue digits)).1) := by
  rw [atoi, strtol_numeral false numeral]

theorem atoi_none (none : ∀ blanks sign digits rest, ¬Numeral p blanks sign digits rest) : atoi p = 0 := by
  rw [atoi, strtol_none false none]
  rfl

theorem IsDecimal.numeral (decimal : IsDecimal p) : Numeral p [] .none p [] := by
  have numeral := Numeral.of_decimal decimal (noDigit_nil 10)
  rwa [List.append_nil] at numeral

theorem atoi_port (valid : portOf p = some port) : atoi p = port := by
  obtain ⟨decimal, positive, bound, rfl⟩ := portOf_eq_some_iff.mp valid
  have fits : decimalValue p < 2 ^ 63 := by omega
  have read := atoi_numeral decimal.numeral
  simp only [Sign.clip, if_pos fits] at read
  rw [read, sizeT_natCast (by omega), intT_small (by omega)]

/-- A port that is read, if it is in range. -/
def inRange (port : Int) : Option Nat := if 0 < port ∧ port ≤ 65535 then some port.toNat else none

theorem inRange_wrapped (value : Int) : inRange (intT (sizeT value)) = none ↔ ¬WrapsToPort value := by
  rw [inRange, wrapsToPort_iff]
  split
  · rename_i inside
    simp [inside]
  · rename_i outside
    simpa using outside

theorem inRange_port (valid : portOf p = some port) : inRange port = some port := by
  obtain ⟨-, positive, bound, -⟩ := portOf_eq_some_iff.mp valid
  rw [inRange, if_pos (by omega), Int.toNat_natCast]

/-- atoi reads every port, and whatever else wraps to one. -/
theorem inRange_atoi_iff : inRange (atoi p) = portOf p ↔ ¬AtoiStray p := by
  cases valid : portOf p with
  | some port =>
    refine iff_of_true ?_ fun stray => ?_
    · rw [atoi_port valid, inRange_port valid]
    · rw [stray.1] at valid
      cases valid
  | none =>
    by_cases found : ∃ blanks sign digits rest, Numeral p blanks sign digits rest
    · obtain ⟨blanks, sign, digits, rest, numeral⟩ := found
      rw [atoi_numeral numeral, inRange_wrapped]
      constructor
      · rintro straight ⟨-, blanks', sign', digits', rest', numeral', wraps⟩
        have same := (strtol_numeral false numeral).symm.trans (strtol_numeral false numeral')
        rw [← (Conversion.mk.inj same).1] at wraps
        exact straight wraps
      · exact fun straight wraps => straight ⟨valid, blanks, sign, digits, rest, numeral, wraps⟩
    · simp only [not_exists] at found
      rw [atoi_none found]
      refine iff_of_true rfl ?_
      rintro ⟨-, blanks, sign, digits, rest, numeral, -⟩
      exact found blanks sign digits rest numeral

theorem stoi_signed (signed : sign ≠ .plus) (all : AllDigits 9 digits) (stop : NoDigit 9 rest)
    (unsigned : sign = .none → (digits ++ rest).head? ≠ some 45) : stoi (sign.text ++ (digits ++ rest)) =
      if rest = [] then some (intT (sizeT (sign.apply (decimalValue digits)))) else none := by
  have value : digitsFrom 10 9 0 digits = decimalValue digits := digitsFrom_eq (by decide) 0 all
  cases sign with
  | none =>
    have plain : ((digits ++ rest).head? == some 45) = false := beq_eq_false_iff_ne.mpr (unsigned rfl)
    simp only [stoi, Sign.text, List.nil_append, plain, Bool.false_eq_true, if_false, scanDigits_append 0 all stop,
      value, Sign.apply]
  | plus => exact absurd rfl signed
  | minus =>
    have minus : ((45 :: (digits ++ rest)).head? == some 45) = true := rfl
    simp only [stoi, Sign.text, List.cons_append, List.nil_append, minus, if_true, List.tail_cons,
      scanDigits_append 0 all stop, value, Sign.apply]

theorem head_digits (all : AllDigits 9 digits) : digits.head? ≠ some 45 := by
  intro head
  have digit := all 45 (List.mem_of_head? head)
  exact absurd digit (by decide)

/-- stoi reads digits other than 9 behind a minus or not. -/
theorem stoi_digits (signed : sign ≠ .plus) (all : AllDigits 9 digits) :
    stoi (sign.text ++ digits) = some (intT (sizeT (sign.apply (decimalValue digits)))) := by
  have plain : (digits ++ []).head? ≠ some 45 := by simpa using head_digits all
  have stop := noDigit_nil 9
  have read := stoi_signed signed all stop fun _ => plain
  simpa using read

theorem stoi_none (none : ∀ sign : Sign, sign ≠ .plus → ∀ digits, AllDigits 9 digits → p ≠ sign.text ++ digits) :
    stoi p = Option.none := by
  have split : ∃ (sign : Sign) (text : List Byte), sign ≠ .plus ∧ p = sign.text ++ text ∧
      (sign = .none → text.head? ≠ some 45) := by
    by_cases minus : p.head? = some 45
    · obtain ⟨text, rfl⟩ := List.head?_eq_some_iff.mp minus
      exact ⟨.minus, text, nofun, rfl, nofun⟩
    · exact ⟨.none, p, nofun, rfl, fun _ => minus⟩
  obtain ⟨sign, text, signed, rfl, unsigned⟩ := split
  obtain ⟨digits, rest, rfl, all, stop⟩ := exists_digits 9 text
  rw [stoi_signed signed all stop unsigned]
  apply if_neg
  rintro rfl
  exact none sign signed digits all (by rw [List.append_nil])

theorem IsDecimal.nineless (decimal : IsDecimal p) (nineless : 57 ∉ p) : AllDigits 9 p := by
  intro b member
  obtain ⟨low, high⟩ := decimal.2 b member
  have apart : b ≠ 57 := fun same => nineless (same ▸ member)
  rw [isSome_digitValue_iff (by decide)]
  rw [UInt8.le_iff_toNat_le] at low high
  have apart : b.toNat ≠ 57 := fun same => apart (UInt8.toNat_inj.mp same)
  simp only [UInt8.reduceToNat] at low high
  omega

theorem stoi_nine (decimal : IsDecimal p) (nine : 57 ∈ p) : stoi p = none := by
  apply stoi_none
  rintro sign signed digits all rfl
  cases sign with
  | none => exact absurd (all 57 (by simpa [Sign.text] using nine)) (by decide)
  | plus => exact signed rfl
  | minus => exact absurd (decimal.2 45 (by simp [Sign.text])) (by decide)

/-- stoi reads the ports without a 9, and whatever else wraps to one. -/
theorem inRange_stoi_iff :
    (stoi p).bind inRange = portOf p ↔ (portOf p ≠ none → 57 ∉ p) ∧ ¬StoiStray p := by
  cases valid : portOf p with
  | some port =>
    obtain ⟨decimal, positive, bound, rfl⟩ := portOf_eq_some_iff.mp valid
    have straight : ¬StoiStray p := by
      intro stray
      rw [stray.1] at valid
      cases valid
    by_cases nine : 57 ∈ p
    · rw [stoi_nine decimal nine]
      refine iff_of_false ?_ fun both => both.1 (Option.some_ne_none _) nine
      rintro ⟨⟩
    · have signed : Sign.none ≠ .plus := by
        rintro ⟨⟩
      have read : stoi (Sign.none.text ++ p) = _ := stoi_digits signed (decimal.nineless nine)
      rw [Sign.text, List.nil_append] at read
      refine iff_of_true ?_ ⟨fun _ => nine, straight⟩
      rw [read, Sign.apply, sizeT_natCast (by omega), intT_small (by omega)]
      · exact inRange_port valid
      · rintro ⟨⟩
  | none =>
    simp only [ne_eq, not_true_eq_false, false_implies, true_and]
    by_cases found : ∃ sign : Sign, sign ≠ .plus ∧ ∃ digits, AllDigits 9 digits ∧ p = sign.text ++ digits
    · obtain ⟨sign, signed, digits, all, rfl⟩ := found
      rw [stoi_digits signed all, Option.bind_some, inRange_wrapped]
      constructor
      · rintro straight ⟨-, sign', digits', signed', all', same, wraps⟩
        have read := stoi_digits signed' all'
        rw [← same, stoi_digits signed all] at read
        rw [wrapsToPort_iff, ← Option.some.inj read, ← wrapsToPort_iff] at wraps
        exact straight wraps
      · exact fun straight wraps => straight ⟨valid, sign, digits, signed, all, rfl, wraps⟩
    · have read : stoi p = none := by
        apply stoi_none
        exact fun sign signed digits all same => found ⟨sign, signed, digits, all, same⟩
      rw [read]
      refine iff_of_true rfl ?_
      rintro ⟨-, sign, digits, signed, all, same, -⟩
      exact found ⟨sign, signed, digits, all, same⟩

/-- What a family makes of the port: none, or the socket address with the port. -/
def PortsExact (inetPton : List Byte → Option (List Byte)) (len : Nat) (ip : List Byte) (address : Nat)
    (ip6 address6 p : List Byte) : Prop :=
  parseAddress inetPton len (ip ++ 58 :: p) = .value ((portOf p).map fun port => .inet address port) ∧
    parseAddress inetPton len (91 :: (ip6 ++ 93 :: 58 :: p)) =
      .value ((portOf p).map fun port => .inet6 address6 port)

variable {inetPton : List Byte → Option (List Byte)} {ip ip6 address6 : List Byte} {address : Nat}

/-- inet_addr only reads a text that begins with a digit. -/
theorem inetAddr_head (read : inetAddr ip = some address) :
    ∃ b rest, ip = b :: rest ∧ (digitValue 10 b).isSome = true := by
  obtain ⟨⟨values, rest⟩, numbers, -⟩ := Option.bind_eq_some_iff.mp read
  obtain ⟨⟨value, behind⟩, number, -⟩ := Option.bind_eq_some_iff.mp numbers
  cases ip with
  | nil => cases number
  | cons b ip =>
    refine ⟨b, ip, rfl, ?_⟩
    by_contra none
    rw [inetNumber, if_pos (by simpa using none)] at number
    cases number

theorem parseAddress_plain {addrStr domain portStr : List Byte} (room : SockAddr.sizeIn ≤ len)
    (bracketless : addrStr.head? ≠ some 91) (cut : strstr [58] addrStr = some (domain, portStr))
    (read : inetAddr domain = some address) : parseAddress inetPton len addrStr =
      .value ((inRange (atoi portStr.tail)).map fun port => .inet address port) := by
  simp only [parseAddress, if_neg (Nat.not_lt.mpr room), if_neg bracketless, cut, read]
  by_cases inside : 0 < atoi portStr.tail ∧ atoi portStr.tail ≤ 65535
  · simp [inRange, inside]
  · simp [inRange, inside]

theorem parseAddress_bracketed {addrStr domain portStr : List Byte} (room : SockAddr.endAddr6 ≤ len)
    (bracket : addrStr.head? = some 91) (cut : strstr [93, 58] addrStr.tail = some (domain, portStr))
    (read : inetPton domain = some address6) : parseAddress inetPton len addrStr =
      .value (((stoi (portStr.drop 2)).bind inRange).map fun port => .inet6 address6 port) := by
  have large : ¬len < SockAddr.sizeIn := by
    simp only [SockAddr.endAddr6, SockAddr.sizeIn] at room ⊢
    omega
  simp only [parseAddress, if_neg large, if_pos bracket, cut, read, if_neg (Nat.not_lt.mpr room)]
  cases stoi (portStr.drop 2) with
  | none => rfl
  | some port =>
    have outside : (port ≤ 0 ∨ port > 65535) ↔ ¬(0 < port ∧ port ≤ 65535) := by omega
    simp only [Option.bind_some, inRange, outside]
    split_ifs <;> rfl

theorem parseAddress_inet (room : SockAddr.sizeIn ≤ len) (read : inetAddr ip = some address)
    (colonless : 58 ∉ ip) (p : List Byte) : parseAddress inetPton len (ip ++ 58 :: p) =
      .value ((inRange (atoi p)).map fun port => .inet address port) := by
  have bracketless : (ip ++ 58 :: p).head? ≠ some 91 := by
    obtain ⟨b, rest, rfl, digit⟩ := inetAddr_head read
    rintro same
    obtain rfl := Option.some.inj same
    exact absurd digit (by decide)
  have cut : strstr [58] (ip ++ 58 :: p) = some (ip, 58 :: p) := strstr_first colonless
  rw [parseAddress_plain room bracketless cut read, List.tail_cons]

theorem parseAddress_inet6 (room : SockAddr.endAddr6 ≤ len) (read : inetPton ip6 = some address6)
    (bracketless : 93 ∉ ip6) (p : List Byte) : parseAddress inetPton len (91 :: (ip6 ++ 93 :: 58 :: p)) =
      .value (((stoi p).bind inRange).map fun port => .inet6 address6 port) := by
  have cut : strstr [93, 58] (ip6 ++ 93 :: 58 :: p) = some (ip6, 93 :: 58 :: p) := strstr_first bracketless
  have bracket : (91 :: (ip6 ++ 93 :: 58 :: p)).head? = some 91 := rfl
  rw [parseAddress_bracketed room bracket cut read, List.drop_succ_cons, List.drop_succ_cons, List.drop_zero]

theorem map_eq_map_iff {f : Nat → SockAddr} (injective : Function.Injective f) {a b : Option Nat} :
    (Outcome.value (a.map f) : Outcome Nat (Option SockAddr)) = .value (b.map f) ↔ a = b := by
  rw [Outcome.value.injEq]
  exact (Option.map_injective injective).eq_iff

/-- Both families read exactly the ports if and only if the text is a port without the digit 9,
or one that no number parser takes for a port. -/
theorem port_grammar_iff (p : CString) (room : SockAddr.endAddr6 ≤ len) (read : inetAddr ip = some address)
    (colonless : 58 ∉ ip) (read6 : inetPton ip6 = some address6) (bracketless : 93 ∉ ip6) :
    PortsExact inetPton len ip address ip6 address6 p.bytes ↔
      (portOf p.bytes ≠ none → 57 ∉ p.bytes) ∧ ¬AtoiStray p.bytes ∧ ¬StoiStray p.bytes := by
  have large : SockAddr.sizeIn ≤ len := by
    simp only [SockAddr.endAddr6, SockAddr.sizeIn] at room ⊢
    omega
  have inet : Function.Injective (SockAddr.inet address) := fun _ _ same => (SockAddr.inet.inj same).2
  have inet6 : Function.Injective (SockAddr.inet6 address6) := fun _ _ same => (SockAddr.inet6.inj same).2
  rw [PortsExact, parseAddress_inet large read colonless, parseAddress_inet6 room read6 bracketless,
    map_eq_map_iff inet, map_eq_map_iff inet6, inRange_atoi_iff, inRange_stoi_iff]
  constructor
  · exact fun ⟨atoi, nineless, stoi⟩ => ⟨nineless, atoi, stoi⟩
  · exact fun ⟨nineless, atoi, stoi⟩ => ⟨atoi, nineless, stoi⟩

/-- "1.2.3.4". -/
def dottedQuad : List Byte := [49, 46, 50, 46, 51, 46, 52]

/-- "::1". -/
def loopback6 : List Byte := [58, 58, 49]

/-- inet_pton, at "::1". -/
def loopbackPton (text : List Byte) : Option (List Byte) :=
  if text = loopback6 then some (List.replicate 15 0 ++ [1]) else none

theorem port_80_exact : PortsExact loopbackPton 28 dottedQuad 0x01020304 loopback6 (List.replicate 15 0 ++ [1])
    [56, 48] := by
  have valid : portOf [56, 48] = some 80 := by decide +kernel
  have room : SockAddr.endAddr6 ≤ 28 := by decide
  have read : inetAddr dottedQuad = some 0x01020304 := by decide +kernel
  have colonless : 58 ∉ dottedQuad := by decide
  have read6 : loopbackPton loopback6 = some (List.replicate 15 0 ++ [1]) := rfl
  have bracketless : 93 ∉ loopback6 := by decide
  refine (port_grammar_iff ⟨[56, 48], by decide⟩ room read colonless read6 bracketless).mpr
    ⟨fun _ => by decide, fun stray => ?_, fun stray => ?_⟩
  · rw [stray.1] at valid
    cases valid
  · rw [stray.1] at valid
    cases valid

/-- "1090" is a port for IPv4 alone. -/
theorem port_1090_differs : ¬PortsExact loopbackPton 28 dottedQuad 0x01020304 loopback6
    (List.replicate 15 0 ++ [1]) [49, 48, 57, 48] := by
  rintro ⟨-, exact6⟩
  have refused : parseAddress loopbackPton 28 (91 :: (loopback6 ++ 93 :: 58 :: [49, 48, 57, 48])) = .value none := by
    decide +kernel
  rw [refused] at exact6
  exact absurd exact6 (by decide +kernel)

end Devent
