import Devent.Dlib.Ipv6
import Devent.Dlib.Digits

/-! Texts of IPv6 addresses: there is one for each address, and the parser finds the address in it. -/
namespace Devent.Ipv6
open LongestRun

def hexByte (digit : Nat) : Byte := UInt8.ofNat (Nat.digitChar digit).toNat

theorem hexText_eq (n : Nat) : hexText n = if n < 16 then [hexByte n] else hexText (n / 16) ++ [hexByte (n % 16)] := by
  rw [hexText, Nat.toDigits_eq_if (by decide)]
  split
  · rfl
  · rw [List.map_append]
    rfl

theorem digitValue_hexByte : ∀ digit, digit < 16 → digitValue 16 (hexByte digit) = some digit := by decide

/-- The digits of a number, and the number from its digits. -/
theorem hexText_digits (n : Nat) : AllDigits 16 (hexText n) ∧ digitsFrom 16 16 0 (hexText n) = n := by
  induction n using Nat.strongRecOn with
  | ind n ih =>
    rw [hexText_eq]
    by_cases small : n < 16
    · have digit := digitValue_hexByte n small
      rw [if_pos small]
      constructor
      · intro b member
        rw [List.mem_singleton.mp member, digit]
        rfl
      · rw [digitsFrom, List.foldl_cons, digit]
        simp
    · obtain ⟨all, value⟩ := ih (n / 16) (by omega)
      have digit := digitValue_hexByte (n % 16) (Nat.mod_lt n (by decide))
      rw [if_neg small]
      constructor
      · intro b member
        obtain front | last := List.mem_append.mp member
        · exact all b front
        · rw [List.mem_singleton.mp last, digit]
          rfl
      · rw [digitsFrom] at value
        rw [digitsFrom, List.foldl_append, value, List.foldl_cons, digit]
        exact Nat.div_add_mod n 16

theorem hexText_ne_nil (n : Nat) : hexText n ≠ [] := by
  rw [hexText, ne_eq, List.map_eq_nil_iff]
  exact Nat.toDigits_ne_nil

theorem length_hexText_le_iff {n k : Nat} (positive : 0 < k) : (hexText n).length ≤ k ↔ n < 16 ^ k := by
  rw [hexText, List.length_map]
  exact Nat.length_toDigits_le_iff (by decide) positive

/-- Neither a colon nor a NUL is a digit. -/
theorem notMem_hexText {b : Byte} (other : digitValue 16 b = none) (n : Nat) : b ∉ hexText n := by
  intro member
  have digit := (hexText_digits n).1 b member
  rw [other] at digit
  cases digit

theorem parseGroup_hexText {n : Nat} (narrow : n < 65536) : parseGroup (hexText n) = some n := by
  obtain ⟨all, value⟩ := hexText_digits n
  have scanned : scanDigits 16 16 0 (hexText n ++ []) = _ := scanDigits_append 0 all (noDigit_nil 16)
  have short : (hexText n).length ≤ 4 := (length_hexText_le_iff (by decide)).mpr narrow
  rw [List.append_nil, value] at scanned
  simp only [parseGroup, scanned]
  exact if_pos ⟨hexText_ne_nil n, short, trivial⟩

variable {texts : List (List Byte)} {text rest : List Byte}

/-- The text of a group: not empty, and without colons. -/
def Plain (text : List Byte) : Prop := text ≠ [] ∧ colon ∉ text

theorem hexText_plain (n : Nat) : Plain (hexText n) := ⟨hexText_ne_nil n, notMem_hexText (by decide) n⟩

theorem joined_cons (text next : List Byte) (texts : List (List Byte)) :
    joined (text :: next :: texts) = text ++ colon :: joined (next :: texts) := by
  rw [joined, List.intercalate_cons_cons, joined]
  simp only [List.append_assoc, List.singleton_append]

theorem Plain.cons (plain : Plain text) : ∃ b more, text = b :: more ∧ b ≠ colon := by
  obtain ⟨nonempty, absent⟩ := plain
  obtain ⟨b, more, rfl⟩ := List.exists_cons_of_ne_nil nonempty
  exact ⟨b, more, rfl, fun same => absent (same ▸ List.mem_cons_self)⟩

/-- What joins behind a first text begins with it. -/
theorem joined_head (plain : Plain text) (texts : List (List Byte)) :
    ∃ b more, joined (text :: texts) = b :: more ∧ b ≠ colon := by
  obtain ⟨b, more, rfl, other⟩ := plain.cons
  cases texts with
  | nil =>
    refine ⟨b, more, ?_, other⟩
    rw [joined, List.intercalate_singleton]
  | cons next texts =>
    rw [joined_cons]
    exact ⟨b, _, rfl, other⟩

theorem cutDouble_other {a : Byte} (other : a ≠ colon) (s : List Byte) :
    cutDouble (a :: s) = (cutDouble s).map fun (before, behind) => (a :: before, behind) := by
  cases s with
  | nil => rfl
  | cons b s => rw [cutDouble, if_neg fun both => other both.1]

theorem cutDouble_single {b : Byte} (other : b ≠ colon) (s : List Byte) : cutDouble (colon :: b :: s) =
    (cutDouble (b :: s)).map fun (before, behind) => (colon :: before, behind) := by
  rw [cutDouble, if_neg fun both => other both.2]

theorem cutDouble_append (absent : colon ∉ text) (s : List Byte) :
    cutDouble (text ++ s) = (cutDouble s).map fun (before, behind) => (text ++ before, behind) := by
  induction text with
  | nil => exact Option.map_id'.symm
  | cons a text ih =>
    obtain ⟨apart, absent⟩ := not_or.mp (List.mem_cons.not.mp absent)
    rw [List.cons_append, cutDouble_other (Ne.symm apart), ih absent, Option.map_map]
    rfl

theorem cutDouble_joined (rest : List Byte) (all : ∀ text ∈ texts, Plain text) : cutDouble (joined texts) = none ∧
    cutDouble (joined texts ++ colon :: colon :: rest) = some (joined texts, rest) := by
  induction texts with
  | nil => exact ⟨rfl, rfl⟩
  | cons text texts ih =>
    have plain := all text List.mem_cons_self
    have later := ih fun text member => all text (List.mem_cons_of_mem _ member)
    cases texts with
    | nil =>
      rw [joined, List.intercalate_singleton, cutDouble_append plain.2]
      refine ⟨?_, ?_⟩
      · have alone := cutDouble_append plain.2 []
        rwa [List.append_nil] at alone
      · simp [cutDouble]
    | cons next texts =>
      obtain ⟨b, more, same, other⟩ := joined_head (all next (List.mem_cons_of_mem _ List.mem_cons_self)) texts
      rw [joined_cons, List.append_assoc, cutDouble_append plain.2, cutDouble_append plain.2]
      rw [same] at later ⊢
      rw [cutDouble_single other, later.1, List.cons_append, List.cons_append, cutDouble_single other,
        ← List.cons_append, later.2]
      exact ⟨rfl, rfl⟩

theorem mapM_parseGroup {groups : List Nat} (narrow : ∀ group ∈ groups, group < 65536) :
    (groups.map hexText).mapM parseGroup = some groups := by
  induction groups with
  | nil => rfl
  | cons group groups ih =>
    have later := ih fun group member => narrow group (List.mem_cons_of_mem _ member)
    rw [List.map_cons, List.mapM_cons, parseGroup_hexText (narrow group List.mem_cons_self), later]
    rfl

theorem parseGroups_joined {groups : List Nat} (narrow : ∀ group ∈ groups, group < 65536) :
    parseGroups (joined (groups.map hexText)) = some groups := by
  cases groups with
  | nil => rfl
  | cons group groups =>
    obtain ⟨b, more, same, -⟩ := joined_head (hexText_plain group) (groups.map hexText)
    have nonempty : joined ((group :: groups).map hexText) ≠ [] := by
      rw [List.map_cons, same]
      exact List.cons_ne_nil b more
    have clean : ∀ text ∈ (group :: groups).map hexText, colon ∉ text := by
      intro text member
      obtain ⟨n, -, rfl⟩ := List.mem_map.mp member
      exact (hexText_plain n).2
    rw [parseGroups, if_neg nonempty, joined, List.splitOn_intercalate colon clean (List.cons_ne_nil _ _)]
    exact mapM_parseGroup narrow

def flat (pairs : List (Byte × Byte)) : List Byte := pairs.flatMap fun pair => [pair.1, pair.2]

def groupOf (pair : Byte × Byte) : Nat := pair.1.toNat * 256 + pair.2.toNat

theorem flat_cons (pair : Byte × Byte) (pairs : List (Byte × Byte)) :
    flat (pair :: pairs) = pair.1 :: pair.2 :: flat pairs := rfl

theorem exists_pairs {ip : List Byte} {n : Nat} (even : ip.length = 2 * n) :
    ∃ pairs, pairs.length = n ∧ ip = flat pairs := by
  induction n generalizing ip with
  | zero => exact ⟨[], rfl, List.eq_nil_of_length_eq_zero even⟩
  | succ n ih =>
    match ip, even with
    | high :: low :: rest, even =>
      have even' : rest.length = 2 * n := by
        rw [List.length_cons, List.length_cons] at even
        omega
      obtain ⟨pairs, length, rfl⟩ := ih even'
      exact ⟨(high, low) :: pairs, congrArg (· + 1) length, rfl⟩

theorem groups_flat (pairs : List (Byte × Byte)) : groups (flat pairs) = pairs.map groupOf := by
  induction pairs with
  | nil => rfl
  | cons pair pairs ih =>
    rw [flat_cons, groups, ih]
    rfl

theorem groupOf_lt (pair : Byte × Byte) : groupOf pair < 65536 := by
  have high := pair.1.toNat_lt
  have low := pair.2.toNat_lt
  rw [groupOf]
  omega

theorem bytesOf_groupOf (pairs : List (Byte × Byte)) : bytesOf (pairs.map groupOf) = flat pairs := by
  rw [bytesOf, flat, List.flatMap_map]
  apply List.flatMap_congr
  intro pair _
  have bound := pair.2.toNat_lt
  have first : UInt8.ofNat (groupOf pair / 256) = pair.1 := by
    rw [groupOf, show (pair.1.toNat * 256 + pair.2.toNat) / 256 = pair.1.toNat by omega, UInt8.ofNat_toNat]
  have second : UInt8.ofNat (groupOf pair) = pair.2 := by
    apply UInt8.toNat_inj.mp
    rw [groupOf, UInt8.toNat_ofNat']
    omega
  rw [first, second]

variable {gs : List Nat} {text' : List Byte}

theorem Rfc5952.unique (first : Rfc5952 gs text) (second : Rfc5952 gs text') : text = text' := by
  cases first with
  | whole short =>
    cases second with
    | whole => rfl
    | shortened start _ long => exact absurd (short start) (Nat.not_lt.mpr long)
  | shortened start first long =>
    cases second with
    | whole short => exact absurd (short start) (Nat.not_lt.mpr long)
    | shortened start' first' _ =>
      obtain rfl := first.unique first'
      rfl

/-- A run of zero groups is what fills the gap. -/
theorem fill_zeros (gs : List Nat) (start : Nat) : gs.take start ++ List.replicate (runAt isZero gs start) 0 ++
    gs.drop (start + runAt isZero gs start) = gs := by
  obtain ⟨run, length, zeros, whole⟩ := split_runAt isZero gs start
  have same : run = List.replicate (runAt isZero gs start) 0 :=
    List.eq_replicate_iff.mpr ⟨length, fun group member => of_decide_eq_true (zeros group member)⟩
  rw [← same, List.append_assoc]
  exact whole.symm

theorem parse_rfc5952 (eight : gs.length = 8) (narrow : ∀ group ∈ gs, group < 65536)
    (rfc : Rfc5952 gs text) : parse text = some (bytesOf gs) := by
  have plain (part : List Nat) : ∀ text ∈ part.map hexText, Plain text := by
    intro text member
    obtain ⟨n, -, rfl⟩ := List.mem_map.mp member
    exact hexText_plain n
  cases rfc with
  | whole short =>
    have cut := (cutDouble_joined [] (plain gs)).1
    simp only [parse, cut, parseGroups_joined narrow, Option.bind_eq_bind, Option.bind_some, if_pos eight]
  | shortened start first long =>
    have inside : start ≤ gs.length := by
      by_contra outside
      rw [runAt_behind (Nat.le_of_not_le outside)] at long
      omega
    have ends := runAt_le isZero inside
    have before : parseGroups (joined ((gs.take start).map hexText)) = some (gs.take start) :=
      parseGroups_joined fun group member => narrow group (List.mem_of_mem_take member)
    have behind : parseGroups (joined ((gs.drop (start + runAt isZero gs start)).map hexText)) =
        some (gs.drop (start + runAt isZero gs start)) :=
      parseGroups_joined fun group member => narrow group (List.mem_of_mem_drop member)
    have cut := (cutDouble_joined (joined ((gs.drop (start + runAt isZero gs start)).map hexText))
      (plain (gs.take start))).2
    have width : (gs.take start).length = start := by
      rw [List.length_take]
      omega
    have gap : 8 - start - (gs.drop (start + runAt isZero gs start)).length = runAt isZero gs start := by
      rw [List.length_drop]
      omega
    have fewer : start + (gs.drop (start + runAt isZero gs start)).length < 8 := by
      rw [List.length_drop]
      omega
    have doubled : joined ((gs.take start).map hexText) ++ [colon, colon] ++
        joined ((gs.drop (start + runAt isZero gs start)).map hexText) = joined ((gs.take start).map hexText) ++
          colon :: colon :: joined ((gs.drop (start + runAt isZero gs start)).map hexText) := by
      rw [List.append_assoc]
      rfl
    rw [parse, doubled, cut]
    simp only [before, behind, Option.bind_eq_bind, Option.bind_some, width, gap, if_pos fewer, fill_zeros]

end Devent.Ipv6
