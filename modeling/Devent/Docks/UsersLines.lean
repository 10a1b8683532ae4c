import Devent.Docks.Config
import Mathlib.Data.List.TakeDrop

/-! The grammar of a users file: lines of a name, spaces, and a password. -/
namespace Devent.Docks

/-- The lines of a file with their ends, given what the current one has so far. -/
def physicalLines (line : List Byte) : List Byte → List (List Byte)
  | [] => if line = [] then [] else [line]
  | b :: rest =>
    let line := line ++ [b]
    if b = lineFeed then line :: physicalLines [] rest else physicalLines line rest

/-- A line of the form name, one or more spaces, password without spaces, neither too long.
Whether both have to be there is left open. -/
structure AccountLine (nonempty : Bool) (text name password : List Byte) : Prop where
  form : ∃ more, text = name ++ (List.replicate (more + 1) space ++ password)
  nameUnspaced : space ∉ name
  passwordUnspaced : space ∉ password
  nameFits : name.length ≤ maxUserLen
  passwordFits : password.length ≤ maxPwdLen
  filled : nonempty = true → name ≠ [] ∧ password ≠ []

/-- The account of a line without its end. -/
def lineAccount (nonempty : Bool) (text : List Byte) : Option (List Byte × List Byte) :=
  let name := text.takeWhile (· ≠ space)
  let password := (text.dropWhile (· ≠ space)).dropWhile (· = space)
  if space ∈ text ∧ space ∉ password ∧ name.length ≤ maxUserLen ∧ password.length ≤ maxPwdLen ∧
      (nonempty = true → name ≠ [] ∧ password ≠ []) then some (name, password)
  else none

/-- A finite map from names to passwords. -/
abbrev Accounts := List Byte → Option (List Byte)

def Accounts.put (accounts : Accounts) (account : List Byte × List Byte) : Accounts :=
  Function.update accounts account.1 (some account.2)

/-- The accounts of the lines, later ones overriding earlier ones. -/
def grammarAccounts (nonempty : Bool) (bytes : List Byte) : Accounts :=
  ((physicalLines [] bytes).filterMap fun line => lineAccount nonempty (stripEnd line)).foldl Accounts.put
    fun _ => none

/-- The loop of `parse_users` over any kind of map. -/
def parseUsersWith {M : Type} (put : M → CString → CString → Option M) (empty : M) (file : UsersFile) :
    Option M :=
  (fgetsLines file.error [] file.bytes).zipIdx.foldlM (fun users line =>
    match readAccount (file.stack line.2) line.1 with
    | none => some users
    | some (user, pwd) => put users user pwd) empty

theorem parseUsers_eq (file : UsersFile) (users : Option (CHashMap CString)) :
    parseUsers (some file) users = (parseUsersWith CHashMap.put CHashMap.new file).map some := by
  rw [parseUsers, parseUsersWith, Option.map_eq_bind]
  rfl

/-- The map that stands for `c_hash_map`. -/
def putAccount (accounts : Accounts) (user pwd : CString) : Option Accounts :=
  some (accounts.put (user.bytes, pwd.bytes))

def bytesOf (account : CString × CString) : List Byte × List Byte := (account.1.bytes, account.2.bytes)

/-- The users are those of the grammar, and every line gives the account that it has by the
grammar or none, whatever the stack holds. -/
structure ParsesLines (nonempty : Bool) (bytes : List Byte) : Prop where
  users : ∀ stack, parseUsersWith putAccount (fun _ => none) ⟨bytes, false, stack⟩ =
    some (grammarAccounts nonempty bytes)
  lines : ∀ stack before after, physicalLines [] bytes = before ++ after →
    (UsersFile.accounts ⟨before.flatten, false, stack⟩).map bytesOf =
      before.filterMap fun line => lineAccount nonempty (stripEnd line)

/-- What is read of a piece, up to its first zero byte. -/
def pieceText (piece : List Byte) : List Byte := stripEnd (CString.ofBytes piece).bytes

/-- A line of the form has no zero byte, a name with room for a terminator, and is not cut, or
only behind its password; of any other line no piece is of the form. -/
def ReadAsWritten (nonempty : Bool) (line : List Byte) : Prop :=
  match lineAccount nonempty (stripEnd line) with
  | some (name, _) => 0 ∉ line ∧ name.length < maxUserLen ∧
      (line.length < maxLineLen ∨ (stripEnd line).length = maxLineLen - 1)
  | none => ∀ piece ∈ fgetsLines false [] line, lineAccount false (pieceText piece) = none

variable {nonempty : Bool} {bytes text name password line rest : List Byte} {stack : CString}

theorem takeWhile_unspaced (unspaced : space ∉ name) (rest : List Byte) :
    (name ++ space :: rest).takeWhile (· ≠ space) = name ∧
      (name ++ space :: rest).dropWhile (· ≠ space) = space :: rest := by
  induction name with
  | nil => exact ⟨rfl, rfl⟩
  | cons b name ih =>
    obtain ⟨other, unspaced⟩ := not_or.mp (List.mem_cons.not.mp unspaced)
    have goes : decide (b ≠ space) = true := decide_eq_true (Ne.symm other)
    obtain ⟨taken, dropped⟩ := ih unspaced
    simp only [List.cons_append, List.takeWhile_cons, List.dropWhile_cons, goes, if_true, taken, dropped,
      and_self]

theorem dropWhile_spaces (more : Nat) (unspaced : space ∉ password) :
    (List.replicate more space ++ password).dropWhile (· = space) = password := by
  induction more with
  | zero =>
    cases password with
    | nil => rfl
    | cons b password =>
      have other : b ≠ space := fun same => unspaced (same ▸ List.mem_cons_self)
      exact List.dropWhile_cons_of_neg (by rw [decide_eq_true_eq]; exact other)
  | succ more ih =>
    simp only [List.replicate_succ, List.cons_append, List.dropWhile_cons, decide_true, if_true, ih]

/-- The text in front of its spaces, the spaces, and what is behind them. -/
theorem text_split (spaced : space ∈ text) : ∃ more, text = text.takeWhile (· ≠ space) ++
    (List.replicate (more + 1) space ++ (text.dropWhile (· ≠ space)).dropWhile (· = space)) := by
  obtain ⟨name, rest, rfl, unspaced⟩ := List.eq_append_cons_of_mem spaced
  obtain ⟨taken, dropped⟩ := takeWhile_unspaced unspaced rest
  have spaces : ∀ b ∈ rest.takeWhile (· = space), b = space := by
    intro b member
    have same := List.mem_takeWhile_imp member
    exact of_decide_eq_true same
  refine ⟨(rest.takeWhile (· = space)).length, ?_⟩
  simp only [taken, dropped, List.dropWhile_cons, decide_true, if_true, List.replicate_succ, List.cons_append]
  rw [← List.eq_replicate_of_mem spaces, List.takeWhile_append_dropWhile]

/-- The account of a text that has the form, up to the lengths. -/
theorem lineAccount_form (nonempty : Bool) (more : Nat) (nameUnspaced : space ∉ name)
    (passwordUnspaced : space ∉ password) :
    lineAccount nonempty (name ++ (List.replicate (more + 1) space ++ password)) =
      if name.length ≤ maxUserLen ∧ password.length ≤ maxPwdLen ∧ (nonempty = true → name ≠ [] ∧ password ≠ [])
      then some (name, password) else none := by
  have spaced : space ∈ name ++ (List.replicate (more + 1) space ++ password) := by
    rw [List.replicate_succ]
    exact List.mem_append_right _ List.mem_cons_self
  obtain ⟨taken, dropped⟩ := takeWhile_unspaced nameUnspaced (List.replicate more space ++ password)
  have behind := dropWhile_spaces (more + 1) passwordUnspaced
  simp only [List.replicate_succ, List.cons_append] at behind spaced ⊢
  simp only [lineAccount, taken, dropped, behind, spaced, passwordUnspaced, not_false_eq_true, true_and]

/-- The account is the one that the grammar gives. -/
theorem lineAccount_eq_some_iff :
    lineAccount nonempty text = some (name, password) ↔ AccountLine nonempty text name password := by
  constructor
  · intro given
    simp only [lineAccount] at given
    split at given
    · rename_i conditions
      obtain ⟨spaced, passwordUnspaced, nameFits, passwordFits, filled⟩ := conditions
      cases given
      refine ⟨text_split spaced, fun member => ?_, passwordUnspaced, nameFits, passwordFits, filled⟩
      have other := List.mem_takeWhile_imp member
      exact absurd rfl (of_decide_eq_true other)
    · cases given
  · rintro ⟨⟨more, rfl⟩, nameUnspaced, passwordUnspaced, nameFits, passwordFits, filled⟩
    rw [lineAccount_form nonempty more nameUnspaced passwordUnspaced, if_pos ⟨nameFits, passwordFits, filled⟩]

/-- A piece gives what its text has of the form; a name that fills its array is read on. -/
theorem readAccount_eq (stack : CString) (piece : List Byte) : readAccount stack piece =
    (lineAccount false (pieceText piece)).map fun account =>
      (CString.ofBytes (account.1 ++ if account.1.length = maxUserLen then stack.bytes else []),
        CString.ofBytes account.2) := by
  simp only [readAccount, lineAccount]
  rw [← pieceText]
  split
  · rename_i empty
    rw [empty]
    rfl
  · split
    · rename_i unspaced
      rw [if_neg fun conditions => unspaced conditions.1]
      rfl
    · rename_i spaced
      split
      · rename_i long
        rw [if_neg fun conditions => absurd conditions.2.2.1 (Nat.not_le.mpr long)]
        rfl
      · rename_i nameFits
        split
        · rename_i long
          rw [if_neg fun conditions => absurd conditions.2.2.2.1 (Nat.not_le.mpr long)]
          rfl
        · rename_i passwordFits
          split
          · rename_i again
            rw [if_neg fun conditions => conditions.2.1 again]
            rfl
          · rename_i once
            have conditions := And.intro (not_not.mp spaced) (And.intro once
              (And.intro (Nat.le_of_not_lt nameFits) (Nat.le_of_not_lt passwordFits)))
            simp only [conditions, not_false_eq_true, and_self, reduceCtorEq, false_implies, if_true,
              Option.map_some]

/-- A line end starts a new piece. -/
theorem fgetsLines_lineFeed (line text rest : List Byte) : fgetsLines false line (text ++ lineFeed :: rest) =
    fgetsLines false line (text ++ [lineFeed]) ++ fgetsLines false [] rest := by
  induction text generalizing line with
  | nil => simp only [List.nil_append, fgetsLines, true_or, if_true, List.singleton_append]
  | cons b text ih =>
    simp only [List.cons_append, fgetsLines]
    split
    · rw [ih, List.cons_append]
    · exact ih (line ++ [b])

theorem physicalLines_lineFeed (line text rest : List Byte) (unended : lineFeed ∉ text) :
    physicalLines line (text ++ lineFeed :: rest) =
      (line ++ (text ++ [lineFeed])) :: physicalLines [] rest := by
  induction text generalizing line with
  | nil => simp only [List.nil_append, physicalLines, if_true]
  | cons b text ih =>
    obtain ⟨other, unended⟩ := not_or.mp (List.mem_cons.not.mp unended)
    rw [List.cons_append, physicalLines, if_neg (Ne.symm other), ih (line ++ [b]) unended, List.append_assoc]
    rfl

theorem physicalLines_unended (line text : List Byte) (unended : lineFeed ∉ text) :
    physicalLines line text = if line ++ text = [] then [] else [line ++ text] := by
  induction text generalizing line with
  | nil => rw [physicalLines, List.append_nil]
  | cons b text ih =>
    obtain ⟨other, unended⟩ := not_or.mp (List.mem_cons.not.mp unended)
    rw [physicalLines, if_neg (Ne.symm other), ih (line ++ [b]) unended, List.append_assoc]
    rfl

/-- A line with its end, `\n` or `\r\n`, or at the end of the file. -/
inductive Line : List Byte → Prop
  | ended {text : List Byte} (unended : lineFeed ∉ text) : Line (text ++ [lineFeed])
  | last {text : List Byte} (unended : lineFeed ∉ text) (filled : text ≠ []) : Line text

/-- Every line but the last has its end. -/
inductive Lines : List (List Byte) → Prop
  | nil : Lines []
  | last {line : List Byte} (here : Line line) : Lines [line]
  | cons {text : List Byte} {rest : List (List Byte)} (unended : lineFeed ∉ text) (behind : Lines rest) :
      Lines ((text ++ [lineFeed]) :: rest)

theorem lines_physicalLines (bytes : List Byte) : Lines (physicalLines [] bytes) := by
  by_cases ended : lineFeed ∈ bytes
  · obtain ⟨text, rest, same, unended⟩ := List.eq_append_cons_of_mem ended
    rw [same, physicalLines_lineFeed [] text rest unended]
    exact .cons unended (lines_physicalLines rest)
  · rw [physicalLines_unended [] bytes ended]
    split
    · exact .nil
    · rename_i filled
      exact .last (.last ended filled)
termination_by bytes.length
decreasing_by
  rw [same, List.length_append, List.length_cons]
  omega

theorem Lines.before {before after : List (List Byte)} (lines : Lines (before ++ after)) : Lines before := by
  induction before with
  | nil => exact .nil
  | cons line rest ih =>
    generalize whole : line :: rest ++ after = all at lines
    cases lines with
    | nil => cases whole
    | last here =>
      obtain ⟨rfl, empty⟩ := List.cons.inj whole
      obtain ⟨rfl, -⟩ := List.append_eq_nil_iff.mp empty
      exact .last here
    | cons unended behind =>
      obtain ⟨rfl, rfl⟩ := List.cons.inj whole
      exact .cons unended (ih behind)

theorem Lines.each {lines : List (List Byte)} (all : Lines lines) : ∀ line ∈ lines, Line line := by
  induction all with
  | nil => simp
  | last here =>
    intro line member
    exact List.mem_singleton.mp member ▸ here
  | cons unended behind ih =>
    intro line member
    obtain rfl | member := List.mem_cons.mp member
    · exact .ended unended
    · exact ih line member

/-- `fgets` cuts every line on its own. -/
theorem fgetsLines_flatten {lines : List (List Byte)} (all : Lines lines) :
    fgetsLines false [] lines.flatten = lines.flatMap (fgetsLines false []) := by
  induction all with
  | nil => rfl
  | last here => rw [List.flatten_singleton, List.flatMap_singleton]
  | @cons text rest unended behind ih =>
    rw [List.flatten_cons, List.flatMap_cons, List.append_assoc, List.singleton_append, fgetsLines_lineFeed, ih]

theorem flatten_physicalLines (bytes : List Byte) : (physicalLines [] bytes).flatten = bytes := by
  by_cases ended : lineFeed ∈ bytes
  · obtain ⟨text, rest, same, unended⟩ := List.eq_append_cons_of_mem ended
    rw [same, physicalLines_lineFeed [] text rest unended, List.flatten_cons, flatten_physicalLines rest,
      List.nil_append, List.append_assoc, List.singleton_append]
  · rw [physicalLines_unended [] bytes ended]
    split
    · rename_i empty
      exact empty.symm
    · rw [List.flatten_singleton, List.nil_append]
termination_by bytes.length
decreasing_by
  rw [same, List.length_append, List.length_cons]
  omega

theorem stripEnd_crlf (text : List Byte) : stripEnd (text ++ [carriageReturn, lineFeed]) = text := by
  have size : (text ++ [carriageReturn, lineFeed]).length = text.length + 2 := List.length_append
  have cr : (text ++ [carriageReturn, lineFeed])[text.length]? = some carriageReturn := by
    rw [List.getElem?_append_right (Nat.le_refl _), Nat.sub_self]
    rfl
  have lf : (text ++ [carriageReturn, lineFeed])[text.length + 1]? = some lineFeed := by
    rw [List.getElem?_append_right (Nat.le_add_right _ 1), Nat.add_sub_cancel_left]
    rfl
  have first : text.length + 2 - 2 = text.length := by omega
  have second : text.length + 2 - 1 = text.length + 1 := by omega
  rw [stripEnd, size, first, second, if_pos ⟨Nat.le_add_left .., cr, lf⟩, List.take_left]

theorem stripEnd_lf (text : List Byte) (unreturned : text.getLast? ≠ some carriageReturn) :
    stripEnd (text ++ [lineFeed]) = text := by
  have size : (text ++ [lineFeed]).length = text.length + 1 := List.length_append
  have lf : (text ++ [lineFeed])[text.length + 1 - 1]? = some lineFeed := by
    rw [Nat.add_sub_cancel, List.getElem?_append_right (Nat.le_refl _), Nat.sub_self]
    rfl
  have front : ¬(2 ≤ text.length + 1 ∧ (text ++ [lineFeed])[text.length + 1 - 2]? = some carriageReturn ∧
      (text ++ [lineFeed])[text.length + 1 - 1]? = some lineFeed) := by
    rintro ⟨two, cr, -⟩
    rw [List.getElem?_append_left (by omega)] at cr
    apply unreturned
    rw [List.getLast?_eq_getElem?]
    exact cr
  rw [stripEnd, size, if_neg front, if_pos ⟨Nat.le_add_left .., lf⟩, Nat.add_sub_cancel, List.take_left]

theorem stripEnd_unended (unended : lineFeed ∉ text) : stripEnd text = text := by
  have absent (i : Nat) : text[i]? ≠ some lineFeed := fun found => unended (List.mem_of_getElem? found)
  rw [stripEnd, if_neg fun both => absent _ both.2.2, if_neg fun both => absent _ both.2]

/-- How a line ends. -/
inductive LineEnd : List Byte → List Byte → Prop
  | lf {text : List Byte} (unreturned : text.getLast? ≠ some carriageReturn) : LineEnd text [lineFeed]
  | crlf {text : List Byte} : LineEnd text [carriageReturn, lineFeed]
  | last {text : List Byte} (filled : text ≠ []) : LineEnd text []

theorem Line.split (whole : Line line) : ∃ text ending, line = text ++ ending ∧ stripEnd line = text ∧
    lineFeed ∉ text ∧ LineEnd text ending := by
  cases whole with
  | @ended text unended =>
    by_cases returned : text.getLast? = some carriageReturn
    · obtain ⟨front, rfl⟩ := List.getLast?_eq_some_iff.mp returned
      have same : front ++ [carriageReturn] ++ [lineFeed] = front ++ [carriageReturn, lineFeed] :=
        List.append_assoc ..
      refine ⟨front, [carriageReturn, lineFeed], same, ?_, fun member => unended ?_, .crlf⟩
      · rw [same, stripEnd_crlf]
      · exact List.mem_append_left _ member
    · exact ⟨text, [lineFeed], rfl, stripEnd_lf text returned, unended, .lf returned⟩
  | last unended filled =>
    exact ⟨line, [], (List.append_nil _).symm, stripEnd_unended unended, unended, .last filled⟩

theorem LineEnd.clean {ending : List Byte} (ends : LineEnd text ending) : 0 ∉ ending := by
  cases ends with
  | lf => decide
  | crlf => decide
  | last => decide

end Devent.Docks
