import Devent.Docks.UsersPieces

/-! When `parse_users` reads a file by the grammar of its lines. -/
namespace Devent.Docks

variable {nonempty : Bool} {bytes text name password line rest : List Byte} {stack : CString}

/-- A line is read as it is written, wherever it stands and whatever the stack holds. -/
theorem readAsWritten_iff (whole : Line line) (n : Nat) :
    (∀ stack : Nat → CString, (pieceAccounts stack n (fgetsLines false [] line)).map bytesOf =
      (lineAccount nonempty (stripEnd line)).toList) ↔ ReadAsWritten nonempty line := by
  obtain ⟨text, ending, same, stripped, unended, ends⟩ := whole.split
  rw [ReadAsWritten, stripped]
  cases account : lineAccount nonempty text with
  | none =>
    simp only [Option.toList_none, List.map_eq_nil_iff, pieceAccounts_nil_iff]
    exact ⟨fun reads => reads fun _ => ⟨[], List.not_mem_nil⟩, fun none' _ => none'⟩
  | some pair =>
    obtain ⟨name, password⟩ := pair
    have given := lineAccount_eq_some_iff.mp account
    simp only [Option.toList_some]
    constructor
    · intro reads
      obtain ⟨first, second, other⟩ := read_strings fun stack => reads stack ▸ List.mem_cons_self
      have clean := given.clean first second
      have short : name.length < maxUserLen := Nat.lt_of_le_of_ne given.nameFits other
      refine ⟨?_, short, ?_⟩
      · rw [same, List.mem_append]
        exact fun member => member.elim clean ends.clean
      · by_contra cut
        obtain ⟨long, inside⟩ := not_or.mp cut
        have misread := cut_misread given ends unended clean short (same ▸ Nat.le_of_not_lt long) inside
        exact misread (fun _ => ⟨[], List.not_mem_nil⟩) n (same ▸ reads _)
    · rintro ⟨clean, short, fits⟩ stack
      by_cases once : line.length < maxLineLen
      · exact uncut_read whole (stripped ▸ given) clean short once stack n
      · have unclean : 0 ∉ text := fun member => clean (same ▸ List.mem_append_left _ member)
        rw [same]
        exact behind_read given ends unended unclean short (fits.resolve_left once) stack n

theorem parseUsersWith_eq (file : UsersFile) : parseUsersWith putAccount (fun _ => none) file =
    some ((file.accounts.map bytesOf).foldl Accounts.put fun _ => none) := by
  rw [parseUsersWith, UsersFile.accounts]
  generalize (fgetsLines file.error [] file.bytes).zipIdx = lines
  generalize (fun _ => none : Accounts) = users
  induction lines generalizing users with
  | nil => rfl
  | cons line rest ih =>
    rw [List.foldlM_cons, List.filterMap_cons]
    cases readAccount (file.stack line.2) line.1 with
    | none => exact ih users
    | some account => exact ih _

/-- The users are those that the grammar of the lines gives, exactly if every line is read as it
is written. -/
theorem parse_users_grammar_iff (nonempty : Bool) (bytes : List Byte) :
    ParsesLines nonempty bytes ↔ ∀ line ∈ physicalLines [] bytes, ReadAsWritten nonempty line := by
  have lines := lines_physicalLines bytes
  constructor
  · intro parses line member
    obtain ⟨before, after, split⟩ := List.append_of_mem member
    have upTo : physicalLines [] bytes = (before ++ [line]) ++ after := by
      rw [split, List.append_assoc]
      rfl
    have first : Lines before := Lines.before (split ▸ lines)
    have second : Lines (before ++ [line]) := Lines.before (upTo ▸ lines)
    refine (readAsWritten_iff (lines.each line member) (before.flatMap (fgetsLines false [])).length).mp
      fun stack => ?_
    have sofar := parses.lines stack before (line :: after) split
    have onward := parses.lines stack (before ++ [line]) after upTo
    rw [accounts_flatten first] at sofar
    rw [accounts_flatten second, List.flatMap_append, pieceAccounts_append, List.map_append, sofar,
      List.filterMap_append, List.append_cancel_left_eq, List.flatMap_singleton, Nat.zero_add] at onward
    rw [onward, List.filterMap_cons]
    cases lineAccount nonempty (stripEnd line) <;> rfl
  · intro read
    have agree (stack : Nat → CString) (before after : List (List Byte))
        (split : physicalLines [] bytes = before ++ after) :
        (UsersFile.accounts ⟨before.flatten, false, stack⟩).map bytesOf =
          before.filterMap fun line => lineAccount nonempty (stripEnd line) := by
      have first : Lines before := Lines.before (split ▸ lines)
      have all : ∀ line ∈ before, ReadAsWritten nonempty line := fun line member =>
        read line (split ▸ List.mem_append_left _ member)
      rw [accounts_flatten first]
      generalize 0 = n
      clear split
      induction before generalizing n with
      | nil => rfl
      | cons line rest ih =>
        have here := (readAsWritten_iff (first.each line List.mem_cons_self) n).mpr
          (all line List.mem_cons_self) stack
        have behind : Lines rest := by
          cases first with
          | last => exact .nil
          | cons _ behind => exact behind
        rw [List.flatMap_cons, pieceAccounts_append, List.map_append, here,
          ih behind (fun line member => all line (List.mem_cons_of_mem _ member)), List.filterMap_cons]
        cases lineAccount nonempty (stripEnd line) <;> rfl
    refine ⟨fun stack => ?_, agree⟩
    have whole := agree stack (physicalLines [] bytes) [] (List.append_nil _).symm
    rw [flatten_physicalLines] at whole
    rw [parseUsersWith_eq, whole, grammarAccounts]

/-- A line that goes on behind a full buffer with "a b". -/
def longLine : List Byte := List.replicate (maxLineLen - 1) 120 ++ [97, 32, 98, 10]

theorem cut_line_adds_account : ¬∃ nonempty, ParsesLines nonempty longLine := by
  rintro ⟨nonempty, parses⟩
  have lettered : ∀ b ∈ List.replicate (maxLineLen - 1) (120 : Byte), b = 120 := fun _ =>
    List.eq_of_mem_replicate
  have unended : lineFeed ∉ List.replicate (maxLineLen - 1) (120 : Byte) := fun member =>
    absurd (lettered _ member) (by decide)
  have unspaced : space ∉ List.replicate (maxLineLen - 1) (120 : Byte) := fun member =>
    absurd (lettered _ member) (by decide)
  have clean : 0 ∉ List.replicate (maxLineLen - 1) (120 : Byte) := fun member =>
    absurd (lettered _ member) (by decide)
  have size : (List.replicate (maxLineLen - 1) (120 : Byte)).length = maxLineLen - 1 := List.length_replicate
  have pieces := fgetsLines_full [] [97, 32, 98, 10] unended (List.ne_nil_of_length_pos (by rw [size]; decide))
    (by rw [size, List.length_nil, Nat.zero_add])
  have whole : physicalLines [] longLine = [longLine] := by
    have ended := physicalLines_lineFeed [] (List.replicate (maxLineLen - 1) 120 ++ [97, 32, 98]) []
      (by rw [List.mem_append]; exact fun member => member.elim unended (by decide))
    rw [List.append_assoc, List.nil_append] at ended
    exact ended
  have single : Lines [longLine] := whole ▸ lines_physicalLines longLine
  have agrees := parses.lines (fun _ => ⟨[], List.not_mem_nil⟩) [longLine] [] whole
  have first : lineAccount false (pieceText (List.replicate (maxLineLen - 1) 120)) = none := by
    rw [pieceText_clean clean, stripEnd_unended unended, lineAccount, if_neg fun both => unspaced both.1]
  have grammar : lineAccount nonempty (stripEnd longLine) = none := by
    have text : stripEnd longLine =
        List.replicate (maxLineLen - 1) 120 ++ [97] ++ (List.replicate 1 space ++ [98]) := by
      have stripped := stripEnd_lf (List.replicate (maxLineLen - 1) 120 ++ [97, 32, 98]) (by simp; decide)
      rw [List.append_assoc] at stripped ⊢
      exact stripped
    have named : space ∉ List.replicate (maxLineLen - 1) (120 : Byte) ++ [97] := by
      rw [List.mem_append]
      exact fun member => member.elim unspaced (by decide)
    rw [text, lineAccount_form nonempty 0 named (by decide), if_neg]
    rintro ⟨fits, -⟩
    rw [List.length_append, size] at fits
    exact absurd fits (by decide)
  have configured : [longLine].filterMap (fun line => lineAccount nonempty (stripEnd line)) = [] := by
    rw [List.filterMap_cons, grammar]
    rfl
  rw [configured, accounts_flatten single, List.flatMap_singleton, longLine, pieces, map_pieceAccounts_cons,
    List.nil_append, first] at agrees
  exact absurd agrees (by decide)

end Devent.Docks
