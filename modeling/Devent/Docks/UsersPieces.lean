import Devent.Docks.UsersLines

/-! The pieces that `fgets` makes of a line, and what is read of them. It cuts a line that does not fit
its buffer, and reads on behind a zero byte that ends the string. -/
namespace Devent.Docks

variable {nonempty : Bool} {bytes text name password line rest : List Byte} {stack : CString}

theorem pieceText_clean (clean : 0 ∉ line) : pieceText line = stripEnd line := by
  have kept : (CString.ofBytes line).bytes = line :=
    congrArg CString.bytes (CString.ofBytes_bytes ⟨line, clean⟩)
  rw [pieceText, kept]

/-- A piece that is full before its end. -/
theorem fgetsLines_full {text : List Byte} (line rest : List Byte) (unended : lineFeed ∉ text)
    (filled : text ≠ []) (full : line.length + text.length = maxLineLen - 1) :
    fgetsLines false line (text ++ rest) = (line ++ text) :: fgetsLines false [] rest := by
  induction text generalizing line with
  | nil => exact absurd rfl filled
  | cons b text ih =>
    obtain ⟨other, unended⟩ := not_or.mp (List.mem_cons.not.mp unended)
    rw [List.length_cons] at full
    have size : (line ++ [b]).length = line.length + 1 := List.length_append
    rw [List.cons_append, fgetsLines]
    cases text with
    | nil =>
      rw [List.length_nil] at full
      rw [if_pos (.inr (by omega))]
      rfl
    | cons c text =>
      rw [List.length_cons] at full
      have goes : ¬(b = lineFeed ∨ (line ++ [b]).length = maxLineLen - 1) := by
        rintro (same | here)
        · exact other same.symm
        · omega
      rw [if_neg goes, ih (line ++ [b]) unended (List.cons_ne_nil _ _) (by rw [List.length_cons]; omega),
        List.append_assoc]
      rfl

/-- A line that fits is one piece. -/
theorem fgetsLines_short {text ending : List Byte} (line : List Byte) (unended : lineFeed ∉ text)
    (ends : ending = [] ∨ ending = [lineFeed]) (filled : line ++ (text ++ ending) ≠ [])
    (fits : line.length + (text ++ ending).length ≤ maxLineLen - 1) :
    fgetsLines false line (text ++ ending) = [line ++ (text ++ ending)] := by
  induction text generalizing line with
  | nil =>
    obtain rfl | rfl := ends
    · rw [List.append_nil, List.append_nil] at filled
      rw [List.nil_append, fgetsLines, if_neg (by simp [filled]), List.append_nil]
    · rw [List.nil_append, fgetsLines, if_pos (.inl rfl), fgetsLines, if_pos (.inl rfl)]
  | cons b text ih =>
    obtain ⟨other, unended⟩ := not_or.mp (List.mem_cons.not.mp unended)
    have size : (line ++ [b]).length = line.length + 1 := List.length_append
    have whole : line ++ (b :: text ++ ending) = line ++ [b] ++ (text ++ ending) := by
      rw [List.append_assoc]
      rfl
    rw [List.cons_append, List.length_cons] at fits
    rw [whole, List.cons_append, fgetsLines]
    by_cases full : (line ++ [b]).length = maxLineLen - 1
    · have empty : text ++ ending = [] := List.length_eq_zero_iff.mp (by omega)
      rw [if_pos (.inr full), empty, List.append_nil]
      rfl
    · have goes : ¬(b = lineFeed ∨ (line ++ [b]).length = maxLineLen - 1) := by
        rintro (same | here)
        · exact other same.symm
        · exact full here
      rw [if_neg goes]
      exact ih (line ++ [b]) unended (by simp) (by omega)

/-- The accounts of the pieces, the first of which is the n-th of its file. -/
def pieceAccounts (stack : Nat → CString) (n : Nat) (pieces : List (List Byte)) : List (CString × CString) :=
  (pieces.zipIdx n).filterMap fun line => readAccount (stack line.2) line.1

theorem accounts_flatten {lines : List (List Byte)} (all : Lines lines) (stack : Nat → CString) :
    UsersFile.accounts ⟨lines.flatten, false, stack⟩ =
      pieceAccounts stack 0 (lines.flatMap (fgetsLines false [])) := by
  rw [UsersFile.accounts, pieceAccounts, fgetsLines_flatten all]

theorem pieceAccounts_append (stack : Nat → CString) (n : Nat) (first second : List (List Byte)) :
    pieceAccounts stack n (first ++ second) =
      pieceAccounts stack n first ++ pieceAccounts stack (n + first.length) second := by
  rw [pieceAccounts, List.zipIdx_append, List.filterMap_append]
  rfl

theorem pieceAccounts_cons (stack : Nat → CString) (n : Nat) (piece : List Byte) (rest : List (List Byte)) :
    pieceAccounts stack n (piece :: rest) =
      (readAccount (stack n) piece).toList ++ pieceAccounts stack (n + 1) rest := by
  rw [pieceAccounts, List.zipIdx_cons, List.filterMap_cons]
  cases readAccount (stack n) piece <;> rfl

theorem pieceText_noNul (piece : List Byte) : 0 ∉ pieceText piece := by
  have clean := (CString.ofBytes piece).terminated
  simp only [pieceText, stripEnd]
  split
  · exact fun member => clean (List.mem_of_mem_take member)
  · split
    · exact fun member => clean (List.mem_of_mem_take member)
    · exact clean

theorem AccountLine.mem (given : AccountLine nonempty text name password) :
    (∀ b ∈ name, b ∈ text) ∧ ∀ b ∈ password, b ∈ text := by
  obtain ⟨more, rfl⟩ := given.form
  exact ⟨fun b member => List.mem_append_left _ member,
    fun b member => List.mem_append_right _ (List.mem_append_right _ member)⟩

/-- The bytes that are put for a piece. -/
theorem readAccount_bytes (stack : CString) (piece : List Byte) : (readAccount stack piece).map bytesOf =
    (lineAccount false (pieceText piece)).map fun account =>
      (account.1 ++ if account.1.length = maxUserLen then stack.bytes else [], account.2) := by
  rw [readAccount_eq]
  cases given : lineAccount false (pieceText piece) with
  | none => rfl
  | some account =>
    obtain ⟨name, password⟩ := account
    have members := (lineAccount_eq_some_iff.mp given).mem
    have clean := pieceText_noNul piece
    have named : 0 ∉ name ++ if name.length = maxUserLen then stack.bytes else [] := by
      rw [List.mem_append]
      rintro (here | behind)
      · exact clean (members.1 0 here)
      · split at behind
        · exact stack.terminated behind
        · cases behind
    have kept (s : CString) : (CString.ofBytes s.bytes).bytes = s.bytes := congrArg CString.bytes
      (CString.ofBytes_bytes s)
    simp only [Option.map_some, bytesOf]
    rw [kept ⟨_, named⟩, kept ⟨password, fun member => clean (members.2 0 member)⟩]

theorem map_pieceAccounts_cons (stack : Nat → CString) (n : Nat) (piece : List Byte) (rest : List (List Byte)) :
    (pieceAccounts stack n (piece :: rest)).map bytesOf =
      ((lineAccount false (pieceText piece)).map fun account =>
        (account.1 ++ if account.1.length = maxUserLen then (stack n).bytes else [], account.2)).toList ++
      (pieceAccounts stack (n + 1) rest).map bytesOf := by
  rw [pieceAccounts_cons, List.map_append, ← readAccount_bytes]
  cases readAccount (stack n) piece <;> rfl

theorem pieceAccounts_nil_iff (stack : Nat → CString) (n : Nat) (pieces : List (List Byte)) :
    pieceAccounts stack n pieces = [] ↔ ∀ piece ∈ pieces, lineAccount false (pieceText piece) = none := by
  induction pieces generalizing n with
  | nil => simp [pieceAccounts]
  | cons piece rest ih =>
    rw [pieceAccounts_cons, List.append_eq_nil_iff, Option.toList_eq_nil_iff, readAccount_eq,
      Option.map_eq_none_iff, ih, List.forall_mem_cons]

/-- No piece gives a name that fills its array without what is behind it. -/
theorem pieceAccounts_name {n : Nat} {pieces : List (List Byte)} (filled : stack.bytes ≠ [])
    (member : (name, password) ∈ (pieceAccounts (fun _ => stack) n pieces).map bytesOf) :
    name.length ≠ maxUserLen := by
  induction pieces generalizing n with
  | nil => cases member
  | cons piece rest ih =>
    rw [map_pieceAccounts_cons, List.mem_append] at member
    obtain here | later := member
    · obtain ⟨account, -, same⟩ := Option.map_eq_some_iff.mp (Option.mem_toList.mp here)
      obtain ⟨rfl, -⟩ := Prod.mk.inj same
      have positive := List.length_pos_of_ne_nil filled
      rw [List.length_append]
      split
      · omega
      · rw [List.length_nil]
        assumption
    · exact ih later

theorem spaces_unended (n : Nat) : lineFeed ∉ List.replicate n space := fun member =>
  absurd (List.eq_of_mem_replicate member) (by decide)

theorem spaces_clean (n : Nat) {ending : List Byte} (clean : 0 ∉ ending) :
    0 ∉ List.replicate n space ++ ending := by
  rw [List.mem_append]
  exact fun member => member.elim (fun here => absurd (List.eq_of_mem_replicate here) (by decide)) clean

theorem notMem_return {b : Byte} (other : b ≠ carriageReturn) (without : b ∉ text) :
    b ∉ text ++ [carriageReturn] := by
  rw [List.mem_append, List.mem_singleton]
  exact fun member => member.elim without other

theorem append_crlf (text : List Byte) :
    text ++ [carriageReturn, lineFeed] = text ++ [carriageReturn] ++ [lineFeed] := by
  rw [List.append_assoc]
  rfl

/-- Spaces give the account without a name. -/
theorem unnamed_account (n : Nat) (unspaced : space ∉ password) (fits : password.length ≤ maxPwdLen) :
    lineAccount false (List.replicate (n + 1) space ++ password) ≠ none := by
  have given := lineAccount_form false n List.not_mem_nil unspaced
  rw [List.nil_append, if_pos ⟨Nat.zero_le _, fits, nofun⟩] at given
  rw [given]
  exact Option.some_ne_none _

theorem spaces_account (n : Nat) : lineAccount false (List.replicate (n + 1) space) ≠ none := by
  have given : lineAccount false (List.replicate (n + 1) space ++ []) ≠ none :=
    unnamed_account n List.not_mem_nil (Nat.zero_le _)
  rwa [List.append_nil] at given

/-- A line of spaces gives the account without a name. -/
theorem spaces_read (more : Nat) {text ending : List Byte} (ends : LineEnd text ending) :
    ∃ piece ∈ fgetsLines false [] (List.replicate (more + 1) space ++ ending),
      lineAccount false (pieceText piece) ≠ none := by
  by_cases full : maxLineLen - 1 ≤ more + 1
  · -- the first piece is full of spaces
    obtain ⟨rest, same⟩ := Nat.exists_eq_add_of_le full
    refine ⟨List.replicate (maxLineLen - 1) space, ?_, ?_⟩
    · have filled : List.replicate (maxLineLen - 1) space ≠ [] := by
        rw [ne_eq, List.replicate_eq_nil_iff]
        decide
      have size : ([] : List Byte).length + (List.replicate (maxLineLen - 1) space).length =
          maxLineLen - 1 := by
        rw [List.length_nil, List.length_replicate, Nat.zero_add]
      rw [same, List.replicate_add, List.append_assoc, fgetsLines_full [] _ (spaces_unended _) filled size]
      exact List.mem_cons_self
    · have text : pieceText (List.replicate (maxLineLen - 1) space) =
          List.replicate (maxLineLen - 1) space := by
        have kept := spaces_clean (maxLineLen - 1) List.not_mem_nil
        rw [List.append_nil] at kept
        rw [pieceText_clean kept, stripEnd_unended (spaces_unended _)]
      rw [text]
      exact spaces_account (maxLineLen - 2)
  · cases ends with
    | last =>
      refine ⟨List.replicate (more + 1) space ++ [], ?_, ?_⟩
      · rw [fgetsLines_short [] (spaces_unended _) (.inl rfl) (by simp) (by simp; omega)]
        exact List.mem_cons_self
      · rw [pieceText_clean (spaces_clean _ List.not_mem_nil), List.append_nil,
          stripEnd_unended (spaces_unended _)]
        exact spaces_account more
    | lf =>
      refine ⟨List.replicate (more + 1) space ++ [lineFeed], ?_, ?_⟩
      · rw [fgetsLines_short [] (spaces_unended _) (.inr rfl) (by simp) (by simp; omega)]
        exact List.mem_cons_self
      · have last : (List.replicate (more + 1) space).getLast? ≠ some carriageReturn := by
          rw [List.getLast?_replicate, if_neg (Nat.succ_ne_zero more)]
          decide
        rw [pieceText_clean (spaces_clean _ (by decide)), stripEnd_lf _ last]
        exact spaces_account more
    | crlf =>
      have returned := notMem_return (by decide) (spaces_unended (more + 1))
      have size : (List.replicate (more + 1) space ++ [carriageReturn]).length = more + 2 := by simp
      by_cases cut : more + 2 = maxLineLen - 1
      · refine ⟨List.replicate (more + 1) space ++ [carriageReturn], ?_, ?_⟩
        · rw [append_crlf, fgetsLines_full [] _ returned (by simp) (by rw [size, List.length_nil]; omega)]
          exact List.mem_cons_self
        · rw [pieceText_clean (spaces_clean _ (by decide)), stripEnd_unended returned]
          exact unnamed_account more (by decide) (by decide)
      · refine ⟨List.replicate (more + 1) space ++ [carriageReturn, lineFeed], ?_, ?_⟩
        · rw [append_crlf, fgetsLines_short [] returned (.inr rfl) (by simp) (by simp; omega)]
          exact List.mem_cons_self
        · rw [pieceText_clean (spaces_clean _ (by decide)), stripEnd_crlf]
          exact spaces_account more

/-- The first piece gives the name with this password. -/
theorem head_account {stack : Nat → CString} {n more : Nat} {piece : List Byte} {pieces : List (List Byte)}
    (text : pieceText piece = name ++ (List.replicate (more + 1) space ++ password))
    (nameUnspaced : space ∉ name) (passwordUnspaced : space ∉ password) (short : name.length < maxUserLen)
    (fits : password.length ≤ maxPwdLen) : (pieceAccounts stack n (piece :: pieces)).map bytesOf =
      (name, password) :: (pieceAccounts stack (n + 1) pieces).map bytesOf := by
  have given := lineAccount_form false more nameUnspaced passwordUnspaced
  rw [if_pos ⟨Nat.le_of_lt short, fits, nofun⟩] at given
  rw [map_pieceAccounts_cons, text, given, Option.map_some, if_neg (Nat.ne_of_lt short), List.append_nil]
  rfl

/-- A line of the form that is cut between the two bytes of its end: the `\r` counts as password. -/
theorem return_misread (given : AccountLine nonempty text name password) (unended : lineFeed ∉ text)
    (clean : 0 ∉ text) (short : name.length < maxUserLen)
    (full : ([] : List Byte).length + (text ++ [carriageReturn]).length = maxLineLen - 1)
    (stack : Nat → CString) (n : Nat) :
    (pieceAccounts stack n (fgetsLines false [] (text ++ [carriageReturn, lineFeed]))).map bytesOf ≠
      [(name, password)] := by
  obtain ⟨more, form⟩ := given.form
  have cut := notMem_return (by decide) unended
  have kept := notMem_return (by decide) clean
  have piece : pieceText (text ++ [carriageReturn]) =
      name ++ (List.replicate (more + 1) space ++ (password ++ [carriageReturn])) := by
    rw [pieceText_clean kept, stripEnd_unended cut, form, List.append_assoc, List.append_assoc]
  have unspaced := notMem_return (by decide) given.passwordUnspaced
  rw [append_crlf, fgetsLines_full [] _ cut (by simp) full, List.nil_append]
  by_cases fits : (password ++ [carriageReturn]).length ≤ maxPwdLen
  · rw [head_account piece given.nameUnspaced unspaced short fits]
    intro same
    obtain ⟨-, longer⟩ := Prod.mk.inj (List.cons.inj same).1
    simp at longer
  · have first : lineAccount false (pieceText (text ++ [carriageReturn])) = none := by
      rw [piece, lineAccount_form false more given.nameUnspaced unspaced, if_neg fun both => fits both.2.1]
    have second : pieceAccounts stack (n + 1) (fgetsLines false [] [lineFeed]) = [] := by
      rw [pieceAccounts_nil_iff]
      decide
    rw [map_pieceAccounts_cons, first, second]
    exact List.cons_ne_nil _ _ ∘ Eq.symm

/-- A text that is longer than the buffer is cut there. -/
theorem cut_pieces (ending : List Byte) (unended : lineFeed ∉ text) (clean : 0 ∉ text)
    (inside : maxLineLen - 1 < text.length) :
    fgetsLines false [] (text ++ ending) =
        text.take (maxLineLen - 1) :: fgetsLines false [] (text.drop (maxLineLen - 1) ++ ending) ∧
      pieceText (text.take (maxLineLen - 1)) = text.take (maxLineLen - 1) := by
  have width : (text.take (maxLineLen - 1)).length = maxLineLen - 1 := by
    rw [List.length_take]
    omega
  have unended' : lineFeed ∉ text.take (maxLineLen - 1) := fun member => unended (List.mem_of_mem_take member)
  have clean' : 0 ∉ text.take (maxLineLen - 1) := fun member => clean (List.mem_of_mem_take member)
  have filled : text.take (maxLineLen - 1) ≠ [] := List.ne_nil_of_length_pos (by rw [width]; decide)
  have pieces := fgetsLines_full [] (text.drop (maxLineLen - 1) ++ ending) unended' filled
    (by rw [width, List.length_nil, Nat.zero_add])
  rw [← List.append_assoc, List.take_append_drop, List.nil_append] at pieces
  exact ⟨pieces, by rw [pieceText_clean clean', stripEnd_unended unended']⟩

/-- A line of the form that is cut in its spaces or in its password: there is less password, or
spaces are left for an account without a name. -/
theorem inside_misread {ending : List Byte} (given : AccountLine nonempty text name password)
    (ends : LineEnd text ending) (unended : lineFeed ∉ text) (clean : 0 ∉ text)
    (short : name.length < maxUserLen) (inside : maxLineLen - 1 < text.length)
    (stack : Nat → CString) (n : Nat) :
    (pieceAccounts stack n (fgetsLines false [] (text ++ ending))).map bytesOf ≠ [(name, password)] := by
  obtain ⟨more, form⟩ := given.form
  have shorter : name.length < maxLineLen - 1 := Nat.lt_trans short (by decide)
  obtain ⟨room, rooms⟩ := Nat.exists_eq_add_of_lt shorter
  have lengths := congrArg List.length form
  simp only [List.length_append, List.length_replicate] at lengths
  have front : text.take (maxLineLen - 1) =
      name ++ (List.replicate (more + 1) space ++ password).take (room + 1) := by
    rw [rooms, form, Nat.add_assoc, List.take_length_add_append]
  have tail : text.drop (maxLineLen - 1) =
      (List.replicate (more + 1) space ++ password).drop (room + 1) := by
    rw [rooms, form, Nat.add_assoc, List.drop_length_add_append]
  obtain ⟨pieces, read⟩ := cut_pieces ending unended clean inside
  rw [pieces]
  by_cases reaches : more ≤ room
  · have piece : pieceText (text.take (maxLineLen - 1)) =
        name ++ (List.replicate (more + 1) space ++ password.take (room - more)) := by
      have behind : room + 1 = (List.replicate (more + 1) space).length + (room - more) := by
        rw [List.length_replicate]
        omega
      rw [read, front, behind, List.take_length_add_append]
    have unspaced : space ∉ password.take (room - more) := fun member =>
      given.passwordUnspaced (List.mem_of_mem_take member)
    have fits : (password.take (room - more)).length ≤ maxPwdLen :=
      Nat.le_trans (List.length_take_le' ..) given.passwordFits
    rw [head_account piece given.nameUnspaced unspaced short fits]
    intro same
    obtain ⟨-, shorter⟩ := Prod.mk.inj (List.cons.inj same).1
    have lessened := congrArg List.length shorter
    rw [List.length_take] at lessened
    omega
  · have spaces : (List.replicate (more + 1) space ++ password).take (room + 1) =
        List.replicate (room + 1) space := by
      rw [List.take_append_of_le_length (by rw [List.length_replicate]; omega), List.take_replicate]
      congr 1
      omega
    have piece : pieceText (text.take (maxLineLen - 1)) =
        name ++ (List.replicate (room + 1) space ++ []) := by
      rw [read, front, spaces, List.append_nil]
    rw [head_account piece given.nameUnspaced List.not_mem_nil short (Nat.zero_le _)]
    intro same
    obtain ⟨first, later⟩ := List.cons.inj same
    obtain ⟨-, empty⟩ := Prod.mk.inj first
    obtain ⟨left, leaves⟩ := Nat.exists_eq_add_of_lt (Nat.lt_of_not_le reaches)
    have rest : text.drop (maxLineLen - 1) = List.replicate (left + 1) space := by
      rw [tail, ← empty, List.append_nil, List.drop_replicate]
      congr 1
      omega
    obtain ⟨piece, member, given⟩ := spaces_read left ends
    rw [← rest] at member
    exact given ((pieceAccounts_nil_iff ..).mp (List.map_eq_nil_iff.mp later) piece member)

/-- A line of the form that `fgets` cuts before its end is not read as it is written. -/
theorem cut_misread {ending : List Byte} (given : AccountLine nonempty text name password)
    (ends : LineEnd text ending) (unended : lineFeed ∉ text) (clean : 0 ∉ text)
    (short : name.length < maxUserLen) (long : maxLineLen ≤ (text ++ ending).length)
    (inside : text.length ≠ maxLineLen - 1) (stack : Nat → CString) (n : Nat) :
    (pieceAccounts stack n (fgetsLines false [] (text ++ ending))).map bytesOf ≠ [(name, password)] := by
  obtain returned | inside := Nat.lt_or_gt_of_ne inside
  · cases ends with
    | lf | last =>
      simp only [maxLineLen, List.length_append, List.length_singleton, List.length_nil] at long returned
      omega
    | crlf =>
      refine return_misread given unended clean short ?_ stack n
      simp only [maxLineLen, List.length_append, List.length_cons, List.length_nil] at long returned ⊢
      omega
  · exact inside_misread given ends unended clean short inside stack n

/-- An account that is read whatever the stack holds is of strings, with room for a terminator. -/
theorem read_strings {pieces : List (List Byte)} {n : Nat}
    (reads : ∀ stack : Nat → CString, (name, password) ∈ (pieceAccounts stack n pieces).map bytesOf) :
    0 ∉ name ∧ 0 ∉ password ∧ name.length ≠ maxUserLen := by
  obtain ⟨⟨user, pwd⟩, -, same⟩ := List.mem_map.mp (reads fun _ => ⟨[], List.not_mem_nil⟩)
  obtain ⟨rfl, rfl⟩ := Prod.mk.inj same
  have other := pieceAccounts_name (List.cons_ne_nil _ _) (reads fun _ => ⟨[97], nul_notMem_a⟩)
  exact ⟨user.terminated, pwd.terminated, other⟩

theorem AccountLine.clean (given : AccountLine nonempty text name password) (first : 0 ∉ name)
    (second : 0 ∉ password) : 0 ∉ text := by
  obtain ⟨more, form⟩ := given.form
  rw [form, List.mem_append]
  exact fun member => member.elim first (spaces_clean _ second)

/-- A line of the form that fits the buffer is read as it is written. -/
theorem uncut_read (whole : Line line) (given : AccountLine nonempty (stripEnd line) name password)
    (clean : 0 ∉ line) (short : name.length < maxUserLen) (once : line.length < maxLineLen)
    (stack : Nat → CString) (n : Nat) :
    (pieceAccounts stack n (fgetsLines false [] line)).map bytesOf = [(name, password)] := by
  obtain ⟨more, form⟩ := given.form
  have pieces : fgetsLines false [] line = [line] := by
    cases whole with
    | ended unended =>
      exact fgetsLines_short [] unended (.inr rfl) (by simp) (by rw [List.length_nil]; omega)
    | last unended filled =>
      have piece := fgetsLines_short [] unended (.inl rfl) (by simpa using filled)
        (by rw [List.append_nil, List.length_nil]; omega)
      rwa [List.append_nil] at piece
  have piece : pieceText line = name ++ (List.replicate (more + 1) space ++ password) := by
    rw [pieceText_clean clean, form]
  rw [pieces, head_account piece given.nameUnspaced given.passwordUnspaced short given.passwordFits]
  rfl

/-- A line of the form that is cut behind its password is read as it is written. -/
theorem behind_read {ending : List Byte} (given : AccountLine nonempty text name password)
    (ends : LineEnd text ending) (unended : lineFeed ∉ text) (clean : 0 ∉ text)
    (short : name.length < maxUserLen) (full : text.length = maxLineLen - 1)
    (stack : Nat → CString) (n : Nat) :
    (pieceAccounts stack n (fgetsLines false [] (text ++ ending))).map bytesOf = [(name, password)] := by
  obtain ⟨more, form⟩ := given.form
  have filled : text ≠ [] := List.ne_nil_of_length_pos (by rw [full]; decide)
  have pieces := fgetsLines_full [] ending unended filled (by rw [full, List.length_nil, Nat.zero_add])
  have piece : pieceText text = name ++ (List.replicate (more + 1) space ++ password) := by
    rw [pieceText_clean clean, stripEnd_unended unended, form]
  have later : pieceAccounts stack (n + 1) (fgetsLines false [] ending) = [] := by
    rw [pieceAccounts_nil_iff]
    cases ends with
    | lf => decide
    | crlf => decide
    | last => decide
  rw [pieces, List.nil_append,
    head_account piece given.nameUnspaced given.passwordUnspaced short given.passwordFits, later]
  rfl

end Devent.Docks
