import Devent.Docks.OneRequest
import Devent.Docks.Pipelining

/-! A username and password message cut into read events. The callback looks at what has
arrived and takes it when all of it is there. The lengths are plain chars, and behind the
name it looks for the second one where nothing may have arrived yet. -/
namespace Devent.Docks

/-- VER ULEN UNAME PLEN PASSWD. -/
def credentials (name secret : List Byte) : List Byte :=
  authVersion1 :: UInt8.ofNat name.length :: (name ++ UInt8.ofNat secret.length :: secret)

def accepts (config : ServerConfig) (username password : CString) : Bool :=
  config.password username = some password

def authReply (success : Bool) : List Byte := [authVersion1, if success then authSuccess else authFailure]

/-- The judgement of a username and a password, its answer, and the next callback. -/
def judge (config : ServerConfig) (username password : CString) (server : Server) : Server :=
  ((server.emit (.auth username password (accepts config username password))).write
    (authReply (accepts config username password))).setReadCb .connectRead

variable {server : Server} {config : ServerConfig} {stack : Nat → Byte}
  {buffer name secret arrived rest : List Byte}

theorem judge_log (config : ServerConfig) (username password : CString) (live : server.live = true) :
    (judge config username password server).log = server.log ++
      [.auth username password (accepts config username password),
        .write (authReply (accepts config username password))] := by
  have kept : ((server.emit (.auth username password (accepts config username password))).write
      (authReply (accepts config username password))).live = true := live
  simp only [judge, Server.setReadCb, if_pos kept]
  simp only [Server.write, Server.emit, List.append_assoc, List.cons_append, List.nil_append]

theorem length_byte {n : Nat} (small : n ≤ 255) : (UInt8.ofNat n).toNat = n := by
  simp only [UInt8.toNat_ofNat']
  omega

theorem char_length_short {n : Nat} (short : n ≤ 127) : sizeT (signedChar (UInt8.ofNat n)) = n := by
  have byte : (UInt8.ofNat n).toNat = n := length_byte (by omega)
  rw [sizeT_signedChar_low (by omega), byte]

theorem authData_eq {i : Nat} {b : Byte} (inArray : i < 1024) (stored : buffer[i]? = some b) :
    authData buffer stack i = b := by
  rw [authData, List.getElem?_take_of_lt inArray, stored]
  rfl

/-- A part of the buffer, read back through the array. -/
theorem slice_authData (first part rest : List Byte) (spelled : buffer = first ++ part ++ rest)
    (inArray : first.length + part.length ≤ 1024) :
    slice (authData buffer stack) first.length part.length = part := by
  apply List.ext_getElem
  · simp only [slice, List.length_map, List.length_range]
  · intro k left right
    simp only [slice, List.getElem_map, List.getElem_range]
    apply authData_eq
    · omega
    · rw [spelled, List.append_assoc, List.getElem?_append_right (Nat.le_add_right ..),
        Nat.add_sub_cancel_left, List.getElem?_append_left right, List.getElem?_eq_getElem right]

theorem length_credentials (name secret : List Byte) :
    (credentials name secret).length = 3 + name.length + secret.length := by
  simp only [credentials, List.length_cons, List.length_append]
  omega

theorem credentials_behind_name (name secret rest : List Byte) :
    (credentials name secret ++ rest)[2 + name.length]? = some (UInt8.ofNat secret.length) := by
  have spelled : credentials name secret ++ rest =
      (authVersion1 :: UInt8.ofNat name.length :: name) ++ UInt8.ofNat secret.length :: (secret ++ rest) := by
    simp [credentials]
  have start : (authVersion1 :: UInt8.ofNat name.length :: name).length = 2 + name.length := by
    simp only [List.length_cons]
    omega
  rw [spelled, ← start, List.getElem?_append_right (Nat.le_refl _), Nat.sub_self]
  rfl

/-- The elements that a part of the message fills, whatever the stack holds behind it. -/
theorem authData_of_prefix (stack : Nat → Byte) (inside : arrived <+: credentials name secret ++ rest)
    {i : Nat} {b : Byte} (stored : (credentials name secret ++ rest)[i]? = some b) (inArray : i < 1024)
    (there : i < arrived.length) : authData arrived stack i = b := by
  obtain ⟨later, whole⟩ := inside
  rw [← whole, List.getElem?_append_left there] at stored
  exact authData_eq inArray stored

theorem authData_version (stack : Nat → Byte) (inside : arrived <+: credentials name secret ++ rest)
    (there : 0 < arrived.length) : authData arrived stack 0 = authVersion1 :=
  authData_of_prefix stack inside rfl (by decide) there

theorem authData_nameLength (stack : Nat → Byte) (inside : arrived <+: credentials name secret ++ rest)
    (there : 1 < arrived.length) : authData arrived stack 1 = UInt8.ofNat name.length :=
  authData_of_prefix stack inside rfl (by decide) there

theorem authData_secretLength (stack : Nat → Byte) (inside : arrived <+: credentials name secret ++ rest)
    (bounded : name.length ≤ 255) (there : 2 + name.length < arrived.length) :
    authData arrived stack (2 + name.length) = UInt8.ofNat secret.length :=
  authData_of_prefix stack inside (credentials_behind_name name secret rest) (by omega) there

/-- While something is missing the callback takes nothing, unless it stops behind the name. -/
theorem onAuthRead_waits (inside : server.inBuffer <+: credentials name secret ++ rest)
    (nameShort : name.length ≤ 127) (secretShort : secret.length ≤ 127)
    (missing : server.inBuffer.length < 3 + name.length + secret.length)
    (apart : server.inBuffer.length ≠ 2 + name.length) : onAuthRead config stack server = server := by
  by_cases two : server.inBuffer.length < 2
  · simp only [onAuthRead, if_pos two]
  · have version : ¬authData server.inBuffer stack 0 ≠ authVersion1 := fun other =>
      other (authData_version stack inside (by omega))
    have nameLength := authData_nameLength stack inside (by omega)
    by_cases nameMissing : min 1024 server.inBuffer.length - 2 < name.length
    · simp only [onAuthRead, if_neg two, if_neg version, nameLength, char_length_short nameShort,
        if_pos nameMissing]
    · have secretLength := authData_secretLength stack inside (by omega) (by omega)
      have room : sizeT ((min 1024 server.inBuffer.length : Nat) - 2 - name.length - 1) = _ := room_eq (by omega)
      have secretMissing : min 1024 server.inBuffer.length - 3 - name.length < secret.length := by omega
      simp only [onAuthRead, if_neg two, if_neg version, nameLength, char_length_short nameShort,
        if_neg nameMissing, secretLength, char_length_short secretShort, room, if_pos secretMissing]

/-- The name and the password as they are copied out of the array. -/
theorem slices_credentials (stack : Nat → Byte) (nameBounded : name.length ≤ 255)
    (secretBounded : secret.length ≤ 255) (rest : List Byte) :
    slice (authData (credentials name secret ++ rest) stack) 2 name.length = name ∧
      slice (authData (credentials name secret ++ rest) stack) (2 + name.length + 1) secret.length = secret := by
  constructor
  · exact slice_authData [authVersion1, UInt8.ofNat name.length] name
      (UInt8.ofNat secret.length :: (secret ++ rest)) (by simp [credentials])
      (by rw [List.length_cons, List.length_singleton]; omega)
  · have front : (authVersion1 :: UInt8.ofNat name.length :: (name ++ [UInt8.ofNat secret.length])).length =
        2 + name.length + 1 := by
      simp only [List.length_cons, List.length_append, List.length_nil]
      omega
    rw [← front]
    exact slice_authData _ secret rest (by simp [credentials]) (by rw [front]; omega)

/-- A message that is there is taken, and judged on what it is made of. -/
theorem onAuthRead_whole (whole : server.inBuffer = credentials name secret ++ rest)
    (nameShort : name.length ≤ 127) (secretShort : secret.length ≤ 127) :
    onAuthRead config stack server = judge config (CString.ofBytes name) (CString.ofBytes secret)
      (server.consume (3 + name.length + secret.length)) := by
  have length : server.inBuffer.length = 3 + name.length + secret.length + rest.length := by
    rw [whole, List.length_append, length_credentials]
  have inside : server.inBuffer <+: credentials name secret ++ rest := ⟨[], by rw [List.append_nil, whole]⟩
  have two : ¬server.inBuffer.length < 2 := by omega
  have version : ¬authData server.inBuffer stack 0 ≠ authVersion1 := fun other =>
    other (authData_version stack inside (by omega))
  have nameLength := authData_nameLength stack inside (by omega)
  have secretLength := authData_secretLength stack inside (by omega) (by omega)
  have nameThere : ¬min 1024 server.inBuffer.length - 2 < name.length := by omega
  have room : sizeT ((min 1024 server.inBuffer.length : Nat) - 2 - name.length - 1) = _ := room_eq (by omega)
  have secretThere : ¬min 1024 server.inBuffer.length - 3 - name.length < secret.length := by omega
  have inArray : ¬1024 < 3 + name.length + secret.length := by omega
  have nameBounded : name.length ≤ 255 := by omega
  have secretBounded : secret.length ≤ 255 := by omega
  obtain ⟨u, p⟩ := slices_credentials stack nameBounded secretBounded rest
  rw [← whole] at u p
  have total : 2 + name.length + 1 + secret.length = 3 + name.length + secret.length := by omega
  have read : server.readFull (3 + name.length + secret.length) =
      some (_, server.consume (3 + name.length + secret.length)) := if_pos ⟨by omega, by omega⟩
  simp only [onAuthRead, if_neg two, if_neg version, nameLength, char_length_short nameShort,
    if_neg nameThere, secretLength, char_length_short secretShort, room, if_neg secretThere, if_neg inArray,
    u, p, total, read]
  rfl

/-- The arithmetic over what has arrived and its array: no length is negative, and nothing
is looked for behind the last byte. -/
structure AuthIndexed (buffer : List Byte) (data : Nat → Byte) : Prop where
  name : 2 ≤ buffer.length → 0 ≤ signedChar (data 1)
  secret : 2 ≤ buffer.length → sizeT (signedChar (data 1)) ≤ min 1024 buffer.length - 2 →
    0 ≤ ((min 1024 buffer.length : Nat) : Int) - 2 - sizeT (signedChar (data 1)) - 1 ∧
      0 ≤ signedChar (data (2 + sizeT (signedChar (data 1))))

/-- The first events have only been looked at. -/
structure Undecided (first : List Input) (server last : Server) : Prop where
  live : last.live = true
  readCb : last.readCb = .onAuthRead
  inBuffer : last.inBuffer = server.inBuffer ++ sent first
  log : last.log = server.log ++ List.replicate first.length (.call .onAuthRead)

/-- The name and the secret are in their arrays, their message is taken and answered. -/
structure Decided (name secret arrived : List Byte) (data : Nat → Byte) (before next : Server) : Prop where
  username : slice data 2 (sizeT (signedChar (data 1))) = name
  password : slice data (2 + sizeT (signedChar (data 1)) + 1)
    (sizeT (signedChar (data (2 + sizeT (signedChar (data 1)))))) = secret
  inBuffer : next.inBuffer = arrived.drop (3 + name.length + secret.length)
  log : ∃ success, next.log = before.log ++ [.call .onAuthRead,
    .auth (CString.ofBytes name) (CString.ofBytes secret) success, .write (authReply success)]

/-- No event has brought the end of the message. -/
def Unfinished (name secret : List Byte) (server : Server) (first : List Input) : Prop :=
  first = [] ∨ (server.inBuffer ++ sent first).length < (credentials name secret).length

/-- Before the event that brings the end of the message nothing is taken or decided, and that
event takes and answers the message; the arithmetic is right in all of them. -/
structure Framed (platform : Platform) (config : ServerConfig) (name secret : List Byte) (server : Server)
    (inputs : List Input) : Prop where
  waits : ∀ first rest, first ++ rest = inputs → Unfinished name secret server first →
    ∃ last outs, Run.run (step platform config) server first = some (last, outs) ∧
      Undecided first server last
  completes : ∀ first input rest before outs, first ++ input :: rest = inputs →
    Unfinished name secret server first →
    (credentials name secret).length ≤ (server.inBuffer ++ sent (first ++ [input])).length →
    Run.run (step platform config) server first = some (before, outs) →
    ∃ next, step platform config before input = some (next, ()) ∧
      Decided name secret (server.inBuffer ++ sent (first ++ [input]))
        (authData (server.inBuffer ++ sent (first ++ [input])) input.stack) before next
  indexed : ∀ first input rest, first ++ input :: rest = inputs → Unfinished name secret server first →
    AuthIndexed (server.inBuffer ++ sent (first ++ [input]))
      (authData (server.inBuffer ++ sent (first ++ [input])) input.stack)

/-- Both lengths are below 128, and no event ends right behind the name. -/
structure Framable (name secret : List Byte) (server : Server) (inputs : List Input) : Prop where
  nameShort : name.length ≤ 127
  secretShort : secret.length ≤ 127
  cuts : ∀ k < inputs.length, (server.inBuffer ++ sent (inputs.take (k + 1))).length ≠ 2 + name.length

instance (name secret : List Byte) (server : Server) (inputs : List Input) :
    Decidable (Framable name secret server inputs) :=
  decidable_of_iff (name.length ≤ 127 ∧ secret.length ≤ 127 ∧
      ∀ k < inputs.length, (server.inBuffer ++ sent (inputs.take (k + 1))).length ≠ 2 + name.length)
    ⟨fun ⟨nameShort, secretShort, cuts⟩ => ⟨nameShort, secretShort, cuts⟩,
      fun framable => ⟨framable.nameShort, framable.secretShort, framable.cuts⟩⟩

variable {platform : Platform} {first later inputs : List Input} {input : Input} {before next last : Server}
  {segment : List Byte}

theorem received_onAuthRead (readCb : server.readCb = .onAuthRead) :
    received platform config stack segment server = onAuthRead config stack (called segment server) := by
  cases server
  cases readCb
  rfl

theorem sent_snoc (first : List Input) (input : Input) : sent (first ++ [input]) = sent first ++ input.bytes := by
  rw [sent, sent, List.flatMap_append, List.flatMap_singleton]

theorem Framable.apart (framable : Framable name secret server inputs)
    (cut : first ++ input :: later = inputs) :
    (server.inBuffer ++ sent (first ++ [input])).length ≠ 2 + name.length := by
  subst cut
  have taken : (first ++ input :: later).take (first.length + 1) = first ++ [input] := by
    rw [List.take_length_add_append]
    rfl
  have apart := framable.cuts first.length (by simp)
  rw [taken] at apart
  exact apart

/-- The callback with one more segment. -/
theorem Undecided.step_segment (undecided : Undecided first server before) (platform : Platform)
    (config : ServerConfig) (stack : Nat → Byte) (nonempty : segment ≠ []) :
    step platform config before (.segment segment stack) =
        some (onAuthRead config stack (called segment before), ()) ∧
      (called segment before).inBuffer = server.inBuffer ++ sent (first ++ [.segment segment stack]) ∧
      (called segment before).log = before.log ++ [.call .onAuthRead] := by
  refine ⟨?_, ?_, ?_⟩
  · rw [Docks.step_segment undecided.live nonempty, received_onAuthRead undecided.readCb]
  · rw [sent_snoc, ← List.append_assoc, ← undecided.inBuffer]
    rfl
  · rw [← undecided.readCb]
    rfl

/-- An event that leaves something missing. -/
theorem Undecided.waits (undecided : Undecided first server before) (platform : Platform)
    (config : ServerConfig) (framable : Framable name secret server inputs)
    (cut : first ++ .segment segment stack :: later = inputs) (nonempty : segment ≠ [])
    (whole : server.inBuffer ++ sent inputs = credentials name secret ++ rest)
    (missing : (server.inBuffer ++ sent (first ++ [.segment segment stack])).length <
      (credentials name secret).length) :
    ∃ next, step platform config before (.segment segment stack) = some (next, ()) ∧
      Undecided (first ++ [.segment segment stack]) server next := by
  obtain ⟨taken, buffer, log⟩ := undecided.step_segment platform config stack nonempty
  have inside : server.inBuffer ++ sent (first ++ [.segment segment stack]) <+: credentials name secret ++ rest := by
    refine ⟨sent later, ?_⟩
    rw [← whole, ← cut, sent_snoc]
    simp [sent]
  have apart := framable.apart cut
  rw [← buffer] at missing apart inside
  rw [length_credentials] at missing
  rw [onAuthRead_waits inside framable.nameShort framable.secretShort missing apart] at taken
  refine ⟨_, taken, undecided.live, undecided.readCb, buffer, ?_⟩
  rw [log, undecided.log, List.append_assoc, List.length_append, List.length_singleton, List.replicate_succ']

/-- The event that brings the end of the message. -/
theorem Undecided.completes (undecided : Undecided first server before) (platform : Platform) (config : ServerConfig)
    (nameShort : name.length ≤ 127) (secretShort : secret.length ≤ 127) (nonempty : segment ≠ [])
    (whole : server.inBuffer ++ sent (first ++ [.segment segment stack]) = credentials name secret ++ rest) :
    ∃ next, step platform config before (.segment segment stack) = some (next, ()) ∧
      Decided name secret (server.inBuffer ++ sent (first ++ [.segment segment stack]))
        (authData (server.inBuffer ++ sent (first ++ [.segment segment stack])) stack) before next := by
  obtain ⟨taken, buffer, log⟩ := undecided.step_segment platform config stack nonempty
  rw [← buffer] at whole ⊢
  rw [onAuthRead_whole whole nameShort secretShort] at taken
  have inside : (called segment before).inBuffer <+: credentials name secret ++ rest :=
    ⟨[], by rw [List.append_nil, whole]⟩
  have long : 3 + name.length + secret.length ≤ (called segment before).inBuffer.length := by
    rw [whole, List.length_append, length_credentials]
    exact Nat.le_add_right ..
  have nameBounded : name.length ≤ 255 := by omega
  have secretBounded : secret.length ≤ 255 := by omega
  obtain ⟨u, p⟩ := slices_credentials stack nameBounded secretBounded rest
  have nameLength := authData_nameLength stack inside (by omega)
  have secretLength := authData_secretLength stack inside nameBounded (by omega)
  refine ⟨_, taken, ?_, ?_, ?_, ?_⟩
  · rw [nameLength, char_length_short nameShort, whole, u]
  · rw [nameLength, char_length_short nameShort, secretLength, char_length_short secretShort, whole, p]
  · rw [judge, inBuffer_setReadCb]
    rfl
  · refine ⟨accepts config (CString.ofBytes name) (CString.ofBytes secret), ?_⟩
    have live : ((called segment before).consume (3 + name.length + secret.length)).live = true := undecided.live
    rw [judge_log config _ _ live]
    have kept : ((called segment before).consume (3 + name.length + secret.length)).log =
        before.log ++ [.call .onAuthRead] := log
    rw [kept, List.append_assoc]
    rfl

/-- A segment with bytes. -/
def Input.Brings : Input → Prop
  | .segment bytes _ => bytes ≠ []
  | .finish _ | .connected => False

instance : (input : Input) → Decidable input.Brings
  | .segment bytes _ => inferInstanceAs (Decidable (bytes ≠ []))
  | .finish _ | .connected => inferInstanceAs (Decidable False)

/-- Up to the event that brings the end of the message. -/
theorem run_undecided (live : server.live = true) (readCb : server.readCb = .onAuthRead)
    (framable : Framable name secret server inputs) (bring : ∀ input ∈ inputs, input.Brings)
    (whole : server.inBuffer ++ sent inputs = credentials name secret ++ rest) (first : List Input) :
    ∀ later, first ++ later = inputs → Unfinished name secret server first →
      ∃ last outs, Run.run (step platform config) server first = some (last, outs) ∧
        Undecided first server last := by
  induction first using List.reverseRecOn with
  | nil =>
    intro _ _ _
    exact ⟨server, [], rfl, live, readCb, (List.append_nil _).symm, (List.append_nil _).symm⟩
  | append_singleton first input ih =>
    intro later cut unfinished
    have missing := unfinished.resolve_left (List.append_ne_nil_of_right_ne_nil _ (List.cons_ne_nil _ _))
    have earlier : Unfinished name secret server first := by
      right
      rw [sent_snoc, ← List.append_assoc, List.length_append] at missing
      omega
    rw [List.append_assoc] at cut
    obtain ⟨before, outs, path, undecided⟩ := ih _ cut earlier
    have brings := bring input (by simp [← cut])
    cases input with
    | segment segment stack =>
      obtain ⟨next, taken, undecided⟩ := undecided.waits platform config framable cut brings whole missing
      have one : Run.run (step platform config) before [.segment segment stack] = some (next, [()]) :=
        Run.run_cons_iff.mpr ⟨next, (), [], taken, rfl, rfl⟩
      exact ⟨next, _, Run.run_append path one, undecided⟩
    | finish => exact brings.elim
    | connected => exact brings.elim

theorem signedChar_nonneg_iff {n : Nat} (bounded : n ≤ 255) : 0 ≤ signedChar (UInt8.ofNat n) ↔ n ≤ 127 := by
  have byte := length_byte bounded
  obtain low | high := Nat.lt_or_ge n 128
  · rw [signedChar_low (by omega)]
    omega
  · rw [signedChar_high (by omega)]
    omega

theorem prefix_of_cut (whole : server.inBuffer ++ sent inputs = credentials name secret ++ rest)
    (cut : first ++ input :: later = inputs) :
    server.inBuffer ++ sent (first ++ [input]) <+: credentials name secret ++ rest := by
  refine ⟨sent later, ?_⟩
  rw [← whole, ← cut]
  simp [sent]

theorem Framable.indexed (framable : Framable name secret server inputs)
    (whole : server.inBuffer ++ sent inputs = credentials name secret ++ rest)
    (cut : first ++ input :: later = inputs) (stack : Nat → Byte) :
    AuthIndexed (server.inBuffer ++ sent (first ++ [input]))
      (authData (server.inBuffer ++ sent (first ++ [input])) stack) := by
  have inside := prefix_of_cut whole cut
  have apart := framable.apart cut
  have nameShort := framable.nameShort
  have secretShort := framable.secretShort
  generalize server.inBuffer ++ sent (first ++ [input]) = arrived at inside apart
  constructor
  · intro two
    rw [authData_nameLength stack inside two]
    exact (signedChar_nonneg_iff (by omega)).mpr nameShort
  · intro two fits
    rw [authData_nameLength stack inside two, char_length_short nameShort] at fits ⊢
    rw [authData_secretLength stack inside (by omega) (by omega)]
    exact ⟨by omega, (signedChar_nonneg_iff (by omega)).mpr secretShort⟩

/-- Some event brings the end of the message. -/
theorem exists_completing (nonempty : inputs ≠ []) {server : Server}
    (enough : (credentials name secret).length ≤ (server.inBuffer ++ sent inputs).length) :
    ∃ first input later, first ++ input :: later = inputs ∧ Unfinished name secret server first ∧
      (credentials name secret).length ≤ (server.inBuffer ++ sent (first ++ [input])).length := by
  induction inputs using List.reverseRecOn with
  | nil => exact absurd rfl nonempty
  | append_singleton first input ih =>
    by_cases unfinished : Unfinished name secret server first
    · exact ⟨first, input, [], rfl, unfinished, enough⟩
    · obtain ⟨some', long⟩ := not_or.mp unfinished
      obtain ⟨first', input', later, rfl, earlier, completes⟩ := ih some' (Nat.not_lt.mp long)
      exact ⟨first', input', later ++ [input], by simp, earlier, completes⟩

theorem Framed.framable (framed : Framed platform config name secret server inputs)
    (nameBounded : name.length ≤ 255) (secretBounded : secret.length ≤ 255) (nonempty : inputs ≠ [])
    (whole : server.inBuffer ++ sent inputs = credentials name secret ++ rest) :
    Framable name secret server inputs := by
  have enough : (credentials name secret).length ≤ (server.inBuffer ++ sent inputs).length := by
    rw [whole, List.length_append]
    exact Nat.le_add_right ..
  obtain ⟨first, input, later, cut, unfinished, long⟩ := exists_completing nonempty enough
  have inside := prefix_of_cut whole cut
  obtain ⟨nameIndexed, secretIndexed⟩ := framed.indexed first input later cut unfinished
  rw [length_credentials] at long
  rw [authData_nameLength input.stack inside (by omega)] at nameIndexed secretIndexed
  have nameShort := (signedChar_nonneg_iff nameBounded).mp (nameIndexed (by omega))
  rw [char_length_short nameShort, authData_secretLength input.stack inside nameBounded (by omega)] at secretIndexed
  have secretShort := (signedChar_nonneg_iff secretBounded).mp (secretIndexed (by omega) (by omega)).2
  refine ⟨nameShort, secretShort, ?_⟩
  intro k inRange stops
  have last : inputs.take (k + 1) = inputs.take k ++ [inputs[k]] := List.take_succ_eq_append_getElem inRange
  have cut : inputs.take k ++ inputs[k] :: inputs.drop (k + 1) = inputs := by
    rw [← List.drop_eq_getElem_cons inRange, List.take_append_drop]
  rw [last] at stops
  have unfinished : Unfinished name secret server (inputs.take k) := by
    right
    rw [sent_snoc, ← List.append_assoc, List.length_append] at stops
    rw [length_credentials]
    omega
  have inside := prefix_of_cut whole cut
  have behind := (framed.indexed _ _ _ cut unfinished).secret (by omega)
  rw [authData_nameLength inputs[k].stack inside (by omega), char_length_short nameShort, stops] at behind
  have indexed := (behind (by omega)).1
  omega

/-- The message is framed, however it is cut, for lengths that a signed length byte can
count and unless an event ends right behind the name. -/
theorem auth_framed_iff (platform : Platform) (config : ServerConfig) (name secret : List Byte)
    (nameBounded : name.length ≤ 255) (secretBounded : secret.length ≤ 255) (server : Server)
    (live : server.live = true) (readCb : server.readCb = .onAuthRead) (inputs : List Input)
    (nonempty : inputs ≠ []) (bring : ∀ input ∈ inputs, input.Brings) (rest : List Byte)
    (whole : server.inBuffer ++ sent inputs = credentials name secret ++ rest) :
    Framed platform config name secret server inputs ↔ Framable name secret server inputs := by
  constructor
  · exact fun framed => framed.framable nameBounded secretBounded nonempty whole
  · intro framable
    constructor
    · exact fun first => run_undecided live readCb framable bring whole first
    · intro first input later before outs cut unfinished long path
      obtain ⟨before', outs', path', undecided⟩ :=
        run_undecided live readCb framable bring whole first _ cut unfinished
      obtain ⟨rfl, -⟩ := Prod.mk.inj (Option.some.inj (path'.symm.trans path))
      have brings := bring input (by simp [← cut])
      obtain inside | ⟨more, arrived, -⟩ := Run.prefix_split (prefix_of_cut whole cut)
      · exact absurd inside (Nat.not_lt.mpr long)
      · cases input with
        | segment segment stack =>
          have decided := undecided.completes platform config framable.nameShort framable.secretShort brings arrived
          exact decided
        | finish => exact brings.elim
        | connected => exact brings.elim
    · exact fun first input later cut _ => framable.indexed whole cut input.stack

/-- The user u with the password p, in two events. -/
theorem cut_credentials_framed : Framed resolving ⟨none⟩ [117] [112] { Server.start with readCb := .onAuthRead }
    [.segment [1, 1, 117, 1] blank, .segment [112, 5, 1] blank] :=
  (auth_framed_iff resolving ⟨none⟩ [117] [112] (by decide) (by decide) _ rfl rfl _ (by decide) (by decide)
    [5, 1] rfl).mpr (by decide)

/-- Cut behind the name, the message is judged with a password that never arrived. -/
theorem cut_behind_name_decides : ¬Framed resolving ⟨none⟩ [117] [112]
    { Server.start with readCb := .onAuthRead } [.segment [1, 1, 117] blank, .segment [1, 112] blank] := by
  intro framed
  obtain ⟨last, outs, path, undecided⟩ := framed.waits [.segment [1, 1, 117] blank] _ rfl (.inr (by decide))
  cases path
  exact absurd undecided.log (by decide)

end Devent.Docks
