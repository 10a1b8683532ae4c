import Devent.Docks.AuthFraming

/-! Which credentials are accepted. The message counts its bytes, the users map compares
strings: from the first zero byte on, nothing of a name or a password is looked at. -/
namespace Devent.Docks

/-- The table holds an account of this name and password, byte for byte. -/
def Account (users : CHashMap CString) (name secret : List Byte) : Prop :=
  ∃ node ∈ users.nodes.flatten, node.key.bytes = name ∧ node.value.bytes = secret

instance (users : CHashMap CString) (name secret : List Byte) : Decidable (Account users name secret) :=
  inferInstanceAs (Decidable (∃ node ∈ _, _ ∧ _))

/-- `docks_on_auth_read` answers 01 00. -/
def AnswersSuccess (config : ServerConfig) (stack : Nat → Byte) (server : Server) : Prop :=
  .write [authVersion1, authSuccess] ∈ (onAuthRead config stack server).log.drop server.log.length

instance (config : ServerConfig) (stack : Nat → Byte) (server : Server) :
    Decidable (AnswersSuccess config stack server) := inferInstanceAs (Decidable (_ ∈ _))

/-- The account that the parts before the first zero bytes look up. -/
def Found (users : CHashMap CString) (name secret : List Byte) : Prop :=
  users.get (CString.ofBytes name) = some (CString.ofBytes secret)

instance (users : CHashMap CString) (name secret : List Byte) : Decidable (Found users name secret) :=
  inferInstanceAs (Decidable (_ = _))

/-- An account has lengths that a signed char can count and is found under its hash, and
bytes that are none do not start with one in front of a zero byte. -/
structure CheckedExactly (users : CHashMap CString) (name secret : List Byte) : Prop where
  account : Account users name secret →
    name.length ≤ 127 ∧ secret.length ≤ 127 ∧ Found users name secret
  zero : 0 ∈ name ∨ 0 ∈ secret → name.length ≤ 127 → secret.length ≤ 127 → ¬Found users name secret

instance (users : CHashMap CString) (name secret : List Byte) : Decidable (CheckedExactly users name secret) :=
  decidable_of_iff ((Account users name secret →
        name.length ≤ 127 ∧ secret.length ≤ 127 ∧ Found users name secret) ∧
      (0 ∈ name ∨ 0 ∈ secret → name.length ≤ 127 → secret.length ≤ 127 → ¬Found users name secret))
    ⟨fun ⟨account, zero⟩ => ⟨account, zero⟩, fun exactly => ⟨exactly.account, exactly.zero⟩⟩

variable {server : Server} {users : CHashMap CString} {config : ServerConfig} {stack : Nat → Byte}
  {name secret rest : List Byte}

/-- A length from 128 on widens to one that never arrives. -/
theorem onAuthRead_long (whole : server.inBuffer = credentials name secret ++ rest)
    (nameBounded : name.length ≤ 255) (secretBounded : secret.length ≤ 255)
    (long : ¬(name.length ≤ 127 ∧ secret.length ≤ 127)) : onAuthRead config stack server = server := by
  have length : server.inBuffer.length = 3 + name.length + secret.length + rest.length := by
    rw [whole, List.length_append, length_credentials]
  have inside : server.inBuffer <+: credentials name secret ++ rest := ⟨[], by rw [List.append_nil, whole]⟩
  have two : ¬server.inBuffer.length < 2 := by omega
  have version : ¬authData server.inBuffer stack 0 ≠ authVersion1 := fun other =>
    other (authData_version stack inside (by omega))
  have nameLength := authData_nameLength stack inside (by omega)
  have huge {n : Nat} (large : ¬n ≤ 127) (bounded : n ≤ 255) :
      1024 < sizeT (signedChar (UInt8.ofNat n)) := by
    have byte := length_byte bounded
    rw [sizeT_signedChar_high (by omega)]
    omega
  by_cases nameShort : name.length ≤ 127
  · have secretLength := authData_secretLength stack inside nameBounded (by omega)
    have secretHuge := huge (fun short => long ⟨nameShort, short⟩) secretBounded
    have nameThere : ¬min 1024 server.inBuffer.length - 2 < name.length := by omega
    have room : sizeT ((min 1024 server.inBuffer.length : Nat) - 2 - name.length - 1) = _ := room_eq (by omega)
    have secretMissing : min 1024 server.inBuffer.length - 3 - name.length <
        sizeT (signedChar (UInt8.ofNat secret.length)) := by omega
    simp only [onAuthRead, if_neg two, if_neg version, nameLength, char_length_short nameShort,
      if_neg nameThere, secretLength, room, if_pos secretMissing]
  · have nameMissing : min 1024 server.inBuffer.length - 2 < sizeT (signedChar (UInt8.ofNat name.length)) := by
      have nameHuge := huge nameShort nameBounded
      omega
    simp only [onAuthRead, if_neg two, if_neg version, nameLength, if_pos nameMissing]

theorem authReply_success_iff {username password : CString} {success success' : Bool} :
    Effect.write [authVersion1, authSuccess] ∈
        [Effect.auth username password success', Effect.write (authReply success)] ↔ success = true := by
  cases success <;> simp [authReply, authSuccess, authFailure]

theorem answersSuccess_iff (live : server.live = true)
    (whole : server.inBuffer = credentials name secret ++ rest)
    (nameBounded : name.length ≤ 255) (secretBounded : secret.length ≤ 255) :
    AnswersSuccess ⟨some users⟩ stack server ↔
      (name.length ≤ 127 ∧ secret.length ≤ 127) ∧ Found users name secret := by
  by_cases short : name.length ≤ 127 ∧ secret.length ≤ 127
  · have kept : (server.consume (3 + name.length + secret.length)).live = true := live
    have logged : (server.consume (3 + name.length + secret.length)).log = server.log := rfl
    have found : accepts ⟨some users⟩ (CString.ofBytes name) (CString.ofBytes secret) = true ↔
        Found users name secret := decide_eq_true_iff
    rw [AnswersSuccess, onAuthRead_whole whole short.1 short.2, judge_log _ _ _ kept, logged, List.drop_left,
      and_iff_right short, ← found, authReply_success_iff]
  · rw [AnswersSuccess, onAuthRead_long whole nameBounded secretBounded short, List.drop_length]
    exact iff_of_false List.not_mem_nil fun found => short found.1

theorem Account.no_zero (account : Account users name secret) : 0 ∉ name ∧ 0 ∉ secret := by
  obtain ⟨node, -, rfl, rfl⟩ := account
  exact ⟨node.key.terminated, node.value.terminated⟩

theorem same_string {s t : CString} (same : s.bytes = t.bytes) : s = t := by
  rw [← CString.ofBytes_bytes s, ← CString.ofBytes_bytes t, same]

/-- What is found is an account of the table, of the parts before the first zero bytes. -/
theorem Found.account (found : Found users name secret) :
    Account users (CString.ofBytes name).bytes (CString.ofBytes secret).bytes := by
  obtain ⟨node, reached, value⟩ := Option.map_eq_some_iff.mp found
  obtain ⟨chain, bucket, stored⟩ := Option.bind_eq_some_iff.mp reached
  have member : node ∈ users.nodes.flatten :=
    List.mem_flatten.mpr ⟨chain, List.mem_of_getElem? bucket, Keyed.lookup_mem stored⟩
  exact ⟨node, member, by rw [Keyed.lookup_key stored], by rw [value]⟩

theorem ofBytes_whole {bytes : List Byte} (clean : 0 ∉ bytes) : (CString.ofBytes bytes).bytes = bytes := by
  rw [CString.ofBytes, List.takeWhile_eq_self_iff]
  exact fun b member => decide_eq_true fun zero => clean (zero ▸ member)

/-- The answer is the right one exactly when an account can be counted and found, and nothing
with a zero byte starts with one. -/
theorem credentials_checked_iff (users : CHashMap CString) (name secret rest : List Byte)
    (nameBounded : name.length ≤ 255) (secretBounded : secret.length ≤ 255) (stack : Nat → Byte)
    (server : Server) (live : server.live = true)
    (whole : server.inBuffer = credentials name secret ++ rest) :
    (AnswersSuccess ⟨some users⟩ stack server ↔ Account users name secret) ↔
      CheckedExactly users name secret := by
  rw [answersSuccess_iff live whole nameBounded secretBounded]
  constructor
  · intro checked
    constructor
    · intro account
      obtain ⟨⟨nameShort, secretShort⟩, found⟩ := checked.mpr account
      exact ⟨nameShort, secretShort, found⟩
    · intro zero nameShort secretShort found
      obtain ⟨nameClean, secretClean⟩ := (checked.mp ⟨⟨nameShort, secretShort⟩, found⟩).no_zero
      exact zero.elim nameClean secretClean
  · intro exactly
    constructor
    · rintro ⟨⟨nameShort, secretShort⟩, found⟩
      have clean : 0 ∉ name ∧ 0 ∉ secret :=
        not_or.mp fun zero => exactly.zero zero nameShort secretShort found
      have account := found.account
      rw [ofBytes_whole clean.1, ofBytes_whole clean.2] at account
      exact account
    · intro account
      obtain ⟨nameShort, secretShort, found⟩ := exactly.account account
      exact ⟨⟨nameShort, secretShort⟩, found⟩

/-- In a well-formed table every account is found, so only lengths and zero bytes matter. -/
theorem checkedExactly_iff_of_wellFormed (wf : CHashMap.WellFormed users) :
    CheckedExactly users name secret ↔
      (Account users name secret → name.length ≤ 127 ∧ secret.length ≤ 127) ∧
      (0 ∈ name ∨ 0 ∈ secret → name.length ≤ 127 → secret.length ≤ 127 →
        ¬Account users (CString.ofBytes name).bytes (CString.ofBytes secret).bytes) := by
  have found_iff : Found users name secret ↔
      Account users (CString.ofBytes name).bytes (CString.ofBytes secret).bytes := by
    refine ⟨Found.account, ?_⟩
    rintro ⟨node, member, key, value⟩
    have reached := Keyed.lookup_of_mem wf.keys_nodup member
    rw [← wf.getNode_eq, same_string key] at reached
    rw [Found, CHashMap.get, reached, Option.map_some, same_string value]
  constructor
  · intro exactly
    refine ⟨fun account => ?_, fun zero nameShort secretShort => ?_⟩
    · obtain ⟨nameShort, secretShort, -⟩ := exactly.account account
      exact ⟨nameShort, secretShort⟩
    · rw [← found_iff]
      exact exactly.zero zero nameShort secretShort
  · rintro ⟨short, zero⟩
    constructor
    · intro account
      obtain ⟨nameShort, secretShort⟩ := short account
      refine ⟨nameShort, secretShort, found_iff.mpr ?_⟩
      rw [ofBytes_whole account.no_zero.1, ofBytes_whole account.no_zero.2]
      exact account
    · rw [found_iff]
      exact zero

/-- A users map with the one account u:p. -/
def oneUser : CHashMap CString :=
  (CHashMap.new.put ⟨[117], nul_notMem_u⟩ ⟨[112], nul_notMem_p⟩).getD CHashMap.new

/-- A server to which the message of u:p was sent, and a request behind it. -/
def asked (name secret : List Byte) : Server :=
  { Server.start with readCb := .onAuthRead, inBuffer := credentials name secret ++ [5, 1] }

theorem stored_account_checked :
    AnswersSuccess ⟨some oneUser⟩ blank (asked [117] [112]) ↔ Account oneUser [117] [112] :=
  (credentials_checked_iff oneUser [117] [112] [5, 1] (by decide) (by decide) blank _ rfl rfl).mpr (by decide)

/-- The name u, a zero byte and x is let in with the password of u. -/
theorem zero_byte_accepted :
    ¬(AnswersSuccess ⟨some oneUser⟩ blank (asked [117, 0, 120] [112]) ↔ Account oneUser [117, 0, 120] [112]) := by
  decide

end Devent.Docks
