import Devent.Docks.Segmentation
import Devent.Docks.Authentication

/-! What a read event leaves in the in-buffer. A handler that takes its message installs
the next one and does not call it, so a client that does not wait for the answer is only
served when it sends again. -/
namespace Devent.Docks

variable {server server' : Server} {config : ServerConfig} {stack : Nat → Byte} {buffer : List Byte}

/-- The array over the buffer, where nothing is left of the stack. -/
def bufferData (buffer : List Byte) : Nat → Byte := authData buffer fun _ => 0

/-- A username and password message of another version, or with all its bytes. -/
def CompleteAuth (buffer : List Byte) : Prop :=
  let data := bufferData buffer
  2 ≤ buffer.length ∧
    (data 0 ≠ authVersion1 ∨ 3 + usernameLength data + passwordLength data ≤ buffer.length)

instance (buffer : List Byte) : Decidable (CompleteAuth buffer) := inferInstanceAs (Decidable (_ ∧ _))

/-- The bytes are all that a handler of the handshake can wait for. -/
def ReadCallback.Complete (methodCount : Nat) (buffer : List Byte) : ReadCallback → Prop
  | .onReadMethods => 2 ≤ buffer.length
  | .onReadMethodsInner => methodCount ≤ buffer.length
  | .onAuthRead => CompleteAuth buffer
  | .connectRead => connHeaderLen ≤ buffer.length
  | .readAddress | .serverRead => False

instance (methodCount : Nat) (buffer : List Byte) : (cb : ReadCallback) →
    Decidable (cb.Complete methodCount buffer)
  | .onReadMethods | .onReadMethodsInner | .connectRead => inferInstanceAs (Decidable (_ ≤ _))
  | .onAuthRead => inferInstanceAs (Decidable (CompleteAuth buffer))
  | .readAddress | .serverRead => inferInstanceAs (Decidable False)

/-- No complete message waits in the buffer of a live connection. -/
def Settled (server : Server) : Prop :=
  server.live = true → ¬server.readCb.Complete server.context.methodCount.toNat server.inBuffer

instance (server : Server) : Decidable (Settled server) := inferInstanceAs (Decidable (_ → _))

/-- Behind the offered methods there is no complete message for what the choice installs. -/
def MethodsAlone (config : ServerConfig) (count : Nat) (buffer : List Byte) : Prop :=
  0 < count → count ≤ buffer.length →
    (negotication config (buffer.take count) = methodNoAuthenticationRequired →
      (buffer.drop count).length < connHeaderLen) ∧
    (negotication config (buffer.take count) = methodUsernamePassword → ¬CompleteAuth (buffer.drop count))

instance (config : ServerConfig) (count : Nat) (buffer : List Byte) :
    Decidable (MethodsAlone config count buffer) := inferInstanceAs (Decidable (_ → _ → _ ∧ _))

/-- What a judged message leaves: nothing is taken when the stack supplied its end. -/
def authRest (buffer : List Byte) (data : Nat → Byte) : List Byte :=
  if 3 + usernameLength data + passwordLength data ≤ buffer.length then
    buffer.drop (3 + usernameLength data + passwordLength data)
  else buffer

/-- A whole message has lengths below 128, and a judged one leaves less than a header. -/
structure AuthAlone (buffer : List Byte) (data : Nat → Byte) : Prop where
  lengths : data 0 = authVersion1 → 3 + usernameLength data + passwordLength data ≤ buffer.length →
    usernameLength data < 128 ∧ passwordLength data < 128
  behind : Completes buffer data → (authRest buffer data).length < connHeaderLen

instance (buffer : List Byte) (data : Nat → Byte) : Decidable (AuthAlone buffer data) :=
  decidable_of_iff ((data 0 = authVersion1 →
        3 + usernameLength data + passwordLength data ≤ buffer.length →
          usernameLength data < 128 ∧ passwordLength data < 128) ∧
      (Completes buffer data → (authRest buffer data).length < connHeaderLen))
    ⟨fun ⟨lengths, behind⟩ => ⟨lengths, behind⟩, fun alone => ⟨alone.lengths, alone.behind⟩⟩

/-- The segment is in step with the server: the message that it completes has no complete
message behind it, and is one the server takes. -/
def InStep (config : ServerConfig) (server : Server) : Input → Prop
  | .segment bytes stack =>
    let buffer := server.inBuffer ++ bytes
    match server.readCb with
    | .onReadMethods => buffer[0]? = some socks5Version → 2 ≤ buffer.length →
        MethodsAlone config (buffer[1]?.getD 0).toNat (buffer.drop 2)
    | .onReadMethodsInner => MethodsAlone config server.context.methodCount.toNat buffer
    | .onAuthRead => 2 ≤ buffer.length → AuthAlone buffer (authData buffer stack)
    | .connectRead | .readAddress | .serverRead => True
  | .finish _ => True
  | .connected => True

theorem settled_of_dead (dead : server.live = false) : Settled server := by
  intro live
  rw [dead] at live
  cases live

/-- A handler installed over a buffer. -/
theorem settled_setReadCb_iff {cb : ReadCallback} (live : server.live = true) :
    Settled (server.setReadCb cb) ↔ ¬cb.Complete server.context.methodCount.toNat server.inBuffer := by
  rw [Settled, Server.setReadCb, if_pos live]
  exact ⟨fun settled => settled live, fun incomplete _ => incomplete⟩

/-- The handler that the chosen method installs, or none. -/
theorem chosen_settled_iff {method : Byte} (live : server.live = true) :
    Settled (if method = methodNoAuthenticationRequired then server.setReadCb .connectRead
      else if method = methodUsernamePassword then server.setReadCb .onAuthRead else server.free) ↔
    (method = methodNoAuthenticationRequired → server.inBuffer.length < connHeaderLen) ∧
      (method = methodUsernamePassword → ¬CompleteAuth server.inBuffer) := by
  split
  · rename_i none
    rw [settled_setReadCb_iff live]
    constructor
    · intro incomplete
      refine ⟨fun _ => Nat.not_le.mp incomplete, fun password => ?_⟩
      rw [none] at password
      cases password
    · exact fun alone => Nat.not_le.mpr (alone.1 none)
  · rename_i required
    split
    · rename_i password
      rw [settled_setReadCb_iff live]
      exact ⟨fun incomplete => ⟨fun none => absurd none required, fun _ => incomplete⟩,
        fun alone => alone.2 password⟩
    · rename_i refused
      exact ⟨fun _ => ⟨fun none => absurd none required, fun password => absurd password refused⟩,
        fun _ => settled_of_dead rfl⟩

theorem onReadMethodsInner_settled_iff (live : server.live = true)
    (readCb : server.readCb = .onReadMethodsInner) :
    Settled (onReadMethodsInner config server) ↔
      MethodsAlone config server.context.methodCount.toNat server.inBuffer := by
  simp only [onReadMethodsInner]
  split
  · rename_i short
    constructor
    · exact fun _ _ enough => absurd enough (Nat.not_le.mpr short)
    · intro _ _
      rw [readCb]
      exact Nat.not_le.mpr short
  · rename_i enough
    split
    · rename_i refused
      have none : server.context.methodCount.toNat = 0 := by
        apply Nat.eq_zero_of_not_pos
        intro positive
        have fits : 0 < server.context.methodCount.toNat ∧
            server.context.methodCount.toNat ≤ server.inBuffer.length := ⟨positive, Nat.not_lt.mp enough⟩
        rw [Server.readFull, if_pos fits] at refused
        cases refused
      constructor
      · intro _ positive
        exact absurd none (Nat.ne_of_gt positive)
      · exact fun _ => settled_of_dead rfl
    · rename_i methods next read
      obtain ⟨⟨positive, fits⟩, rfl, rfl⟩ := Server.readFull_eq_some_iff.mp read
      constructor
      · intro settled _ _
        exact (chosen_settled_iff (by exact live)).mp settled
      · intro alone
        refine (chosen_settled_iff ?_).mpr (alone positive fits)
        exact live

theorem onReadMethods_settled_iff (live : server.live = true) (readCb : server.readCb = .onReadMethods) :
    Settled (onReadMethods config server) ↔
      (server.inBuffer[0]? = some socks5Version → 2 ≤ server.inBuffer.length →
        MethodsAlone config (server.inBuffer[1]?.getD 0).toNat (server.inBuffer.drop 2)) := by
  simp only [onReadMethods]
  split
  · rename_i refused
    have short : server.inBuffer.length < 2 := by
      apply Nat.not_le.mp
      intro two
      rw [Server.readFull, if_pos ⟨by decide, two⟩] at refused
      cases refused
    constructor
    · exact fun _ _ two => absurd two (Nat.not_le.mpr short)
    · intro _ _
      rw [readCb]
      exact Nat.not_le.mpr short
  · rename_i versionMethod next read
    obtain ⟨⟨-, two⟩, rfl, rfl⟩ := Server.readFull_eq_some_iff.mp read
    have version : (server.inBuffer.take 2)[0]? = server.inBuffer[0]? := List.getElem?_take_of_lt (by decide)
    have count : (server.inBuffer.take 2)[1]? = server.inBuffer[1]? := List.getElem?_take_of_lt (by decide)
    rw [version, count]
    split
    · rename_i other
      exact ⟨fun _ same => absurd same other, fun _ => settled_of_dead rfl⟩
    · rename_i same
      rw [Server.setReadCb, if_pos (by exact live)]
      constructor
      · intro settled _ _
        exact (onReadMethodsInner_settled_iff (by exact live) rfl).mp settled
      · intro alone
        refine (onReadMethodsInner_settled_iff ?_ rfl).mpr (alone (Decidable.not_not.mp same) two)
        exact live

theorem authData_peeked (stack : Nat → Byte) {i : Nat} (peeked : i < 1024) (arrived : i < buffer.length) :
    authData buffer stack i = bufferData buffer i := by
  have present : i < (buffer.take 1024).length := by
    rw [List.length_take]
    exact Nat.lt_min.mpr ⟨peeked, arrived⟩
  simp only [bufferData, authData, List.getElem?_eq_getElem present, Option.getD_some]

/-- The stack does not make a message complete. -/
theorem completeAuth_iff (stack : Nat → Byte) : CompleteAuth buffer ↔
    2 ≤ buffer.length ∧ (authData buffer stack 0 ≠ authVersion1 ∨
      3 + usernameLength (authData buffer stack) + passwordLength (authData buffer stack) ≤ buffer.length) := by
  apply and_congr_right
  intro two
  have version : authData buffer stack 0 = bufferData buffer 0 := authData_peeked stack (by decide) (by omega)
  have name : usernameLength (authData buffer stack) = usernameLength (bufferData buffer) := by
    rw [usernameLength, authData_peeked stack (by decide) (by omega), usernameLength]
  have short : usernameLength (bufferData buffer) < 256 := UInt8.toNat_lt _
  rw [version, name]
  apply or_congr_right
  obtain missing | there := Nat.lt_or_ge (2 + usernameLength (bufferData buffer)) buffer.length
  · have secret : passwordLength (authData buffer stack) = passwordLength (bufferData buffer) := by
      rw [passwordLength, name, authData_peeked stack (by omega) missing, passwordLength]
    rw [secret]
  · omega

/-- The unsigned subtraction, while it does not wrap. -/
theorem room_eq {len n : Nat} (fits : 3 + n ≤ min 1024 len) :
    sizeT (((min 1024 len : Nat) : Int) - 2 - n - 1) = min 1024 len - 3 - n := by
  have room : ((min 1024 len : Nat) : Int) - 2 - n - 1 = ((min 1024 len - 3 - n : Nat) : Int) := by omega
  rw [room, sizeT_natCast (by omega)]

section Checks

variable {data : Nat → Byte}

/-- A completed message passes the checks of the code, whose lengths are then its own. -/
theorem Completes.checks (message : Completes buffer data) (two : 2 ≤ buffer.length) :
    sizeT (signedChar (data 1)) ≤ min 1024 buffer.length - 2 ∧
    sizeT (signedChar (data (2 + sizeT (signedChar (data 1))))) ≤
      sizeT ((min 1024 buffer.length : Nat) - 2 - sizeT (signedChar (data 1)) - 1) ∧
    2 + sizeT (signedChar (data 1)) + 1 + sizeT (signedChar (data (2 + sizeT (signedChar (data 1))))) ≤ 1024 := by
  obtain ⟨-, name, secret, arrived⟩ := message
  simp only [usernameLength, passwordLength] at name secret arrived
  rw [sizeT_signedChar_low name, sizeT_signedChar_low secret]
  refine ⟨by omega, ?_, by omega⟩
  obtain stops | whole := arrived
  · have minus : ((min 1024 buffer.length : Nat) : Int) - 2 - (data 1).toNat - 1 = -1 := by omega
    have wrapped : sizeT (((min 1024 buffer.length : Nat) : Int) - 2 - (data 1).toNat - 1) = 2 ^ 64 - 1 := by
      rw [minus]
      rfl
    omega
  · rw [room_eq (by omega)]
    omega

/-- A message with a length that does not fit into the array is not whole. -/
theorem missing_of_large (two : 2 ≤ buffer.length)
    (nameFits : sizeT (signedChar (data 1)) ≤ min 1024 buffer.length - 2)
    (secretFits : sizeT (signedChar (data (2 + sizeT (signedChar (data 1))))) ≤
      sizeT ((min 1024 buffer.length : Nat) - 2 - sizeT (signedChar (data 1)) - 1))
    (large : 1024 < 2 + sizeT (signedChar (data 1)) + 1 +
      sizeT (signedChar (data (2 + sizeT (signedChar (data 1)))))) :
    buffer.length < 3 + usernameLength data + passwordLength data := by
  apply Nat.lt_of_not_le
  intro whole
  simp only [passwordLength, usernameLength] at whole
  obtain ⟨nameLow, nameEq⟩ := char_length (b := data 1) (by omega)
  rw [nameEq] at nameFits secretFits large
  rw [room_eq (by omega)] at secretFits
  obtain ⟨-, secretEq⟩ := char_length (b := data (2 + (data 1).toNat)) (by omega)
  rw [secretEq] at large secretFits
  omega

end Checks

/-- A message that is not judged stays, unless its length came from the stack. -/
theorem onAuthRead_outcome (config : ServerConfig) (stack : Nat → Byte) (two : 2 ≤ server.inBuffer.length)
    (version : authData server.inBuffer stack 0 = authVersion1) :
    let data := authData server.inBuffer stack
    (¬Completes server.inBuffer data ∧ onAuthRead config stack server = server) ∨
      ((onAuthRead config stack server).live = false ∧ ¬Completes server.inBuffer data ∧
        server.inBuffer.length < 3 + usernameLength data + passwordLength data) ∨
      (Completes server.inBuffer data ∧ ∃ before : Server, before.live = server.live ∧
        before.inBuffer = authRest server.inBuffer data ∧
        onAuthRead config stack server = before.setReadCb .connectRead) := by
  have current : ¬authData server.inBuffer stack 0 ≠ authVersion1 := fun other => other version
  simp only [onAuthRead, if_neg (Nat.not_lt.mpr two), if_neg current]
  generalize authData server.inBuffer stack = data at version
  split
  · rename_i short
    exact .inl ⟨fun message => Nat.not_lt.mpr (message.checks two).1 short, rfl⟩
  · rename_i nameFits
    split
    · rename_i short
      exact .inl ⟨fun message => Nat.not_lt.mpr (message.checks two).2.1 short, rfl⟩
    · rename_i secretFits
      split
      · rename_i large
        exact .inr (.inl ⟨rfl, fun message => Nat.not_lt.mpr (message.checks two).2.2 large,
          missing_of_large two (Nat.not_lt.mp nameFits) (Nat.not_lt.mp secretFits) large⟩)
      · rename_i inArray
        obtain ⟨message, -, -⟩ := completes_of_checks version two (Nat.not_lt.mp nameFits)
          (Nat.not_lt.mp secretFits) (Nat.not_lt.mp inArray)
        have name : sizeT (signedChar (data 1)) = usernameLength data := sizeT_signedChar_low message.name
        have secret : sizeT (signedChar (data (2 + usernameLength data))) = passwordLength data :=
          sizeT_signedChar_low message.secret
        have total : 2 + usernameLength data + 1 + passwordLength data =
            3 + usernameLength data + passwordLength data := by omega
        rw [name, secret, total]
        by_cases whole : 3 + usernameLength data + passwordLength data ≤ server.inBuffer.length
        · have read : server.readFull (3 + usernameLength data + passwordLength data) = some (_, _) :=
            if_pos ⟨by omega, whole⟩
          simp only [read]
          refine .inr (.inr ⟨message, _, ?_, ?_, rfl⟩)
          · rfl
          · exact (if_pos whole).symm
        · have refused : server.readFull (3 + usernameLength data + passwordLength data) = none :=
            if_neg fun fits => whole fits.2
          simp only [refused]
          refine .inr (.inr ⟨message, _, ?_, ?_, rfl⟩)
          · rfl
          · exact (if_neg whole).symm

/-- What is not judged is alone when it is not whole. -/
theorem alone_iff_of_not_completes {data : Nat → Byte} (version : data 0 = authVersion1)
    (unjudged : ¬Completes buffer data) :
    AuthAlone buffer data ↔ buffer.length < 3 + usernameLength data + passwordLength data := by
  constructor
  · intro alone
    apply Nat.lt_of_not_le
    intro whole
    obtain ⟨name, secret⟩ := alone.lengths version whole
    exact unjudged ⟨version, name, secret, .inr whole⟩
  · intro missing
    exact ⟨fun _ whole => absurd whole (Nat.not_le.mpr missing), fun judged => absurd judged unjudged⟩

theorem onAuthRead_settled_iff (live : server.live = true) (readCb : server.readCb = .onAuthRead) :
    Settled (onAuthRead config stack server) ↔
      (2 ≤ server.inBuffer.length → AuthAlone server.inBuffer (authData server.inBuffer stack)) := by
  by_cases two : 2 ≤ server.inBuffer.length
  · rw [forall_prop_of_true two]
    by_cases version : authData server.inBuffer stack 0 = authVersion1
    · obtain ⟨unjudged, waits⟩ | ⟨dead, unjudged, missing⟩ | ⟨judged, before, kept, rest, installs⟩ :=
        onAuthRead_outcome config stack two version
      · rw [waits, alone_iff_of_not_completes version unjudged, Settled, readCb]
        simp only [live, ReadCallback.Complete, completeAuth_iff stack, two, version, ne_eq, not_true_eq_false,
          false_or, true_and, forall_const, Nat.not_le]
      · exact iff_of_true (settled_of_dead dead) ((alone_iff_of_not_completes version unjudged).mpr missing)
      · rw [installs, settled_setReadCb_iff (kept.trans live)]
        simp only [ReadCallback.Complete, rest, Nat.not_le]
        exact ⟨fun short => ⟨fun _ _ => ⟨judged.name, judged.secret⟩, fun _ => short⟩,
          fun alone => alone.behind judged⟩
    · have freed : onAuthRead config stack server = server.free := by
        simp only [onAuthRead, if_neg (Nat.not_lt.mpr two), if_pos version]
      rw [freed]
      exact iff_of_true (settled_of_dead rfl)
        ⟨fun same => absurd same version, fun judged => absurd judged.version version⟩
  · have waits : onAuthRead config stack server = server := by
      simp only [onAuthRead, if_pos (Nat.not_le.mp two)]
    rw [waits, Settled, readCb]
    exact iff_of_true (fun _ complete => two complete.1) (fun enough => absurd enough two)

theorem connectRead_settled (readCb : server.readCb = .connectRead)
    (platform : Platform) : Settled (connectRead platform server) := by
  simp only [connectRead]
  split
  · rename_i refused
    intro _
    rw [readCb]
    intro enough
    rw [Server.readFull, if_pos ⟨by decide, enough⟩] at refused
    cases refused
  · split
    · exact settled_of_dead rfl
    · split
      · exact settled_of_dead rfl
      · split
        · exact settled_of_dead rfl
        · intro still
          simp only [Server.setReadCb] at still ⊢
          split
          · exact id
          · rename_i dead
            rw [if_neg dead] at still
            exact absurd still dead

/-- The address is read by one callback, which nothing it does replaces. -/
theorem readAddress_settled (readCb : server.readCb = .readAddress) (platform : Platform) :
    Settled (readAddress platform server) := by
  have acts : Acts Effect.IsUnjudged (fun _ => False) server (readAddress platform server) :=
    readAddress_acts platform server
  have kept : (readAddress platform server).readCb = .readAddress := by
    obtain kept | replaced := acts.installs
    · rw [kept, readCb]
    · exact replaced.elim
  intro _
  rw [kept]
  exact id

theorem received_settled_iff (platform : Platform) (config : ServerConfig) (stack : Nat → Byte)
    (segment : List Byte) (live : server.live = true) :
    Settled (received platform config stack segment server) ↔
      InStep config server (.segment segment stack) := by
  have calls : received platform config stack segment server =
      match server.readCb with
      | .onReadMethods => onReadMethods config (called segment server)
      | .onReadMethodsInner => onReadMethodsInner config (called segment server)
      | .onAuthRead => onAuthRead config stack (called segment server)
      | .connectRead => connectRead platform (called segment server)
      | .readAddress => readAddress platform (called segment server)
      | .serverRead => serverRead (called segment server) := rfl
  rw [calls]
  cases readCb : server.readCb with
  | onReadMethods =>
    simp only [InStep, readCb]
    exact onReadMethods_settled_iff (by exact live) (by exact readCb)
  | onReadMethodsInner =>
    simp only [InStep, readCb]
    exact onReadMethodsInner_settled_iff (by exact live) (by exact readCb)
  | onAuthRead =>
    simp only [InStep, readCb]
    exact onAuthRead_settled_iff (by exact live) (by exact readCb)
  | connectRead =>
    simp only [InStep, readCb, iff_true]
    exact connectRead_settled (by exact readCb) platform
  | readAddress =>
    simp only [InStep, readCb, iff_true]
    exact readAddress_settled (by exact readCb) platform
  | serverRead =>
    simp only [InStep, readCb, iff_true]
    intro _
    have kept : (serverRead (called segment server)).readCb = .serverRead := readCb
    rw [kept]
    exact id

/-- One input leaves the server settled exactly when it is in step. -/
theorem step_settled_iff {platform : Platform} {input : Input} {next : Server} {out : Unit}
    (taken : step platform config server input = some (next, out)) :
    Settled next ↔ InStep config server input := by
  cases input with
  | segment bytes stack =>
    simp only [step] at taken
    split at taken
    · rename_i arrives
      cases taken
      exact received_settled_iff platform config stack bytes arrives.1
    · cases taken
  | finish stack =>
    simp only [step] at taken
    split at taken
    · cases taken
      refine iff_of_true ?_ trivial
      generalize (if server.inBuffer = [] then server else server.callRead platform config stack) = ended
      split
      · exact settled_of_dead rfl
      · rename_i dead
        exact settled_of_dead (Bool.eq_false_of_not_eq_true dead)
    · cases taken
  | connected =>
    simp only [step] at taken
    split at taken
    · cases taken
      exact iff_of_true (fun _ => id) trivial
    · cases taken

/-- The inputs that one call of `docket_on_event_read` takes from the socket, the last one
apart. -/
structure ReadEvent where
  earlier : List Input
  last : Input

/-- A read event handled to its end. -/
def readEvent (platform : Platform) (config : ServerConfig) (server : Server) (event : ReadEvent) :
    Option (Server × Unit) := do
  let (middle, _) ← Run.run (step platform config) server event.earlier
  step platform config middle event.last

/-- A read event that is handled to its end leaves no complete message. -/
def LeavesSettled (platform : Platform) (config : ServerConfig) (server : Server) (event : ReadEvent) : Prop :=
  ∀ next out, readEvent platform config server event = some (next, out) → Settled next

/-- The input that the event ends with is in step. -/
def EndsInStep (platform : Platform) (config : ServerConfig) (server : Server) (event : ReadEvent) : Prop :=
  ∀ middle outs, Run.run (step platform config) server event.earlier = some (middle, outs) →
    (step platform config middle event.last).isSome → InStep config middle event.last

theorem leavesSettled_iff (platform : Platform) (config : ServerConfig) (server : Server) (event : ReadEvent) :
    LeavesSettled platform config server event ↔ EndsInStep platform config server event := by
  constructor
  · intro settled middle outs reads ends
    obtain ⟨⟨next, out⟩, taken⟩ := Option.isSome_iff_exists.mp ends
    refine (step_settled_iff taken).mp (settled next out ?_)
    rw [readEvent, reads]
    exact taken
  · intro inStep next out handled
    obtain ⟨⟨middle, outs⟩, reads, taken⟩ := Option.bind_eq_some_iff.mp handled
    have ends : (step platform config middle event.last).isSome := Option.isSome_iff_exists.mpr ⟨_, taken⟩
    exact (step_settled_iff taken).mpr (inStep middle outs reads ends)

/-- Along every run no read event leaves a complete message exactly when each one ends with
a segment in step. -/
theorem run_settled_iff (platform : Platform) (config : ServerConfig) (events : List ReadEvent) :
    Run.Along (readEvent platform config) (LeavesSettled platform config) Server.start events ↔
      Run.Along (readEvent platform config) (EndsInStep platform config) Server.start events :=
  Run.along_congr (leavesSettled_iff platform config) Server.start events

/-- A request sent along with the methods is not read. -/
theorem early_request_stranded : ¬∀ (platform : Platform) (config : ServerConfig) (events : List ReadEvent),
    Run.Along (readEvent platform config) (LeavesSettled platform config) Server.start events := by
  intro claim
  have leaves := claim reachable ⟨none⟩
    [⟨[], .segment [5, 1, 0, 5, 1, 0, 1, 127, 0, 0, 1, 0, 80] blank⟩]
  exact absurd (leaves.1 _ _ rfl rfl) (by decide)

end Devent.Docks
