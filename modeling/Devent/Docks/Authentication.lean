import Devent.Docks.ServerProofs
import Devent.Dlib.HashMapProofs
import Devent.Library.Run
import Devent.Library.Trace

/-! When a request is only read after valid credentials. A judgement installs the
request callback whether it accepts or not, so a run is safe as long as every
message that is judged carries a known account. -/
namespace Devent.Docks

/-- A well-formed users map with an account does require authentication. -/
theorem requiresAuth_of_account {users : CHashMap CString} (wf : CHashMap.WellFormed users)
    {username password : CString} (account : users.get username = some password) :
    ServerConfig.RequiresAuth ⟨some users⟩ := by
  obtain ⟨node, found, -⟩ := Option.map_eq_some_iff.mp account
  rw [wf.getNode_eq] at found
  have stored : 0 < users.nodes.flatten.length := List.length_pos_of_mem (Keyed.lookup_mem found)
  have counted := wf.counted
  have fits := wf.fits
  obtain ⟨k, -, upper, cap⟩ := wf.capacity
  have small : 2 ^ k ≤ 2 ^ 30 := Nat.pow_le_pow_right (by decide) upper
  have count : CHashMap.getCount (some users) = users.count := intT_small (by omega)
  constructor
  · rfl
  · rw [count]
    omega

/-- The length of the user name, as an unsigned byte. -/
def usernameLength (data : Nat → Byte) : Nat := (data 1).toNat

def passwordLength (data : Nat → Byte) : Nat := (data (2 + usernameLength data)).toNat

def messageUsername (data : Nat → Byte) : CString := CString.ofBytes (slice data 2 (usernameLength data))

def messagePassword (data : Nat → Byte) : CString :=
  CString.ofBytes (slice data (3 + usernameLength data) (passwordLength data))

/-- The buffer and the array copied from it spell a message that is judged: it is
whole, or it stops right behind the user name and the stack supplies the rest. -/
structure Completes (buffer : List Byte) (data : Nat → Byte) : Prop where
  version : data 0 = authVersion1
  name : usernameLength data < 128
  secret : passwordLength data < 128
  arrived : buffer.length = 2 + usernameLength data ∨
    3 + usernameLength data + passwordLength data ≤ buffer.length

instance (buffer : List Byte) (data : Nat → Byte) : Decidable (Completes buffer data) :=
  decidable_of_iff (data 0 = authVersion1 ∧ usernameLength data < 128 ∧ passwordLength data < 128 ∧
      (buffer.length = 2 + usernameLength data ∨
        3 + usernameLength data + passwordLength data ≤ buffer.length))
    ⟨fun ⟨version, name, secret, arrived⟩ => ⟨version, name, secret, arrived⟩,
      fun h => ⟨h.version, h.name, h.secret, h.arrived⟩⟩

theorem char_length {b : Byte} (fits : sizeT (signedChar b) ≤ 1024) :
    b.toNat < 128 ∧ sizeT (signedChar b) = b.toNat := by
  obtain low | high := Nat.lt_or_ge b.toNat 128
  · exact ⟨low, sizeT_signedChar_low low⟩
  · rw [sizeT_signedChar_high high] at fits
    omega

/-- The lengths of the code, where its checks pass, are those of a completed message. -/
theorem completes_of_checks {buffer : List Byte} {data : Nat → Byte} (version : data 0 = authVersion1)
    (two : 2 ≤ buffer.length)
    (nameFits : sizeT (signedChar (data 1)) ≤ min 1024 buffer.length - 2)
    (secretFits : sizeT (signedChar (data (2 + sizeT (signedChar (data 1))))) ≤
      sizeT ((min 1024 buffer.length : Nat) - 2 - sizeT (signedChar (data 1)) - 1))
    (inArray : 2 + sizeT (signedChar (data 1)) + 1 +
      sizeT (signedChar (data (2 + sizeT (signedChar (data 1))))) ≤ 1024) :
    Completes buffer data ∧
      CString.ofBytes (slice data 2 (sizeT (signedChar (data 1)))) = messageUsername data ∧
      CString.ofBytes (slice data (2 + sizeT (signedChar (data 1)) + 1)
        (sizeT (signedChar (data (2 + sizeT (signedChar (data 1))))))) = messagePassword data := by
  have nameBound : sizeT (signedChar (data 1)) ≤ 1024 := by omega
  obtain ⟨nameLow, nameEq⟩ := char_length nameBound
  rw [nameEq] at nameFits secretFits inArray ⊢
  have secretBound : sizeT (signedChar (data (2 + (data 1).toNat))) ≤ 1024 := by omega
  obtain ⟨secretLow, secretEq⟩ := char_length secretBound
  rw [secretEq] at secretFits inArray ⊢
  have whole : buffer.length = 2 + (data 1).toNat ∨
      3 + (data 1).toNat + (data (2 + (data 1).toNat)).toNat ≤ buffer.length := by
    obtain short | long := Nat.lt_or_ge (2 + (data 1).toNat) buffer.length
    · have room : (((min 1024 buffer.length : Nat) : Int) - 2 - (data 1).toNat - 1) =
          ((min 1024 buffer.length - 3 - (data 1).toNat : Nat) : Int) := by omega
      rw [room, sizeT_natCast (by omega)] at secretFits
      omega
    · omega
  have next : 2 + (data 1).toNat + 1 = 3 + (data 1).toNat := by omega
  rw [next]
  exact ⟨⟨version, nameLow, secretLow, whole⟩, rfl, rfl⟩

/-- `docks_on_auth_read` waits, gives up, or judges a completed message. -/
theorem onAuthRead_cases (config : ServerConfig) (stack : Nat → Byte) (server : Server) :
    (Acts Effect.IsNeutral ReadCallback.IsEarly server (onAuthRead config stack server)) ∨
      ∃ username password success before,
        Completes server.inBuffer (authData server.inBuffer stack) ∧
        username = messageUsername (authData server.inBuffer stack) ∧
        password = messagePassword (authData server.inBuffer stack) ∧
        success = decide (config.password username = some password) ∧
        Acts Effect.IsNeutral ReadCallback.IsEarly server before ∧
        onAuthRead config stack server = ((before.emit (.auth username password success)).write
          [authVersion1, if success then authSuccess else authFailure]).setReadCb .connectRead := by
  simp only [onAuthRead]
  split
  · exact .inl (.refl server)
  · split
    · exact .inl (.free (.refl server) trivial)
    · split
      · exact .inl (.refl server)
      · split
        · exact .inl (.refl server)
        · split
          · exact .inl (.crash (.refl server) trivial)
          · rename_i two version nameFits secretFits inArray
            obtain ⟨message, username, password⟩ := completes_of_checks
              (Decidable.not_not.mp version) (Nat.not_lt.mp two) (Nat.not_lt.mp nameFits)
              (Nat.not_lt.mp secretFits) (Nat.not_lt.mp inArray)
            refine .inr ⟨_, _, _, _, message, username, password, rfl, ?_, rfl⟩
            split
            · rename_i bytes next read
              obtain ⟨-, -, rfl⟩ := Server.readFull_eq_some_iff.mp read
              exact .consume (.refl server)
            · exact .refl server

/-- A judgement that accepts a pair of the users map. -/
def Effect.Grants (config : ServerConfig) (effect : Effect) : Prop :=
  ∃ username password, effect = .auth username password true ∧ config.password username = some password

/-- A judgement answered with 0xFF. -/
def Effect.IsRejection (effect : Effect) : Prop :=
  ∃ username password, effect = .auth username password false

/-- Reading a request, parsing it, or connecting for it. -/
def Effect.IsRequest : Effect → Prop
  | .call cb => cb.IsRequest
  | .request .. | .connect .. => True
  | .write _ | .auth .. | .relay _ | .freed | .invalid _ => False

/-- Requests only after accepted credentials, and none read after a rejection. -/
def Authenticated (config : ServerConfig) (log : List Effect) : Prop :=
  Trace.Precedes (Effect.Grants config) Effect.IsRequest log ∧
    Trace.Excludes Effect.IsRejection (· = .call .connectRead) log

structure Safe (config : ServerConfig) (server : Server) : Prop where
  preceded : Trace.Precedes (Effect.Grants config) Effect.IsRequest server.log
  unrejected : ∀ e ∈ server.log, ¬e.IsRejection
  opened : server.readCb.IsRequest → ∃ g ∈ server.log, g.Grants config

variable {config : ServerConfig}

theorem Safe.start : Safe config Server.start where
  preceded := Trace.precedes_nil
  unrejected e member := by cases member
  opened request := request.elim

theorem Safe.authenticated (safe : Safe config server) : Authenticated config server.log :=
  ⟨safe.preceded, Trace.excludes_of_forall safe.unrejected⟩

theorem Effect.IsNeutral.not_request {e : Effect} (neutral : e.IsNeutral) : ¬e.IsRequest := by
  cases e with
  | call cb => cases cb <;> simp_all [Effect.IsNeutral, Effect.IsRequest, ReadCallback.IsRequest]
  | _ => simp_all [Effect.IsNeutral, Effect.IsRequest]

theorem Effect.IsNeutral.unjudged {e : Effect} (neutral : e.IsNeutral) : e.IsUnjudged := by
  cases e <;> simp_all [Effect.IsNeutral, Effect.IsUnjudged]

theorem Effect.IsUnjudged.not_rejection {e : Effect} (unjudged : e.IsUnjudged) : ¬e.IsRejection := by
  rintro ⟨username, password, rfl⟩
  exact unjudged

theorem ReadCallback.IsEarly.not_request {cb : ReadCallback} (early : cb.IsEarly) : ¬cb.IsRequest := by
  cases cb <;> simp_all [ReadCallback.IsEarly, ReadCallback.IsRequest]

theorem Safe.unrejected_append (safe : Safe config server) {effects : List Effect}
    (unjudged : ∀ e ∈ effects, e.IsUnjudged) : ∀ e ∈ server.log ++ effects, ¬e.IsRejection := by
  intro e member
  obtain old | new := List.mem_append.mp member
  · exact safe.unrejected e old
  · exact (unjudged e new).not_rejection

/-- Neutral effects, and callbacks before the request, keep a server safe. -/
theorem Safe.early (safe : Safe config server)
    (acts : Acts Effect.IsNeutral ReadCallback.IsEarly server server') : Safe config server' := by
  obtain ⟨effects, grown, neutral⟩ := acts.logs
  constructor
  · rw [grown]
    exact safe.preceded.append (.inr fun e member => (neutral e member).not_request)
  · rw [grown]
    exact safe.unrejected_append fun e member => (neutral e member).unjudged
  · intro request
    obtain kept | early := acts.installs
    · obtain ⟨g, member, grants⟩ := safe.opened (kept ▸ request)
      exact ⟨g, grown ▸ List.mem_append_left effects member, grants⟩
    · exact absurd request early.not_request

/-- After accepted credentials, anything but a judgement keeps it safe. -/
theorem Safe.later (safe : Safe config server) (granted : ∃ g ∈ server.log, g.Grants config)
    (acts : Acts Effect.IsUnjudged q server server') : Safe config server' := by
  obtain ⟨effects, grown, unjudged⟩ := acts.logs
  constructor
  · rw [grown]
    exact safe.preceded.append (.inl granted)
  · rw [grown]
    exact safe.unrejected_append unjudged
  · intro _
    obtain ⟨g, member, grants⟩ := granted
    exact ⟨g, grown ▸ List.mem_append_left effects member, grants⟩

/-- Judging a message with known credentials. -/
theorem Safe.accepted (safe : Safe config server) {username password : CString}
    (known : config.password username = some password) (resp : List Byte) :
    Safe config (((server.emit (.auth username password true)).write resp).setReadCb .connectRead) := by
  have grants : Effect.Grants config (.auth username password true) := ⟨username, password, rfl, known⟩
  have accepted : Safe config (server.emit (.auth username password true)) := by
    constructor
    · exact safe.preceded.append (.inr (by simp [Effect.IsRequest]))
    · intro e member
      obtain old | new := List.mem_append.mp member
      · exact safe.unrejected e old
      · rw [List.mem_singleton.mp new]
        rintro ⟨_, _, rejection⟩
        cases rejection
    · exact fun _ => ⟨_, List.mem_append_right _ List.mem_cons_self, grants⟩
  have acts : Acts Effect.IsUnjudged ReadCallback.IsRequest (server.emit (.auth username password true))
      (((server.emit (.auth username password true)).write resp).setReadCb .connectRead) :=
    .setReadCb (.emit (.refl _) trivial) trivial trivial
  exact accepted.later ⟨_, List.mem_append_right _ List.mem_cons_self, grants⟩ acts

/-- The next judgement, if there is one, is of a known account. -/
def Known (config : ServerConfig) (server : Server) (input : Input) : Prop :=
  let buffer := server.inBuffer ++ input.bytes
  let data := authData buffer input.stack
  server.readCb = .onAuthRead → Completes buffer data →
    config.password (messageUsername data) = some (messagePassword data)

instance (config : ServerConfig) (server : Server) (input : Input) :
    Decidable (Known config server input) :=
  inferInstanceAs (Decidable (_ → _ → _))

theorem callRead_safe (platform : Platform) {stack : Nat → Byte} (required : config.RequiresAuth)
    (known : server.readCb = .onAuthRead → Completes server.inBuffer (authData server.inBuffer stack) →
      config.password (messageUsername (authData server.inBuffer stack)) =
        some (messagePassword (authData server.inBuffer stack)))
    (safe : Safe config server) : Safe config (server.callRead platform config stack) := by
  have early : ∀ {cb}, server.readCb = cb → cb ≠ .connectRead → cb ≠ .readAddress →
      Safe config (server.emit (.call cb)) := by
    intro cb _ connect address
    exact safe.early (.emit (.refl server) ⟨connect, address⟩)
  have request : ∀ {cb}, server.readCb = cb → cb.IsRequest →
      Safe config (server.emit (.call cb)) ∧ ∃ g ∈ (server.emit (.call cb)).log, g.Grants config := by
    intro cb installed request
    obtain ⟨g, member, grants⟩ := safe.opened (installed ▸ request)
    have called : Acts Effect.IsUnjudged ReadCallback.IsRequest server (server.emit (.call cb)) :=
      .emit (.refl server) trivial
    exact ⟨safe.later ⟨g, member, grants⟩ called, g, List.mem_append_left _ member, grants⟩
  simp only [Server.callRead]
  cases installed : server.readCb with
  | onReadMethods =>
    exact (early installed (by decide) (by decide)).early
      (onReadMethods_acts trivial (required_early required) trivial _)
  | onReadMethodsInner =>
    exact (early installed (by decide) (by decide)).early
      (onReadMethodsInner_acts trivial (required_early required) _)
  | onAuthRead =>
    have called := early installed (by decide) (by decide)
    obtain waits | ⟨_, _, success, before, message, rfl, rfl, judged, acts, result⟩ :=
      onAuthRead_cases config stack (server.emit (.call .onAuthRead))
    · exact called.early waits
    · have account := known installed message
      obtain rfl : success = true := judged.trans (decide_eq_true account)
      simp only [result]
      exact (called.early acts).accepted account _
  | connectRead =>
    obtain ⟨called, granted⟩ := request installed trivial
    exact called.later granted (connectRead_acts platform _)
  | readAddress =>
    obtain ⟨called, granted⟩ := request installed trivial
    exact called.later granted (readAddress_acts (q := ReadCallback.IsRequest) platform _)
  | serverRead =>
    exact (early installed (by decide) (by decide)).early (serverRead_acts _)

theorem step_safe (platform : Platform) {input : Input} {next : Server} {out : Unit}
    (required : config.RequiresAuth) (safe : Safe config server) (known : Known config server input)
    (taken : step platform config server input = some (next, out)) : Safe config next := by
  cases input with
  | segment bytes stack =>
    simp only [step] at taken
    split at taken
    · cases taken
      have grown : Safe config { server with inBuffer := server.inBuffer ++ bytes } :=
        safe.early (.of_eq rfl rfl)
      exact callRead_safe platform required known grown
    · cases taken
  | finish stack =>
    simp only [step] at taken
    split at taken
    · cases taken
      have called : Safe config (if server.inBuffer = [] then server
          else server.callRead platform config stack) := by
        split
        · exact safe
        · simp only [Known, Input.bytes, Input.stack, List.append_nil] at known
          exact callRead_safe platform required known safe
      generalize (if server.inBuffer = [] then server else server.callRead platform config stack) =
        ended at called
      split
      · exact called.early (.free (.refl ended) trivial)
      · exact called
    · cases taken
  | connected =>
    simp only [step] at taken
    split at taken
    · cases taken
      exact ⟨safe.preceded, safe.unrejected, fun request => request.elim⟩
    · cases taken

/-- As long as every judged message carries a known account, no request is read, parsed
or connected before accepted credentials, and none after a rejection. -/
theorem run_authenticated (platform : Platform) (config : ServerConfig) (required : config.RequiresAuth)
    {inputs : List Input} {last : Server} {outs : List Unit}
    (known : Run.Along (step platform config) (Known config) Server.start inputs)
    (path : Run.run (step platform config) Server.start inputs = some (last, outs)) :
    Authenticated config last.log := by
  have safe : Safe config last :=
    Run.run_along (fun safe known taken => step_safe platform required safe known taken)
      Safe.start known path
  exact safe.authenticated

/-- A users map with the one account u:p. -/
def oneAccount : ServerConfig := ⟨CHashMap.new.put ⟨[117], nul_notMem_u⟩ ⟨[112], nul_notMem_p⟩⟩

/-- Every connect succeeds. -/
def reachable : Platform := ⟨fun _ => none, none, fun _ _ => true⟩

def blank : Nat → Byte := fun _ => 0

/-- A client that offers the username method, logs in as u and asks for 127.0.0.1:80. -/
def clientInputs (password : Byte) : List Input :=
  [.segment [5, 1, 2] blank, .segment [1, 1, 117, 1, password] blank,
    .segment [5, 1, 0, 1, 127, 0, 0, 1, 0, 80] blank]

theorem known_account_authenticated : ∃ last outs,
    Run.run (step reachable oneAccount) Server.start (clientInputs 112) = some (last, outs) ∧
      last.context.remotePort = 80 ∧ Authenticated oneAccount last.log := by
  have known : Run.Along (step reachable oneAccount) (Known oneAccount) Server.start
      (clientInputs 112) := by
    decide
  exact ⟨_, _, rfl, rfl, run_authenticated reachable oneAccount (by decide) known rfl⟩

/-- With a wrong password the same client connects all the same. -/
theorem rejected_client_connects : ¬∀ (platform : Platform) (config : ServerConfig), config.RequiresAuth →
    ∀ (inputs : List Input) (last : Server) (outs : List Unit),
      Run.run (step platform config) Server.start inputs = some (last, outs) →
        Authenticated config last.log := by
  intro claim
  obtain ⟨precedes, -⟩ := claim reachable oneAccount (by decide) (clientInputs 120) _ _ rfl
  let localhost : CString := ⟨[49, 50, 55, 46, 48, 46, 48, 46, 49], by decide⟩
  obtain ⟨g, member, username, password, rfl, -⟩ := precedes
    [.call .onReadMethods, .write [5, 2], .call .onAuthRead,
      .auth ⟨[117], by decide⟩ ⟨[120], by decide⟩ false, .write [1, 255],
      .call .connectRead, .request localhost 80]
    (.connect localhost 80) [] rfl trivial
  simp at member

end Devent.Docks
