import Devent.Docks.SessionClient

/-! The server's end of a session. It answers a message of the client once all of it is
there, connects once, for the client's destination, and relays what lies behind the
request. -/
namespace Devent.Docks

/-- Where a read event must not end: behind the username, where the callback looks for a length
that has not arrived, and inside the destination, which `read_address` takes before it checks. -/
def Deployment.Uncut (d : Deployment) (sofar : Nat) : Prop :=
  (match d.course with
    | .judged username _ => sofar ≠ d.methods.length + (2 + username.strlen)
    | .openly | .refused => True) ∧
  (sofar ≤ d.introduction.length + connHeaderLen ∨ d.introduction.length + d.request.length ≤ sofar)

instance (d : Deployment) (sofar : Nat) : Decidable (d.Uncut sofar) := by
  unfold Deployment.Uncut
  cases d.course <;> infer_instance

/-- Effects that reach neither the remote event nor the end of what the model follows. -/
def Effect.Inward : Effect → Prop
  | .call _ | .write _ | .auth .. | .request .. | .freed => True
  | .connect .. | .relay _ | .invalid _ => False

/-- `DocketEvent_connect_hostname`, or the `connect_remote` in its place, gives an event for the
destination. -/
def Deployment.Reaches (d : Deployment) : Prop :=
  match d.platform.connectRemote with
  | some connectRemote => connectRemote d.host d.port = true
  | none => d.platform.connectHostname d.host d.port = true

instance (d : Deployment) : Decidable d.Reaches := by
  unfold Deployment.Reaches
  cases d.platform.connectRemote <;> infer_instance

/-- The connects started and the bytes relayed; a remote event that cannot be created is the one
reason to use what is freed. -/
structure Conduct (d : Deployment) (connects : List (CString × Nat)) (relayed : List Byte) (server : Server) :
    Prop where
  connects : server.connects = connects
  relayed : server.relayed = relayed
  valid : d.Reaches → ∀ what, .invalid what ∉ server.log

/-- A live server with this callback and these bytes in its in-buffer. -/
structure Server.Holds (cb : ReadCallback) (buffer : List Byte) (server : Server) : Prop where
  live : server.live = true
  readCb : server.readCb = cb
  inBuffer : server.inBuffer = buffer

namespace Deployment

/-- There is no user to authenticate. -/
def anonymous (d : Deployment) : Bool := d.credentials.username.all fun username => username.strlen = 0

/-- The methods the client offers. -/
def offered (d : Deployment) : List Byte :=
  if d.anonymous then [methodNoAuthenticationRequired]
  else [methodNoAuthenticationRequired, methodUsernamePassword]

/-- The bytes before the first whole message. -/
def ReadsMethods (d : Deployment) (heard : List Byte) (server : Server) : Prop :=
  heard.length < 2 ∧ server.Holds .onReadMethods heard ∨
    2 ≤ heard.length ∧ server.Holds .onReadMethodsInner (heard.drop 2) ∧
      server.context.methodCount = UInt8.ofNat d.offered.length

end Deployment

/-- Nothing is known of a remote event. -/
structure ServerEnd.Unbound (peer : ServerEnd) : Prop where
  bound : peer.bound = none
  outBuffer : peer.outBuffer = []
  downloaded : peer.downloaded = []

/-- What was written is bounded by what was heard. -/
structure ServerSpeaks (d : Deployment) (heard written : List Byte) (bound : Option (BoundAddress × Nat))
    (downloaded : List Byte) : Prop where
  first : heard <+: d.methods → written <+: d.choice
  second : heard <+: d.introduction → written <+: d.answers
  whole : written <+: d.answers ++ (replyBytes bound ++ downloaded)

/-- What remains once the event is freed. A session that nobody ended was refused, or its remote
event could not be created. -/
structure Ended (d : Deployment) (excuse : Prop) (heard : List Byte) (peer : ServerEnd) (written : List Byte) :
    Prop where
  dead : peer.server.live = false
  speaks : ServerSpeaks d heard written peer.bound peer.downloaded
  small : ∀ pair ∈ peer.bound, pair.2 < 65536
  quiet : peer.bound = none → peer.downloaded = []
  conduct : peer.bound = none ∧ Conduct d [] [] peer.server ∨
    d.Admits ∧ ∃ relayed, Conduct d [(d.host, d.port)] relayed peer.server ∧
      (relayed = [] ∨ heard = d.introduction ++ (d.request ++ relayed))
  cause : excuse ∨ d.course = .refused ∨
    ¬d.Reaches ∧ peer.bound = none ∧ peer.server.connects = [(d.host, d.port)]

/-- The server's end by what it has heard, and what it has written. -/
inductive ServerAt (d : Deployment) (excuse : Prop) : List Byte → ServerEnd → List Byte → Prop
  | methods {heard : List Byte} {peer : ServerEnd} (inside : heard <+: d.methods)
      (short : heard.length < d.methods.length) (unbound : peer.Unbound) (conduct : Conduct d [] [] peer.server)
      (reads : d.ReadsMethods heard peer.server) : ServerAt d excuse heard peer []
  | judging {sofar : List Byte} {peer : ServerEnd} {username password : CString}
      (course : d.course = .judged username password) (inside : sofar <+: authMessage username password)
      (short : sofar.length < (authMessage username password).length) (apart : sofar.length ≠ 2 + username.strlen)
      (unbound : peer.Unbound) (conduct : Conduct d [] [] peer.server) (holds : peer.server.Holds .onAuthRead sofar) :
      ServerAt d excuse (d.methods ++ sofar) peer d.choice
  | requested {sofar : List Byte} {peer : ServerEnd} (heeded : d.course ≠ .refused) (inside : sofar <+: d.request)
      (short : sofar.length < d.request.length) (unbegun : sofar.length ≤ connHeaderLen) (unbound : peer.Unbound)
      (conduct : Conduct d [] [] peer.server)
      (pending : ∀ bounds, Pending (clientRequest d.host bounds d.port) sofar [] peer.server) :
      ServerAt d excuse (d.introduction ++ sofar) peer d.answers
  | connecting {peer : ServerEnd} (admits : d.Admits) (reaches : d.Reaches)
      (small : ∀ pair ∈ peer.bound, pair.2 < 65536) (outBuffer : peer.outBuffer = replyBytes peer.bound) (none : peer.downloaded = [])
      (conduct : Conduct d [(d.host, d.port)] [] peer.server) (holds : peer.server.Holds .readAddress [])
      (replyData : peer.server.context.replyData = ReplyReader.replyHeader) :
      ServerAt d excuse (d.introduction ++ d.request) peer d.answers
  | relaying {relayed : List Byte} {peer : ServerEnd} (admits : d.Admits) (reaches : d.Reaches)
      (small : ∀ pair ∈ peer.bound, pair.2 < 65536) (bound : peer.bound ≠ none) (outBuffer : peer.outBuffer = [])
      (conduct : Conduct d [(d.host, d.port)] relayed peer.server) (holds : peer.server.Holds .serverRead []) :
      ServerAt d excuse (d.introduction ++ (d.request ++ relayed)) peer
        (d.answers ++ (replyBytes peer.bound ++ peer.downloaded))
  | ended {heard written : List Byte} {peer : ServerEnd} (ended : Ended d excuse heard peer written) :
      ServerAt d excuse heard peer written

variable {d : Deployment} {excuse : Prop} {heard written sofar bytes : List Byte} {peer : ServerEnd}
  {server next : Server} {connects : List (CString × Nat)} {relayed : List Byte} {username password : CString}
  {stack : Nat → Byte}

theorem Server.connects_eq (server : Server) : server.connects = server.log.filterMap Effect.connected := rfl

theorem Server.connects_append {effects : List Effect} (grown : next.log = server.log ++ effects) :
    next.connects = server.connects ++ effects.filterMap Effect.connected := by
  rw [Server.connects_eq, Server.connects_eq, grown, List.filterMap_append]

theorem Server.relayed_append {effects : List Effect} (grown : next.log = server.log ++ effects) :
    next.relayed = server.relayed ++ effects.flatMap Effect.relayed := by
  rw [Server.relayed, grown, List.flatMap_append]
  rfl

theorem Conduct.log {effects : List Effect} (conduct : Conduct d connects relayed server)
    (grown : next.log = server.log ++ effects) (inward : ∀ e ∈ effects, e.Inward) :
    Conduct d connects relayed next := by
  refine ⟨?_, ?_, ?_⟩
  · have none : effects.filterMap Effect.connected = [] := by
      apply List.filterMap_eq_nil_iff.mpr
      intro e member
      have kind := inward e member
      cases e with
      | connect => exact kind.elim
      | _ => rfl
    rw [Server.connects_append grown, none, List.append_nil, conduct.connects]
  · have none : effects.flatMap Effect.relayed = [] := by
      apply List.flatMap_eq_nil_iff.mpr
      intro e member
      have kind := inward e member
      cases e with
      | relay => exact kind.elim
      | _ => rfl
    rw [Server.relayed_append grown, none, List.append_nil, conduct.relayed]
  · intro reaches what member
    rw [grown] at member
    rcases List.mem_append.mp member with before | now
    · exact conduct.valid reaches what before
    · exact inward _ now

theorem written_of_log {effects : List Effect} (grown : next.log = server.log ++ effects) :
    (next.log.drop server.log.length).flatMap Effect.written = effects.flatMap Effect.written := by
  rw [grown, List.drop_left]

/-- A read event, once what its callback does to the log is known. -/
theorem hear_eq {effects : List Effect} (live : peer.server.live = true) (nonempty : bytes ≠ [])
    (grown : (received d.platform d.accounts stack bytes peer.server).log = peer.server.log ++ effects) :
    peer.hear d.platform d.accounts stack bytes =
      some (peer.withServer (received d.platform d.accounts stack bytes peer.server),
        if (received d.platform d.accounts stack bytes peer.server).live then effects.flatMap Effect.written
        else []) := by
  rw [ServerEnd.hear, step_segment live nonempty, ← written_of_log grown]
  rfl

theorem methods_eq (d : Deployment) :
    d.methods = socks5Version :: UInt8.ofNat d.offered.length :: d.offered := by
  have written : d.methods = (if d.anonymous then
      (d.client [] .onReadNegotication).write [socks5Version, 1, methodNoAuthenticationRequired]
    else (d.client [] .onReadNegotication).write
      [socks5Version, 2, methodNoAuthenticationRequired, methodUsernamePassword]).outBuffer := rfl
  rw [written, Deployment.offered]
  split <;> rfl

theorem length_offered (d : Deployment) : (UInt8.ofNat d.offered.length).toNat = d.offered.length := by
  rw [Deployment.offered]
  split <;> rfl

theorem offered_ne_nil (d : Deployment) : 0 < d.offered.length := by
  rw [Deployment.offered]
  split <;> exact Nat.succ_pos _

/-- The server's choice among the methods on offer. -/
theorem negotication_offered (sound : d.Sound) : negotication d.accounts d.offered =
    match d.course with
    | .openly => methodNoAuthenticationRequired
    | .judged .. => methodUsernamePassword
    | .refused => methodNoAcceptableMethods := by
  obtain ⟨platform, accounts, ⟨user, secret⟩, host, port⟩ := d
  by_cases required : accounts.RequiresAuth
  · have kept : ¬(accounts.users.isNone ∨ CHashMap.getCount accounts.users = 0) := by
      rintro (none | none)
      · have some' := required.1
        rw [Option.isNone_iff_eq_none.mp none] at some'
        exact Bool.noConfusion some'
      · exact required.2 none
    rw [negotication, if_neg kept, Deployment.course, if_pos required, Deployment.offered]
    cases user with
    | none => rfl
    | some username =>
      by_cases empty : username.strlen = 0
      · have anonymous : Deployment.anonymous ⟨platform, accounts, ⟨some username, secret⟩, host, port⟩ = true :=
          decide_eq_true empty
        rw [if_pos anonymous]
        cases secret with
        | none => rfl
        | some password =>
          simp only [if_pos empty]
          rfl
      · have named : Deployment.anonymous ⟨platform, accounts, ⟨some username, secret⟩, host, port⟩ = false :=
          decide_eq_false empty
        obtain ⟨password, word⟩ := Option.ne_none_iff_exists'.mp (sound.paired username rfl empty)
        cases word
        simp only [named, if_neg empty]
        rfl
  · have open' : accounts.users.isNone ∨ CHashMap.getCount accounts.users = 0 := by
      by_contra neither
      obtain ⟨some', counted⟩ := not_or.mp neither
      refine required ⟨?_, counted⟩
      rw [Option.isSome_iff_ne_none]
      exact fun none => some' (Option.isNone_iff_eq_none.mpr none)
    rw [negotication, if_pos open', Deployment.course, if_neg required]

/-- The whole offer has arrived, and the choice is made and sent. -/
structure Chosen (d : Deployment) (server next : Server) : Prop where
  effects : ∃ effects : List Effect, next.log = server.log ++ effects ∧ (∀ e ∈ effects, e.Inward) ∧
    (if next.live then effects.flatMap Effect.written else []) = d.choice
  openly : d.course = .openly → next.Awaits .connectRead
  judged : ∀ username password, d.course = .judged username password → next.Awaits .onAuthRead
  refused : d.course = .refused → next.live = false

theorem onReadMethodsInner_waits {config : ServerConfig}
    (short : server.inBuffer.length < server.context.methodCount.toNat) :
    onReadMethodsInner config server = server := by
  simp only [onReadMethodsInner, if_pos short]

/-- The offer is taken and the choice written. -/
def Server.answered (server : Server) (count : Nat) (method : Byte) : Server :=
  ((server.consume count).write [socks5Version, method]).setContext { server.context with method := method }

theorem onReadMethodsInner_whole (config : ServerConfig) (some' : 0 < server.context.methodCount.toNat)
    (whole : server.context.methodCount.toNat = server.inBuffer.length) :
    onReadMethodsInner config server =
      if negotication config server.inBuffer = methodNoAuthenticationRequired then
        (server.answered server.inBuffer.length (negotication config server.inBuffer)).setReadCb .connectRead
      else if negotication config server.inBuffer = methodUsernamePassword then
        (server.answered server.inBuffer.length (negotication config server.inBuffer)).setReadCb .onAuthRead
      else (server.answered server.inBuffer.length (negotication config server.inBuffer)).free := by
  have long : ¬server.inBuffer.length < server.inBuffer.length := Nat.lt_irrefl _
  have fits : 0 < server.inBuffer.length ∧ server.inBuffer.length ≤ server.inBuffer.length :=
    ⟨whole ▸ some', Nat.le_refl _⟩
  simp only [onReadMethodsInner, whole, if_neg long, Server.readFull, if_pos fits, List.take_length]
  rfl

theorem onReadMethodsInner_chooses (sound : d.Sound) (live : server.live = true)
    (count : server.context.methodCount = UInt8.ofNat d.offered.length) (arrived : server.inBuffer = d.offered) :
    Chosen d server (onReadMethodsInner d.accounts server) := by
  have size : server.context.methodCount.toNat = server.inBuffer.length := by
    rw [count, arrived, length_offered]
  have some' : 0 < server.context.methodCount.toNat := by
    rw [count, length_offered]
    exact offered_ne_nil d
  have method := negotication_offered sound
  have live' (method : Byte) : (server.answered d.offered.length method).live = true := live
  have emptied : server.inBuffer.drop d.offered.length = [] := by rw [arrived, List.drop_length]
  rw [onReadMethodsInner_whole d.accounts some' size, arrived, method]
  cases course : d.course with
  | openly =>
    have choice : d.choice = [socks5Version, methodNoAuthenticationRequired] := by
      rw [Deployment.choice, course]
    simp only [if_true, Server.setReadCb, live']
    exact {
      effects := ⟨[.write _], rfl, fun e member => List.mem_singleton.mp member ▸ trivial, by
        rw [choice]
        rfl⟩
      openly := fun _ => ⟨rfl, rfl, emptied⟩
      judged := fun _ _ other => by cases course.symm.trans other
      refused := fun other => by cases course.symm.trans other }
  | judged username password =>
    have other : ¬methodUsernamePassword = methodNoAuthenticationRequired := by decide
    simp only [if_neg other, if_true, Server.setReadCb, live']
    exact {
      effects := ⟨[.write _], rfl, fun e member => List.mem_singleton.mp member ▸ trivial, by
        rw [judged_choice course]
        rfl⟩
      openly := fun other => by cases course.symm.trans other
      judged := fun _ _ _ => ⟨rfl, rfl, emptied⟩
      refused := fun other => by cases course.symm.trans other }
  | refused =>
    have other : ¬methodNoAcceptableMethods = methodNoAuthenticationRequired := by decide
    have neither : ¬methodNoAcceptableMethods = methodUsernamePassword := by decide
    have choice : d.choice = [] := by rw [Deployment.choice, course]
    simp only [if_neg other, if_neg neither]
    exact {
      effects := ⟨[.write [socks5Version, methodNoAcceptableMethods], .freed], List.append_assoc .., by
        intro e member
        rcases List.mem_cons.mp member with rfl | member
        · trivial
        · exact List.mem_singleton.mp member ▸ trivial, by
        rw [choice]
        rfl⟩
      openly := fun other => by cases course.symm.trans other
      judged := fun _ _ other => by cases course.symm.trans other
      refused := fun _ => rfl }

/-- A read event before the offer is complete: it is only awaited, or its last part is handed to the
inner callback. -/
theorem received_methods (reads : d.ReadsMethods heard server) (inside : heard ++ bytes <+: d.methods)
    (config : ServerConfig) (stack : Nat → Byte) : (heard ++ bytes).length < 2 ∧
        received d.platform config stack bytes server = called bytes server ∧
        (called bytes server).Holds .onReadMethods (heard ++ bytes) ∨
      2 ≤ (heard ++ bytes).length ∧ ∃ middle : Server,
        received d.platform config stack bytes server = onReadMethodsInner config middle ∧
        middle.Holds .onReadMethodsInner ((heard ++ bytes).drop 2) ∧
        middle.context.methodCount = UInt8.ofNat d.offered.length ∧
        middle.log = server.log ++ [.call server.readCb] := by
  rcases reads with ⟨short, holds⟩ | ⟨long, holds, count⟩
  · have arrived : (called bytes server).inBuffer = heard ++ bytes := by rw [called_inBuffer, holds.inBuffer]
    have callback : received d.platform config stack bytes server = onReadMethods config (called bytes server) := by
      obtain ⟨context, inBuffer, readCb, live, log⟩ := server
      cases holds.readCb
      rfl
    obtain few | enough := Nat.lt_or_ge (heard ++ bytes).length 2
    · have none : ¬(0 < 2 ∧ 2 ≤ (called bytes server).inBuffer.length) := by
        rw [arrived]
        exact fun fits => absurd few (Nat.not_lt.mpr fits.2)
      refine .inl ⟨few, ?_, holds.live, holds.readCb, arrived⟩
      rw [callback, onReadMethods, Server.readFull, if_neg none]
    · obtain ⟨rest, spelled⟩ : ∃ rest, heard ++ bytes = socks5Version :: UInt8.ofNat d.offered.length :: rest := by
        obtain ⟨later, whole⟩ := inside
        rw [methods_eq] at whole
        rcases all : heard ++ bytes with _ | ⟨first, _ | ⟨second, rest⟩⟩
        · rw [all] at enough
          cases enough
        · rw [all] at enough
          exact absurd enough (Nat.lt_irrefl _)
        · rw [all] at whole
          obtain ⟨rfl, same⟩ := List.cons.inj whole
          obtain ⟨rfl, -⟩ := List.cons.inj same
          exact ⟨rest, rfl⟩
      have two : 0 < 2 ∧ 2 ≤ (called bytes server).inBuffer.length := by
        rw [arrived]
        exact ⟨Nat.two_pos, enough⟩
      have version : ¬(some socks5Version : Option Byte) ≠ some socks5Version := fun differs => differs rfl
      refine .inr ⟨enough, { called bytes server with
        context := { server.context with methodCount := UInt8.ofNat d.offered.length }
        inBuffer := (heard ++ bytes).drop 2
        readCb := .onReadMethodsInner }, ?_, ⟨holds.live, rfl, rfl⟩, rfl, rfl⟩
      have live : (called bytes server).live = true := holds.live
      rw [callback, onReadMethods, Server.readFull, if_pos two, arrived, spelled]
      simp only [List.take_succ_cons, List.take_zero, List.getElem?_cons_zero, if_neg version, List.getElem?_cons_succ,
        Option.getD_some, Server.setContext, Server.consume, Server.setReadCb, live, if_true, arrived, spelled]
      rfl
  · have long' : 2 ≤ (heard ++ bytes).length := by
      rw [List.length_append]
      exact Nat.le_trans long (Nat.le_add_right ..)
    refine .inr ⟨long', called bytes server, ?_, ⟨holds.live, holds.readCb, ?_⟩, count, rfl⟩
    · obtain ⟨context, inBuffer, readCb, live, log⟩ := server
      cases holds.readCb
      rfl
    · rw [called_inBuffer, holds.inBuffer, List.drop_append_of_le_length long]

theorem ServerEnd.Unbound.speaks (unbound : peer.Unbound) (first : heard <+: d.methods → written <+: d.choice)
    (whole : written <+: d.answers) : ServerSpeaks d heard written peer.bound peer.downloaded := by
  refine ⟨first, fun _ => whole, ?_⟩
  rw [unbound.bound, unbound.downloaded]
  exact whole.trans (List.prefix_append ..)

theorem introduction_prefix_iff {rest : List Byte} : d.introduction ++ rest <+: d.introduction ↔ rest = [] := by
  constructor
  · intro inside
    exact List.append_right_eq_self.mp (inside.eq_of_length_le (by simp))
  · rintro rfl
    rw [List.append_nil]

/-- Nobody answers more than the methods before the credentials have come. -/
theorem answers_of_methods {rest : List Byte} (inside : d.introduction ++ rest <+: d.methods) :
    d.answers = d.choice := by
  cases course : d.course with
  | openly => exact (openly_answers course).1
  | judged username password =>
    have longer := inside.length_le
    rw [judged_introduction course, List.length_append, List.length_append, authMessage_length] at longer
    omega
  | refused => rw [Deployment.answers, course]

theorem ServerAt.speaks (stage : ServerAt d excuse heard peer written) :
    ServerSpeaks d heard written peer.bound peer.downloaded := by
  cases stage with
  | methods inside short unbound conduct reads =>
    exact unbound.speaks (fun _ => List.nil_prefix) List.nil_prefix
  | judging course inside short apart unbound conduct holds =>
    exact unbound.speaks (fun _ => List.prefix_rfl) d.choice_prefix
  | requested heeded inside short unbegun unbound conduct pending =>
    refine unbound.speaks (fun within => ?_) List.prefix_rfl
    rw [answers_of_methods within]
  | connecting admits reaches small outBuffer none conduct holds replyData =>
    have beyond (inside : d.introduction ++ d.request <+: d.introduction) : False :=
      request_ne_nil d (introduction_prefix_iff.mp inside)
    exact ⟨fun within => (beyond (within.trans d.methods_prefix)).elim, fun within => (beyond within).elim,
      List.prefix_append ..⟩
  | relaying admits reaches small bound outBuffer conduct holds =>
    have beyond {rest : List Byte} (inside : d.introduction ++ (d.request ++ rest) <+: d.introduction) : False :=
      request_ne_nil d (List.append_eq_nil_iff.mp (introduction_prefix_iff.mp inside)).1
    exact ⟨fun within => (beyond (within.trans d.methods_prefix)).elim, fun within => (beyond within).elim,
      List.prefix_rfl⟩
  | ended ended => exact ended.speaks

theorem ServerAt.small (stage : ServerAt d excuse heard peer written) : ∀ pair ∈ peer.bound, pair.2 < 65536 := by
  have none (unbound : peer.Unbound) : ∀ pair ∈ peer.bound, pair.2 < 65536 := by
    rw [unbound.bound]
    intro pair absent
    cases absent
  cases stage with
  | methods _ _ unbound => exact none unbound
  | judging _ _ _ _ unbound => exact none unbound
  | requested _ _ _ _ unbound => exact none unbound
  | connecting _ _ small => exact small
  | relaying _ _ small => exact small
  | ended ended => exact ended.small

theorem ServerAt.quiet (stage : ServerAt d excuse heard peer written) : peer.bound = none → peer.downloaded = [] := by
  cases stage with
  | methods _ _ unbound => exact fun _ => unbound.downloaded
  | judging _ _ _ _ unbound => exact fun _ => unbound.downloaded
  | requested _ _ _ _ unbound => exact fun _ => unbound.downloaded
  | connecting _ _ _ _ none => exact fun _ => none
  | relaying _ _ _ bound => exact fun unbound => absurd unbound bound
  | ended ended => exact ended.quiet

theorem ServerAt.start (d : Deployment) (excuse : Prop) : ServerAt d excuse [] ServerEnd.start [] := by
  have some' : ([] : List Byte).length < d.methods.length := by
    rw [methods_eq]
    exact Nat.succ_pos _
  refine .methods List.nil_prefix some' ⟨rfl, rfl, rfl⟩ ⟨rfl, rfl, ?_⟩ (.inl ⟨Nat.two_pos, rfl, rfl, rfl⟩)
  intro _ what member
  cases member

/-- Once the introduction is over, the request is awaited. -/
theorem ServerAt.awaitsRequest (heeded : d.course ≠ .refused) (unbound : peer.Unbound)
    (conduct : Conduct d [] [] peer.server) (awaits : peer.server.Awaits .connectRead) :
    ServerAt d excuse d.introduction peer d.answers := by
  have some' : ([] : List Byte).length < d.request.length := List.length_pos_iff.mpr (request_ne_nil d)
  have stage : ServerAt d excuse (d.introduction ++ []) peer d.answers := by
    refine .requested heeded List.nil_prefix some' (Nat.zero_le _) unbound conduct fun bounds => ?_
    rw [← conduct.connects]
    exact awaits.pending _
  rw [List.append_nil] at stage
  exact stage

/-- What a read event comes to: it is defined, the stage follows, and the remote is left alone. -/
def Hears (d : Deployment) (excuse : Prop) (stack : Nat → Byte) (heard bytes : List Byte) (peer : ServerEnd)
    (written : List Byte) : Prop :=
  ∃ next said, peer.hear d.platform d.accounts stack bytes = some (next, said) ∧
    ServerAt d excuse (heard ++ bytes) next (written ++ said) ∧
    next.bound = peer.bound ∧ next.downloaded = peer.downloaded

theorem hears_of {effects : List Effect} (live : peer.server.live = true) (nonempty : bytes ≠ [])
    (next : received d.platform d.accounts stack bytes peer.server = server)
    (grown : server.log = peer.server.log ++ effects)
    (stage : ServerAt d excuse (heard ++ bytes) (peer.withServer server)
      (written ++ if server.live then effects.flatMap Effect.written else [])) :
    Hears d excuse stack heard bytes peer written := by
  subst next
  exact ⟨_, _, hear_eq live nonempty grown, stage, rfl, rfl⟩

/-- A callback that writes nothing sends nothing. -/
theorem silent {effects : List Effect} (nothing : effects.flatMap Effect.written = []) {live : Bool} :
    (if live then effects.flatMap Effect.written else []) = [] := by
  rw [nothing, ite_self]

theorem ServerEnd.Unbound.withServer (unbound : peer.Unbound) (server : Server) : (peer.withServer server).Unbound :=
  ⟨unbound.bound, unbound.outBuffer, unbound.downloaded⟩

theorem methods_hears (sound : d.Sound) (inside : heard ++ bytes <+: d.methods) (unbound : peer.Unbound)
    (conduct : Conduct d [] [] peer.server) (reads : d.ReadsMethods heard peer.server) (nonempty : bytes ≠ []) :
    Hears d excuse stack heard bytes peer [] := by
  have live : peer.server.live = true := by
    rcases reads with ⟨-, holds⟩ | ⟨-, holds, -⟩
    · exact holds.live
    · exact holds.live
  have whole := methods_eq d
  have inward (cb : ReadCallback) : ∀ e ∈ [Effect.call cb], e.Inward := fun e member =>
    List.mem_singleton.mp member ▸ trivial
  have size : d.methods.length = 2 + d.offered.length := by
    rw [whole, List.length_cons, List.length_cons]
    omega
  have some' := offered_ne_nil d
  rcases received_methods reads inside d.accounts stack with
    ⟨few, waits, holds⟩ | ⟨enough, middle, inner, holds, count, log⟩
  · have quiet : Conduct d [] [] (called bytes peer.server) := conduct.log rfl (inward peer.server.readCb)
    refine hears_of live nonempty waits rfl ?_
    rw [silent rfl]
    exact .methods inside (by omega) (unbound.withServer _) quiet (.inl ⟨few, holds⟩)
  · have quiet : Conduct d [] [] middle := conduct.log log (inward peer.server.readCb)
    obtain ⟨later, rest⟩ := inside
    have offered : (heard ++ bytes).drop 2 ++ later = d.offered := by
      rw [← List.drop_append_of_le_length enough, rest, whole]
      rfl
    have tail : (heard ++ bytes).length = 2 + ((heard ++ bytes).drop 2).length := by
      rw [List.length_drop]
      omega
    by_cases missing : later = []
    · subst missing
      rw [List.append_nil] at offered rest
      obtain ⟨⟨effects, grown, inwards, said⟩, openly, judged, refused⟩ :=
        onReadMethodsInner_chooses sound holds.live count (holds.inBuffer.trans offered)
      have quiet' : Conduct d [] [] (onReadMethodsInner d.accounts middle) := quiet.log grown inwards
      rw [log, List.append_assoc] at grown
      refine hears_of live nonempty inner grown ?_
      have spoken : (if (onReadMethodsInner d.accounts middle).live then
          ([Effect.call peer.server.readCb] ++ effects).flatMap Effect.written else []) = d.choice := by
        rw [← said, List.flatMap_append]
        rfl
      rw [spoken, List.nil_append, rest]
      cases course : d.course with
      | openly =>
        obtain ⟨answers, introduction, -⟩ := openly_answers course
        rw [← answers, ← introduction]
        exact .awaitsRequest (by rw [course]; exact Course.noConfusion) (unbound.withServer _) quiet' (openly course)
      | judged username password =>
        have awaits := judged username password course
        have begun : ServerAt d excuse (d.methods ++ []) (peer.withServer _) d.choice :=
          .judging course List.nil_prefix (by rw [authMessage_length, List.length_nil]; omega)
            (by rw [List.length_nil]; omega) (unbound.withServer _) quiet' ⟨awaits.live, awaits.readCb, awaits.inBuffer⟩
        rw [List.append_nil] at begun
        exact begun
      | refused =>
        exact .ended {
          dead := refused course
          speaks := (unbound.withServer _).speaks (fun _ => List.prefix_rfl) d.choice_prefix
          small := fun pair absent => by
            rw [(unbound.withServer _).bound] at absent
            cases absent
          quiet := fun _ => unbound.downloaded
          conduct := .inl ⟨unbound.bound, quiet'⟩
          cause := .inr (.inl course) }
    · have short : ((heard ++ bytes).drop 2).length < d.offered.length := by
        rw [← offered, List.length_append]
        exact Nat.lt_add_of_pos_right (List.length_pos_iff.mpr missing)
      have waits : onReadMethodsInner d.accounts middle = middle := by
        apply onReadMethodsInner_waits
        rw [holds.inBuffer, count, length_offered]
        exact short
      refine hears_of live nonempty (inner.trans waits) log ?_
      rw [silent rfl]
      exact .methods ⟨later, rest⟩ (by omega) (unbound.withServer _) quiet (.inr ⟨enough, holds, count⟩)

theorem judge_awaits {config : ServerConfig} (live : server.live = true) (empty : server.inBuffer = []) :
    (judge config username password server).Awaits .connectRead := by
  have live' : ((server.emit (.auth username password (accepts config username password))).write
      (authReply (accepts config username password))).live = true := live
  rw [judge, Server.setReadCb, if_pos live']
  exact ⟨live, rfl, empty⟩

theorem judging_hears (sound : d.Sound) (course : d.course = .judged username password)
    (inside : sofar ++ bytes <+: authMessage username password)
    (apart : (sofar ++ bytes).length ≠ 2 + username.strlen) (unbound : peer.Unbound)
    (conduct : Conduct d [] [] peer.server) (holds : peer.server.Holds .onAuthRead sofar) (nonempty : bytes ≠ []) :
    Hears d excuse stack (d.methods ++ sofar) bytes peer d.choice := by
  obtain ⟨kept, -, -⟩ := d.judged_credentials course
  have usernameShort := sound.username username (by rw [kept]; rfl)
  have passwordShort := sound.password password (by rw [kept]; rfl)
  have arrived : (called bytes peer.server).inBuffer = sofar ++ bytes := by rw [called_inBuffer, holds.inBuffer]
  have callback : received d.platform d.accounts stack bytes peer.server =
      onAuthRead d.accounts stack (called bytes peer.server) := received_onAuthRead holds.readCb
  have log : (called bytes peer.server).log = peer.server.log ++ [.call .onAuthRead] := by
    rw [← holds.readCb]
    rfl
  have quiet : Conduct d [] [] (called bytes peer.server) :=
    conduct.log log fun e member => List.mem_singleton.mp member ▸ trivial
  obtain short | full := Nat.lt_or_ge (sofar ++ bytes).length (authMessage username password).length
  · have waits : onAuthRead d.accounts stack (called bytes peer.server) = called bytes peer.server := by
      rw [authMessage_length] at short
      have within : (called bytes peer.server).inBuffer <+: credentials username.bytes password.bytes ++ [] := by
        rw [arrived, List.append_nil, ← authMessage_eq]
        exact inside
      apply onAuthRead_waits within usernameShort passwordShort
      · rw [arrived]
        exact short
      · rw [arrived]
        exact apart
    refine hears_of holds.live nonempty (callback.trans waits) log ?_
    rw [silent rfl, List.append_nil, List.append_assoc]
    exact .judging course inside short apart (unbound.withServer _) quiet ⟨holds.live, holds.readCb, arrived⟩
  · have whole : sofar ++ bytes = authMessage username password := inside.eq_of_length_le full
    have judged : onAuthRead d.accounts stack (called bytes peer.server) = judge d.accounts username password
        ((called bytes peer.server).consume (authMessage username password).length) :=
      onAuthRead_message d.accounts usernameShort passwordShort (arrived.trans whole)
    have live : ((called bytes peer.server).consume (authMessage username password).length).live = true := holds.live
    have drained : (called bytes peer.server).inBuffer.drop (authMessage username password).length = [] := by
      rw [arrived, whole, List.drop_length]
    have awaits : (judge d.accounts username password
        ((called bytes peer.server).consume (authMessage username password).length)).Awaits .connectRead :=
      judge_awaits live drained
    have grown := judge_log d.accounts username password live
    have quiet' : Conduct d [] [] (judge d.accounts username password
        ((called bytes peer.server).consume (authMessage username password).length)) := by
      apply quiet.log grown
      intro e member
      rcases List.mem_cons.mp member with rfl | member
      · trivial
      · exact List.mem_singleton.mp member ▸ trivial
    have all : (judge d.accounts username password
        ((called bytes peer.server).consume (authMessage username password).length)).log = peer.server.log ++
          [.call .onAuthRead, .auth username password (accepts d.accounts username password),
            .write (authReply (accepts d.accounts username password))] := by
      have kept : ((called bytes peer.server).consume (authMessage username password).length).log =
          peer.server.log ++ [.call .onAuthRead] := log
      rw [grown, kept, List.append_assoc]
      rfl
    refine hears_of holds.live nonempty (callback.trans judged) all ?_
    rw [if_pos awaits.live, List.append_assoc, whole, ← judged_introduction course]
    have answers : d.choice ++ [Effect.call .onAuthRead, .auth username password (accepts d.accounts username password),
        .write (authReply (accepts d.accounts username password))].flatMap Effect.written = d.answers := by
      rw [judged_answers course]
      rfl
    rw [answers]
    exact .awaitsRequest (by rw [course]; exact Course.noConfusion) (unbound.withServer _) quiet' awaits

end Devent.Docks
