import Devent.Docks.RequestTaken

/-! How often a client is heard to ask for a connection: early data is taken for one more address. -/
namespace Devent.Docks

variable {server next : Server} {platform : Platform} {config : ServerConfig} {header buffer : List Byte}

/-- One request at most, and behind it only `read_address` and the relay. -/
structure Single (server : Server) : Prop where
  once : server.connects.length ≤ 1
  installed : server.live = true → server.connects ≠ [] →
    server.readCb = .readAddress ∨ server.readCb = .serverRead

/-- What the client has sent. -/
def sent (inputs : List Input) : List Byte := inputs.flatMap Input.bytes

/-- The end of the client's stream. -/
def Input.Ends : Input → Prop
  | .segment _ _ | .connected => False
  | .finish _ => True

/-- Host, port and the connect stay, only the client closes the connection, and until the
relay starts so do the bytes. -/
structure Undisturbed (inputs : List Input) (server next : Server) : Prop where
  remoteHost : next.context.remoteHost = server.context.remoteHost
  remotePort : next.context.remotePort = server.context.remotePort
  connects : next.connects = server.connects
  live : (∀ input ∈ inputs, ¬input.Ends) → server.live = true → next.live = true
  inBuffer : next.live = true → next.readCb ≠ .serverRead →
    server.readCb ≠ .serverRead ∧ next.inBuffer = server.inBuffer ++ sent inputs

theorem Undisturbed.refl (server : Server) : Undisturbed [] server server :=
  ⟨rfl, rfl, rfl, fun _ => id, fun _ waiting => ⟨waiting, (List.append_nil _).symm⟩⟩

theorem Undisturbed.trans {inputs inputs' : List Input} {middle : Server}
    (first : Undisturbed inputs server middle) (second : Undisturbed inputs' middle next)
    (alive : next.live = true → middle.live = true) : Undisturbed (inputs ++ inputs') server next := by
  constructor
  · exact second.remoteHost.trans first.remoteHost
  · exact second.remotePort.trans first.remotePort
  · exact second.connects.trans first.connects
  · intro open' live
    refine second.live (fun input member => open' input (List.mem_append_right _ member)) ?_
    exact first.live (fun input member => open' input (List.mem_append_left _ member)) live
  · intro live waiting
    obtain ⟨waits, later⟩ := second.inBuffer live waiting
    obtain ⟨waited, earlier⟩ := first.inBuffer (alive live) waits
    exact ⟨waited, by rw [later, earlier, sent, sent, sent, List.flatMap_append, List.append_assoc]⟩

theorem connects_call (server : Server) (cb : ReadCallback) :
    (server.emit (.call cb)).connects = server.connects := by
  rw [connects_emit]
  exact List.append_nil _

theorem connects_free (server : Server) : server.free.connects = server.connects := by
  rw [Server.free, connects_emit]
  exact List.append_nil _

theorem Undisturbed.finish {stack : Nat → Byte} (undisturbed : Undisturbed [] server next) :
    Undisturbed [.finish stack] server next.free := by
  constructor
  · exact undisturbed.remoteHost
  · exact undisturbed.remotePort
  · exact (connects_free next).trans undisturbed.connects
  · intro open'
    exact absurd trivial (open' _ List.mem_cons_self)
  · intro live
    cases live

section Calls

variable {stack : Nat → Byte}

theorem callRead_connectRead (readCb : server.readCb = .connectRead) :
    server.callRead platform config stack = connectRead platform (server.emit (.call .connectRead)) := by
  simp only [Server.callRead, readCb]

theorem callRead_readAddress (readCb : server.readCb = .readAddress) :
    server.callRead platform config stack = readAddress platform (server.emit (.call .readAddress)) := by
  simp only [Server.callRead, readCb]

theorem callRead_serverRead (readCb : server.readCb = .serverRead) :
    server.callRead platform config stack = serverRead (server.emit (.call .serverRead)) := by
  simp only [Server.callRead, readCb]

end Calls

/-- The callbacks before the request start none. -/
theorem callRead_early {stack : Nat → Byte} (early : server.readCb.IsEarly) :
    (server.callRead platform config stack).connects = server.connects := by
  simp only [Server.callRead]
  cases readCb : server.readCb with
  | onReadMethods =>
    have acts : Acts Effect.IsNeutral (fun _ => True) (server.emit (.call .onReadMethods))
        (onReadMethods config (server.emit (.call .onReadMethods))) :=
      onReadMethods_acts trivial (fun _ _ => trivial) trivial _
    exact acts.connects_eq.trans (connects_call server _)
  | onReadMethodsInner =>
    have acts : Acts Effect.IsNeutral (fun _ => True) (server.emit (.call .onReadMethodsInner))
        (onReadMethodsInner config (server.emit (.call .onReadMethodsInner))) :=
      onReadMethodsInner_acts trivial (fun _ _ => trivial) _
    exact acts.connects_eq.trans (connects_call server _)
  | onAuthRead => exact (onAuthRead_connects config stack _).trans (connects_call server _)
  | connectRead | readAddress | serverRead =>
    rw [readCb] at early
    exact early.elim

/-- A callback takes the request of the buffer, and `read_address` is installed behind it. -/
structure First (server next : Server) : Prop where
  started : ∃ host port, Started server.connects host port next
  installed : next.live = true → next.readCb = .readAddress
  rest : next.live = true → RequestAlone server → next.inBuffer = behindRequest server

theorem callRead_first (platform : Platform) (config : ServerConfig) (stack : Nat → Byte) (server : Server) :
    (server.callRead platform config stack).connects = server.connects ∨
      First server (server.callRead platform config stack) := by
  cases readCb : server.readCb with
  | onReadMethods => exact .inl (callRead_early (by rw [readCb]; trivial))
  | onReadMethodsInner => exact .inl (callRead_early (by rw [readCb]; trivial))
  | onAuthRead => exact .inl (callRead_early (by rw [readCb]; trivial))
  | connectRead =>
    rw [callRead_connectRead readCb]
    obtain same | ⟨valid, ⟨started, rest⟩, installed⟩ :=
      connectRead_takes platform (server.emit (.call .connectRead))
    · exact .inl (same.trans (connects_call server _))
    · rw [connects_call] at started
      refine .inr ⟨started, installed, fun live alone => ?_⟩
      rw [RequestAlone, readCb] at alone
      simp only [behindRequest, readCb]
      exact rest live (alone valid)
  | readAddress =>
    rw [callRead_readAddress readCb]
    obtain same | ⟨started, rest⟩ := readAddress_takes platform (server.emit (.call .readAddress))
    · exact .inl (same.trans (connects_call server _))
    · rw [connects_call] at started
      refine .inr ⟨started, fun _ => ?_, fun live alone => ?_⟩
      · rw [readAddress_readCb]
        exact readCb
      · rw [RequestAlone, readCb] at alone
        simp only [behindRequest, readCb]
        exact rest live alone
  | serverRead =>
    rw [callRead_serverRead readCb]
    have acts : Acts Effect.IsNeutral (fun _ => True) (server.emit (.call .serverRead))
        (serverRead (server.emit (.call .serverRead))) := serverRead_acts _
    exact .inl (acts.connects_eq.trans (connects_call server _))

/-- Behind the request the callbacks take nothing while they wait. -/
theorem callRead_later {stack : Nat → Byte} (later : server.readCb = .readAddress ∨ server.readCb = .serverRead)
    (waits : server.readCb = .readAddress → Waits server.context.connectHeader server.inBuffer) :
    Undisturbed [] server (server.callRead platform config stack) ∧
      (server.callRead platform config stack).readCb = server.readCb := by
  obtain readCb | readCb := later
  · have idle : readAddress platform (server.emit (.call .readAddress)) = server.emit (.call .readAddress) :=
      readAddress_of_waits (by exact waits readCb)
    rw [callRead_readAddress readCb, idle]
    refine ⟨⟨rfl, rfl, connects_call server _, fun _ => id, fun _ waiting => ?_⟩, rfl⟩
    exact ⟨waiting, (List.append_nil _).symm⟩
  · rw [callRead_serverRead readCb]
    have acts : Acts Effect.IsNeutral (fun _ => False) (server.emit (.call .serverRead))
        (serverRead (server.emit (.call .serverRead))) := serverRead_acts _
    exact ⟨⟨rfl, rfl, acts.connects_eq.trans (connects_call server _), fun _ => id,
      fun _ waiting => absurd readCb waiting⟩, rfl⟩

/-- What an input does with the request. -/
structure OneStep (server : Server) (input : Input) (next : Server) : Prop where
  single : Single next
  kept : server.connects ≠ [] → Undisturbed [input] server next
  rest : server.connects = [] → next.connects ≠ [] → next.live = true →
    next.inBuffer = behindRequest (server.arrive input.bytes)

theorem First.once (first : First server next) (none : server.connects = []) : next.connects.length ≤ 1 := by
  obtain ⟨host, port, started⟩ := first.started
  rw [started.connects, none]
  exact Nat.le_refl 1

theorem step_segment_once {bytes : List Byte} {stack : Nat → Byte} (single : Single server)
    (live : server.live = true) (quiet : NoEarlyData server (.segment bytes stack)) :
    OneStep server (.segment bytes stack) ((server.arrive bytes).callRead platform config stack) := by
  by_cases none : server.connects = []
  · have before : (server.arrive bytes).connects = [] := none
    obtain same | first := callRead_first platform config stack (server.arrive bytes)
    · rw [before] at same
      refine ⟨⟨?_, fun _ some' => absurd same some'⟩, fun some' => absurd none some',
        fun _ some' => absurd same some'⟩
      rw [same]
      exact Nat.zero_le 1
    · exact ⟨⟨first.once before, fun alive _ => .inl (first.installed alive)⟩, fun some' => absurd none some',
        fun _ _ alive => first.rest alive (quiet.1 none)⟩
  · have later : (server.arrive bytes).readCb = .readAddress ∨ (server.arrive bytes).readCb = .serverRead :=
      single.installed live none
    obtain ⟨kept, readCb⟩ := callRead_later later (quiet.2 none)
    constructor
    · constructor
      · rw [kept.connects]
        exact single.once
      · intro _ _
        rw [readCb]
        exact later
    · intro _
      refine ⟨kept.remoteHost, kept.remotePort, kept.connects, fun _ => kept.live (by simp), ?_⟩
      intro alive waiting
      obtain ⟨waits, same⟩ := kept.inBuffer alive waiting
      rw [sent, List.flatMap_singleton]
      exact ⟨waits, same.trans (List.append_nil _)⟩
    · exact fun absent => absurd absent none

theorem step_finish_once {stack : Nat → Byte} (single : Single server) (live : server.live = true)
    (quiet : NoEarlyData server (.finish stack))
    (taken : step platform config server (.finish stack) = some (next, ())) :
    OneStep server (.finish stack) next := by
  simp only [step, if_pos live, Option.some.injEq, Prod.mk.injEq, and_true] at taken
  generalize defined : (if server.inBuffer = [] then server else server.callRead platform config stack) =
    ended at taken
  have called : ended.connects.length ≤ 1 ∧ (server.connects ≠ [] → Undisturbed [] server ended) := by
    rw [← defined]
    split
    · exact ⟨single.once, fun _ => .refl server⟩
    · by_cases none : server.connects = []
      · refine ⟨?_, fun some' => absurd none some'⟩
        obtain same | first := callRead_first platform config stack server
        · rw [same, none]
          exact Nat.zero_le 1
        · exact first.once none
      · obtain ⟨kept, -⟩ := callRead_later (single.installed live none) (quiet none)
        refine ⟨?_, fun _ => kept⟩
        rw [kept.connects]
        exact single.once
  obtain ⟨once, kept⟩ := called
  split at taken
  · subst taken
    refine ⟨⟨?_, fun live => by cases live⟩, fun some' => (kept some').finish, fun _ _ live => by cases live⟩
    rw [connects_free]
    exact once
  · rename_i dead
    subst taken
    refine ⟨⟨once, fun live => absurd live dead⟩, fun some' => ?_, fun _ _ live => absurd live dead⟩
    exact absurd ((kept some').live (by simp) live) dead

theorem step_once {input : Input} {out : Unit} (single : Single server) (quiet : NoEarlyData server input)
    (taken : step platform config server input = some (next, out)) : OneStep server input next := by
  cases input with
  | segment bytes stack =>
    simp only [step] at taken
    split at taken
    · rename_i arrives
      cases taken
      exact step_segment_once single arrives.1 quiet
    · cases taken
  | finish stack =>
    have live : server.live = true := by
      by_contra dead
      rw [step, if_neg dead] at taken
      cases taken
    exact step_finish_once single live quiet taken
  | connected =>
    simp only [step] at taken
    split at taken
    · cases taken
      exact ⟨⟨single.once, fun _ _ => .inr rfl⟩,
        fun _ => ⟨rfl, rfl, rfl, fun _ => id, fun _ waiting => absurd rfl waiting⟩,
        fun none some' => absurd none some'⟩
    · cases taken

variable {inputs later : List Input} {last : Server} {outs : List Unit}

theorem live_of_run (path : Run.run (step platform config) server inputs = some (last, outs))
    (live : last.live = true) : server.live = true := by
  cases inputs with
  | nil =>
    cases path
    exact live
  | cons input rest =>
    obtain ⟨next, out, tail, taken, -, -⟩ := Run.run_cons_iff.mp path
    cases input with
    | segment bytes stack =>
      simp only [step] at taken
      split at taken
      · rename_i arrives
        exact arrives.1
      · cases taken
    | finish stack =>
      simp only [step] at taken
      split at taken
      · assumption
      · cases taken
    | connected =>
      simp only [step] at taken
      split at taken
      · rename_i relays
        exact relays.1
      · cases taken

/-- Once there is a request it stays, whatever the client sends. -/
theorem run_kept (single : Single server) (some' : server.connects ≠ [])
    (quiet : Run.Along (step platform config) NoEarlyData server inputs)
    (path : Run.run (step platform config) server inputs = some (last, outs)) :
    Undisturbed inputs server last := by
  induction inputs generalizing server outs with
  | nil =>
    cases path
    exact .refl _
  | cons input rest ih =>
    obtain ⟨next, out, tail, taken, later, rfl⟩ := Run.run_cons_iff.mp path
    have first := step_once single quiet.1 taken
    have kept := first.kept some'
    have again : next.connects ≠ [] := by
      rw [kept.connects]
      exact some'
    exact kept.trans (ih first.single again (quiet.2 next out taken) later) (live_of_run later)

/-- One request for one connection: no second connect is started, and from the input that
completes the request on, host, port and the bytes behind it stay. -/
structure OneRequest (platform : Platform) (config : ServerConfig) (inputs : List Input) (last : Server) :
    Prop where
  once : last.connects.length ≤ 1
  kept : ∀ first later parsed outs, first ++ later = inputs →
    Run.run (step platform config) Server.start first = some (parsed, outs) → parsed.connects ≠ [] →
      Undisturbed later parsed last
  rest : ∀ first input later before outs parsed out, first ++ input :: later = inputs →
    Run.run (step platform config) Server.start first = some (before, outs) → before.connects = [] →
      step platform config before input = some (parsed, out) → parsed.connects ≠ [] → parsed.live = true →
        parsed.inBuffer = behindRequest (before.arrive input.bytes)

theorem Single.start : Single Server.start := ⟨Nat.zero_le 1, fun _ some' => absurd rfl some'⟩

theorem run_single (quiet : Run.Along (step platform config) NoEarlyData Server.start inputs)
    (path : Run.run (step platform config) Server.start inputs = some (last, outs)) : Single last :=
  Run.run_along (fun single quiet taken => (step_once single quiet taken).single) Single.start quiet path

/-- A client that sends no early data that `read_address` could take is heard once. -/
theorem run_one_request (platform : Platform) (config : ServerConfig) (inputs : List Input)
    (quiet : Run.Along (step platform config) NoEarlyData Server.start inputs)
    {last : Server} {outs : List Unit}
    (path : Run.run (step platform config) Server.start inputs = some (last, outs)) :
    OneRequest platform config inputs last := by
  constructor
  · exact (run_single quiet path).once
  · rintro first later parsed outs rfl head some'
    obtain ⟨tail, behind⟩ := Run.run_behind path head
    exact run_kept (run_single quiet.before head) some' (quiet.behind head) behind
  · rintro first input later before outs parsed out rfl head none taken some' live
    have here := (quiet.behind head).1
    exact (step_once (run_single quiet.before head) here taken).rest none some' live

theorem readIp_shrinks {ipLen : Nat} {print : List Byte → Option CString} (width : 0 < ipLen)
    (enough : ipLen + portLen ≤ server.inBuffer.length)
    (live : (readIp platform ipLen print server).live = true) :
    (readIp platform ipLen print server).inBuffer.length < server.inBuffer.length := by
  simp only [readIp, if_neg (Nat.not_lt.mpr enough), Server.read] at live ⊢
  cases printed : print (server.inBuffer.take ipLen) with
  | none =>
    rw [printed] at live
    cases live
  | some host =>
    simp only [printed] at live ⊢
    rw [startConnect_inBuffer live]
    simp only [Server.consume, List.length_drop, portLen] at enough ⊢
    omega

theorem readDomain_inBuffer (live : (readDomain platform server).live = true) :
    (readDomain platform server).inBuffer = server.inBuffer.drop (maxDomainLen * 2 + 4) := by
  simp only [readDomain, Server.read] at live ⊢
  cases front : server.inBuffer.take (maxDomainLen * 2 + 4) with
  | nil => rfl
  | cons first rest =>
    simp only [front] at live ⊢
    split at live
    · cases live
    · rename_i bounded
      rw [if_neg bounded]
      split at live
      · rename_i short
        rw [if_pos short]
        rfl
      · rename_i complete
        rw [if_neg complete, startConnect_inBuffer live, copyReqAddress]
        split <;> rfl

theorem readAddress_shrinks (early : server.inBuffer ≠ [])
    (taken : ¬Waits server.context.connectHeader server.inBuffer)
    (live : (readAddress platform server).live = true) :
    (readAddress platform server).inBuffer.length < server.inBuffer.length := by
  have enough : IsIp server.context.connectHeader →
      addressLen server.context.connectHeader server.inBuffer ≤ server.inBuffer.length := by
    intro ip
    apply Nat.le_of_not_lt
    exact fun short => taken ⟨fun _ => short, fun domain => absurd ip domain⟩
  simp only [readAddress] at live ⊢
  split at live
  · rename_i ipv4
    have enough := enough (.inl ipv4)
    rw [addressLen, if_pos ipv4] at enough
    rw [if_pos ipv4]
    exact readIp_shrinks (by decide) enough live
  · rename_i other
    rw [if_neg other]
    split at live
    · rename_i ipv6
      have enough := enough (.inr ipv6)
      rw [addressLen, if_neg other, if_pos ipv6] at enough
      rw [if_pos ipv6]
      exact readIp_shrinks (by decide) enough live
    · rename_i neither
      have some' := List.length_pos_iff.mpr early
      rw [if_neg neither, readDomain_inBuffer live, List.length_drop]
      simp only [maxDomainLen]
      omega

/-- Early data that does not wait is lost from the buffer, or costs the connection. -/
theorem early_data_disturbs {bytes : List Byte} {stack : Nat → Byte} (live : server.live = true)
    (readCb : server.readCb = .readAddress) (nonempty : bytes ≠ [])
    (taken : ¬Waits server.context.connectHeader (server.inBuffer ++ bytes)) :
    ¬Undisturbed [.segment bytes stack] server ((server.arrive bytes).callRead platform config stack) := by
  have installed : (server.arrive bytes).readCb = .readAddress := readCb
  rw [callRead_readAddress installed]
  intro undisturbed
  have alive := undisturbed.live (by simp [Input.Ends]) live
  have early : server.inBuffer ++ bytes ≠ [] := List.append_ne_nil_of_right_ne_nil _ nonempty
  have fewer := readAddress_shrinks early taken alive
  have waiting :
      (readAddress platform ((server.arrive bytes).emit (.call .readAddress))).readCb ≠ .serverRead := by
    have same : ((server.arrive bytes).emit (.call .readAddress)).readCb = .readAddress := installed
    rw [readAddress_readCb, same]
    decide
  obtain ⟨-, same⟩ := undisturbed.inBuffer alive waiting
  rw [same, sent, List.flatMap_singleton] at fewer
  exact absurd fewer (Nat.lt_irrefl _)

/-- A request for 127.0.0.1:80 and, behind it, less than another address. -/
def patientInputs : List Input :=
  [.segment [5, 1, 0] blank, .segment [5, 1, 0, 1, 127, 0, 0, 1, 0, 80, 71] blank,
    .segment [69, 84] blank, .connected]

theorem patient_client_heard : ∃ last outs,
    Run.run (step reachable ⟨none⟩) Server.start patientInputs = some (last, outs) ∧
      last.inBuffer = [71, 69, 84] ∧ OneRequest reachable ⟨none⟩ patientInputs last :=
  ⟨_, _, rfl, rfl, run_one_request reachable ⟨none⟩ patientInputs (by decide) rfl⟩

/-- Six early bytes are a second address. -/
theorem early_data_connects : ¬∀ (platform : Platform) (config : ServerConfig) (inputs : List Input)
    (last : Server) (outs : List Unit), Run.run (step platform config) Server.start inputs = some (last, outs) →
      OneRequest platform config inputs last := by
  intro claim
  have one := claim reachable ⟨none⟩ [.segment [5, 1, 0] blank,
    .segment [5, 1, 0, 1, 127, 0, 0, 1, 0, 80] blank, .segment [71, 69, 84, 32, 47, 10] blank] _ _ rfl
  exact absurd one.once (by decide)

end Devent.Docks
