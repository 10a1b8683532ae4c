import Devent.Docks.SessionServer

/-! The server's end from the request on: it is taken once, the destination is connected, the
reply is assembled and sent, and from then on everything is relayed. -/
namespace Devent.Docks

variable {d : Deployment} {excuse : Prop} {heard written sofar bytes : List Byte} {peer : ServerEnd}
  {server next : Server} {connects : List (CString × Nat)} {relayed : List Byte} {stack : Nat → Byte}
  {request : ConnectRequest}

/-- A CONNECT of the client's destination goes on with a live event, or frees it. -/
theorem startConnect_destination (d : Deployment) (connect : server.context.connectHeader[1]? = some cmdConnect) :
    ∃ begun : Server, begun.log = server.log ++ [.request d.host d.port, .connect d.host d.port] ∧
      begun.live = server.live ∧ begun.readCb = server.readCb ∧ begun.inBuffer = server.inBuffer ∧
      begun.context.replyData = ReplyReader.replyHeader ∧
      startConnect d.platform d.host d.port server = if d.Reaches then begun else begun.free := by
  have resp : getResp (server.context.connectHeader[1]?.getD 0) = replySucceeded := by
    rw [connect]
    decide
  cases custom : d.platform.connectRemote with
  | none =>
    have reaches : d.Reaches ↔ d.platform.connectHostname d.host d.port = true := by rw [Deployment.Reaches, custom]
    by_cases reached : d.platform.connectHostname d.host d.port = true
    · refine ⟨(((server.setContext { server.context with
        remoteHost := some d.host, remotePort := d.port,
        replyData := [socks5Version, replySucceeded, 0] }).emit (.request d.host d.port)).emit
        (.connect d.host d.port)).setContext { server.context with
          remoteHost := some d.host, remotePort := d.port,
          replyData := [socks5Version, replySucceeded, 0], remote := true },
        List.append_assoc .., rfl, rfl, rfl, rfl, ?_⟩
      rw [if_pos (reaches.mpr reached)]
      simp only [startConnect, resp, if_true, custom, reached]
      rfl
    · refine ⟨((server.setContext { server.context with
        remoteHost := some d.host, remotePort := d.port,
        replyData := [socks5Version, replySucceeded, 0] }).emit (.request d.host d.port)).emit
        (.connect d.host d.port), List.append_assoc .., rfl, rfl, rfl, rfl, ?_⟩
      rw [if_neg fun given => reached (reaches.mp given)]
      simp only [startConnect, resp, if_true, custom, if_neg reached]
  | some connectRemote =>
    have reaches : d.Reaches ↔ connectRemote d.host d.port = true := by rw [Deployment.Reaches, custom]
    refine ⟨((server.setContext { server.context with
      remoteHost := some d.host, remotePort := d.port,
      replyData := [socks5Version, replySucceeded, 0] }).emit (.request d.host d.port)).emit
      (.connect d.host d.port), List.append_assoc .., rfl, rfl, rfl, rfl, ?_⟩
    simp only [startConnect, resp, if_true, custom, reaches]

/-- The request that a client of this deployment sends. -/
theorem Deployment.Sound.bounds (sound : d.Sound) : 1 ≤ d.host.strlen ∧ d.host.strlen ≤ maxDomainLen :=
  ⟨sound.host.1, Nat.le_trans sound.host.2 (by decide)⟩

theorem request_bytes (sound : d.Sound) : (clientRequest d.host sound.bounds d.port).bytes = d.request :=
  clientRequest_bytes sound.bounds d.port

/-- The read event that brings the header to an end leaves the rest to `read_address`. -/
theorem received_header (pending : Pending request sofar connects server) (config : ServerConfig)
    (platform : Platform) (stack : Nat → Byte) (header : (sofar ++ bytes).take connHeaderLen = request.header) :
    ∃ middle : Server, middle.live = true ∧ middle.log = server.log ++ [.call server.readCb] ∧
      middle.inBuffer = (sofar ++ bytes).drop connHeaderLen ∧ middle.context.connectHeader = request.header ∧
      (received platform config stack bytes server = readAddress platform middle ∧ middle.readCb = .readAddress ∨
        received platform config stack bytes server = (readAddress platform middle).setReadCb .readAddress) := by
  rcases pending.kept with ⟨short, readCb, buffer⟩ | ⟨reached, readCb, buffer, stored⟩
  · have arrived : (called bytes server).inBuffer = sofar ++ bytes := by rw [called_inBuffer, buffer]
    have front : (called bytes server).inBuffer.take connHeaderLen = request.header := by
      rw [arrived]
      exact header
    refine ⟨((called bytes server).consume connHeaderLen).setContext
      { server.context with connectHeader := request.header }, pending.live, rfl, ?_, rfl, .inr ?_⟩
    · rw [← arrived]
      rfl
    · rw [received_connectRead readCb, connectRead_header request front]
      rfl
  · refine ⟨called bytes server, pending.live, rfl, ?_, stored, .inl ⟨received_readAddress readCb, readCb⟩⟩
    rw [called_inBuffer, buffer, List.drop_append_of_le_length reached]

/-- A part of the request that ends before the destination is only waited for. -/
theorem received_waits_log (pending : Pending request sofar connects server) (config : ServerConfig)
    (platform : Platform) {rest : List Byte}
    (whole : (sofar ++ bytes) ++ rest = request.bytes) (more : rest ≠ [])
    (before : (sofar ++ bytes).length ≤ connHeaderLen) :
    (received platform config stack bytes server).log = server.log ++ [.call server.readCb] := by
  obtain early | long := Nat.lt_or_ge (sofar ++ bytes).length connHeaderLen
  · rcases pending.kept with ⟨-, readCb, buffer⟩ | ⟨reached, -⟩
    · have short : (called bytes server).inBuffer.length < connHeaderLen := by
        rw [called_inBuffer, buffer]
        exact early
      rw [received_connectRead readCb, connectRead_waits short]
      rfl
    · rw [List.length_append] at early
      omega
  · obtain ⟨middle, live, log, buffer, header, reads⟩ :=
      received_header pending config platform stack (header_of_isPrefix whole long)
    have missing : middle.inBuffer.length < request.body.length := by
      rw [buffer]
      exact missing_of_prefix whole more long
    have kept := readAddress_keeps platform header missing fun _ => by
      rw [buffer]
      exact List.drop_eq_nil_of_le before
    rw [kept] at reads
    rcases reads with ⟨reads, -⟩ | reads
    · rw [reads, log]
    · rw [reads, Server.setReadCb, if_pos live]
      exact log

/-- The destination of the client, read in one piece. -/
theorem readAddress_request (sound : d.Sound)
    (header : server.context.connectHeader = (clientRequest d.host sound.bounds d.port).header)
    (arrived : server.inBuffer = (clientRequest d.host sound.bounds d.port).body) :
    readAddress d.platform server = startConnect d.platform d.host d.port (server.consume (maxDomainLen * 2 + 4)) := by
  have spelled : server.inBuffer = UInt8.ofNat d.host.bytes.length ::
      (d.host.bytes ++ UInt8.ofNat (d.port / 256) :: UInt8.ofNat d.port :: []) := by
    rw [arrived]
    rfl
  have fits : copyReqAddress d.host d.host.bytes.length (server.consume (maxDomainLen * 2 + 4)) =
      server.consume (maxDomainLen * 2 + 4) := by
    have short := sound.host.2
    rw [CString.strlen] at short
    have inside : ¬(maxDomainLen < 1 + d.host.bytes.length ∨ d.host.strlen + 1 < d.host.bytes.length) := by
      simp only [maxDomainLen, CString.strlen]
      omega
    rw [copyReqAddress, if_neg inside]
  rw [readAddress_eq d.platform _ header]
  have domain : readDomain d.platform server = _ := readDomain_complete sound.bounds.1 sound.bounds.2 spelled
  rw [CString.ofBytes_bytes, portToUint16_uShortToData sound.port, fits] at domain
  exact domain

/-- The read event that completes the request starts the one connect. -/
structure Requested (d : Deployment) (server next : Server) : Prop where
  log : d.Reaches → next.log = server.log ++ [.call server.readCb, .request d.host d.port, .connect d.host d.port]
  holds : d.Reaches → next.Holds .readAddress []
  replyData : d.Reaches → next.context.replyData = ReplyReader.replyHeader
  freed : ¬d.Reaches → next.live = false ∧ ∃ effects, next.log =
    server.log ++ [.call server.readCb, .request d.host d.port, .connect d.host d.port] ++ effects ∧
      effects.filterMap Effect.connected = [] ∧ effects.flatMap Effect.relayed = []

theorem received_requested (sound : d.Sound)
    (pending : Pending (clientRequest d.host sound.bounds d.port) sofar connects server)
    (whole : sofar ++ bytes = d.request) (stack : Nat → Byte) :
    Requested d server (received d.platform d.accounts stack bytes server) := by
  have all : (sofar ++ bytes) ++ [] = (clientRequest d.host sound.bounds d.port).bytes := by
    rw [List.append_nil, whole, request_bytes sound]
  have long : connHeaderLen ≤ (sofar ++ bytes).length := by
    have length := requestMessage_length d.host d.port
    rw [whole, Deployment.request, length, connHeaderLen]
    omega
  obtain ⟨middle, live, log, buffer, header, reads⟩ :=
    received_header pending d.accounts d.platform stack (header_of_isPrefix all long)
  have body : middle.inBuffer = (clientRequest d.host sound.bounds d.port).body := by
    rw [buffer, ← body_of_prefix all long, List.append_nil]
  have emptied : (middle.consume (maxDomainLen * 2 + 4)).inBuffer = [] := by
    apply List.drop_eq_nil_of_le
    have bounded := (clientRequest d.host sound.bounds d.port).body_length
    rw [body]
    simp only [maxDomainLen, portLen] at bounded ⊢
    omega
  have connect : (middle.consume (maxDomainLen * 2 + 4)).context.connectHeader[1]? = some cmdConnect := by
    have same : (middle.consume (maxDomainLen * 2 + 4)).context.connectHeader = _ := header
    rw [same]
    rfl
  obtain ⟨begun, log', live', readCb, inBuffer, replyData, started⟩ := startConnect_destination d connect
  rw [readAddress_request sound header body, started] at reads
  have grown : begun.log = server.log ++ [.call server.readCb, .request d.host d.port, .connect d.host d.port] := by
    have kept : (middle.consume (maxDomainLen * 2 + 4)).log = server.log ++ [.call server.readCb] := log
    rw [log', kept, List.append_assoc]
    rfl
  have alive : begun.live = true := live'.trans live
  have drained : begun.inBuffer = [] := inBuffer.trans emptied
  by_cases reaches : d.Reaches
  · rw [if_pos reaches] at reads
    rcases reads with ⟨reads, callback⟩ | reads
    · rw [reads]
      exact ⟨fun _ => grown, fun _ => ⟨alive, readCb.trans callback, drained⟩, fun _ => replyData,
        fun unreached => absurd reaches unreached⟩
    · rw [reads, Server.setReadCb, if_pos alive]
      exact ⟨fun _ => grown, fun _ => ⟨alive, rfl, drained⟩, fun _ => replyData,
        fun unreached => absurd reaches unreached⟩
  · rw [if_neg reaches] at reads
    refine ⟨fun reached => absurd reached reaches, fun reached => absurd reached reaches,
      fun reached => absurd reached reaches, fun _ => ?_⟩
    rcases reads with ⟨reads, -⟩ | reads
    · rw [reads, Server.free, Server.emit, ← grown]
      exact ⟨rfl, [.freed], rfl, rfl, rfl⟩
    · have dead : ¬begun.free.live = true := Bool.noConfusion
      rw [reads, Server.setReadCb, if_neg dead, ← grown]
      exact ⟨rfl, [.freed, .invalid .useAfterFree], List.append_assoc .., rfl, rfl⟩

theorem Requested.conduct (requested : Requested d server next) (reaches : d.Reaches)
    (conduct : Conduct d [] [] server) : Conduct d [(d.host, d.port)] [] next := by
  have grown := requested.log reaches
  refine ⟨?_, ?_, ?_⟩
  · rw [Server.connects_append grown, conduct.connects]
    rfl
  · rw [Server.relayed_append grown, conduct.relayed]
    rfl
  · intro _ what member
    rw [grown] at member
    rcases List.mem_append.mp member with before | now
    · exact conduct.valid reaches what before
    · simp at now

theorem Requested.unreached (requested : Requested d server next) (unreached : ¬d.Reaches)
    (conduct : Conduct d [] [] server) : Conduct d [(d.host, d.port)] [] next := by
  obtain ⟨-, effects, grown, connects, relayed⟩ := requested.freed unreached
  rw [List.append_assoc] at grown
  refine ⟨?_, ?_, fun reaches => absurd reaches unreached⟩
  · rw [Server.connects_append grown, conduct.connects, List.filterMap_append, connects]
    rfl
  · rw [Server.relayed_append grown, conduct.relayed, List.flatMap_append, relayed]
    rfl

/-- What was written before the reply. -/
theorem ServerSpeaks.requested (unbound : peer.Unbound) :
    ServerSpeaks d (d.introduction ++ d.request) d.answers peer.bound peer.downloaded := by
  have beyond (inside : d.introduction ++ d.request <+: d.introduction) : False :=
    request_ne_nil d (introduction_prefix_iff.mp inside)
  exact unbound.speaks (fun within => (beyond (within.trans d.methods_prefix)).elim) List.prefix_rfl

theorem requested_hears (sound : d.Sound) (heeded : d.course ≠ .refused) (inside : sofar ++ bytes <+: d.request)
    (uncut : (sofar ++ bytes).length ≤ connHeaderLen ∨ d.request.length ≤ (sofar ++ bytes).length)
    (admits : d.Admits) (unbound : peer.Unbound) (conduct : Conduct d [] [] peer.server)
    (pending : ∀ bounds, Pending (clientRequest d.host bounds d.port) sofar [] peer.server) (nonempty : bytes ≠ []) :
    Hears d excuse stack (d.introduction ++ sofar) bytes peer d.answers := by
  have pending' := pending sound.bounds
  obtain short | full := Nat.lt_or_ge (sofar ++ bytes).length d.request.length
  · have before := uncut.resolve_right (Nat.not_le.mpr short)
    have inside' := inside
    obtain ⟨rest, whole⟩ := inside
    have more : rest ≠ [] := by
      rintro rfl
      rw [List.append_nil] at whole
      exact absurd short (by rw [whole]; exact Nat.lt_irrefl _)
    rw [← request_bytes sound] at whole
    have log : (received d.platform d.accounts stack bytes peer.server).log = _ :=
      received_waits_log pending' d.accounts d.platform whole more before
    have waits : Pending _ _ [] (received d.platform d.accounts stack bytes peer.server) :=
      received_waits pending' whole more fun _ => before
    have quiet : Conduct d [] [] (received d.platform d.accounts stack bytes peer.server) :=
      conduct.log log fun e member => List.mem_singleton.mp member ▸ trivial
    refine hears_of pending'.live nonempty rfl log ?_
    rw [silent rfl, List.append_nil, List.append_assoc]
    exact .requested heeded inside' short before (unbound.withServer _) quiet fun _ => waits
  · have whole : sofar ++ bytes = d.request := inside.eq_of_length_le full
    have requested := received_requested sound pending' whole stack
    by_cases reaches : d.Reaches
    · refine hears_of pending'.live nonempty rfl (requested.log reaches) ?_
      rw [silent rfl, List.append_nil, List.append_assoc, whole]
      refine .connecting admits reaches ?_ ?_ unbound.downloaded (requested.conduct reaches conduct)
        (requested.holds reaches) (requested.replyData reaches)
      · rw [(unbound.withServer _).bound]
        intro pair absent
        cases absent
      · rw [(unbound.withServer _).bound, (unbound.withServer _).outBuffer]
        rfl
    · obtain ⟨dead, effects, grown, -⟩ := requested.freed reaches
      rw [List.append_assoc] at grown
      refine hears_of pending'.live nonempty rfl grown ?_
      have unheard : ¬(received d.platform d.accounts stack bytes peer.server).live = true := by
        rw [dead]
        exact Bool.noConfusion
      rw [if_neg unheard, List.append_nil, List.append_assoc, whole]
      have conduct' := requested.unreached reaches conduct
      exact .ended {
        dead := dead
        speaks := .requested (unbound.withServer _)
        small := fun pair absent => by
          rw [(unbound.withServer _).bound] at absent
          cases absent
        quiet := fun _ => unbound.downloaded
        conduct := .inr ⟨admits, [], conduct', .inl rfl⟩
        cause := .inr (.inr ⟨reaches, (unbound.withServer _).bound, conduct'.connects⟩) }

theorem relaying_hears (admits : d.Admits) (reaches : d.Reaches)
    (small : ∀ pair ∈ peer.bound, pair.2 < 65536) (bound : peer.bound ≠ none) (outBuffer : peer.outBuffer = []) (conduct : Conduct d [(d.host, d.port)] relayed peer.server)
    (holds : peer.server.Holds .serverRead []) (nonempty : bytes ≠ []) :
    Hears d excuse stack (d.introduction ++ (d.request ++ relayed)) bytes peer
      (d.answers ++ (replyBytes peer.bound ++ peer.downloaded)) := by
  have arrived : (called bytes peer.server).inBuffer = bytes := by
    rw [called_inBuffer, holds.inBuffer, List.nil_append]
  have callback : received d.platform d.accounts stack bytes peer.server = serverRead (called bytes peer.server) := by
    obtain ⟨⟨context, inBuffer, readCb, live, log⟩, bound, outBuffer, downloaded⟩ := peer
    cases holds.readCb
    rfl
  have log : (serverRead (called bytes peer.server)).log =
      peer.server.log ++ [.call peer.server.readCb, .relay bytes] := by
    have emitted : (serverRead (called bytes peer.server)).log =
        (called bytes peer.server).log ++ [.relay (called bytes peer.server).inBuffer] := rfl
    rw [emitted, arrived]
    exact List.append_assoc ..
  have drained : (called bytes peer.server).inBuffer.drop (called bytes peer.server).inBuffer.length = [] :=
    List.drop_length
  refine hears_of holds.live nonempty callback log ?_
  rw [silent rfl, List.append_nil, List.append_assoc, List.append_assoc]
  refine .relaying admits reaches small bound outBuffer ⟨?_, ?_, ?_⟩ ⟨holds.live, holds.readCb, drained⟩
  · have none : [Effect.call peer.server.readCb, .relay bytes].filterMap Effect.connected = [] := rfl
    have kept := Server.connects_append log
    rw [none, List.append_nil, conduct.connects] at kept
    exact kept
  · have one : [Effect.call peer.server.readCb, .relay bytes].flatMap Effect.relayed = bytes := List.append_nil bytes
    have grown := Server.relayed_append log
    rw [conduct.relayed, one] at grown
    exact grown
  · intro reaches what member
    have member' : Effect.invalid what ∈ (serverRead (called bytes peer.server)).log := member
    rw [log] at member'
    rcases List.mem_append.mp member' with before | now
    · exact conduct.valid reaches what before
    · simp at now

/-- A read event of the server, while the other end has only written what it may. -/
theorem ServerAt.hears (sound : d.Sound) (stage : ServerAt d excuse heard peer written)
    (live : peer.server.live = true) (nonempty : bytes ≠ []) (uncut : d.Uncut (heard ++ bytes).length)
    (first : written = [] → heard ++ bytes <+: d.methods)
    (second : written.length < d.answers.length → heard ++ bytes <+: d.introduction)
    (third : written = d.answers → heard ++ bytes <+: d.introduction ++ d.request)
    (admits : d.introduction.length < (heard ++ bytes).length → d.Admits) :
    Hears d excuse stack heard bytes peer written := by
  cases stage with
  | methods inside short unbound conduct reads =>
    exact methods_hears sound (first rfl) unbound conduct reads nonempty
  | judging course inside short apart unbound conduct holds =>
    obtain ⟨two, four⟩ := judged_lengths course
    have within := second (by omega)
    rw [judged_introduction course, List.append_assoc] at within
    have cut := uncut.1
    rw [course, List.append_assoc, List.length_append] at cut
    exact judging_hears sound course ((List.prefix_append_right_inj _).mp within) (fun stops => cut (by rw [stops]))
      unbound conduct holds nonempty
  | requested heeded inside short unbegun unbound conduct pending =>
    have within := third rfl
    rw [List.append_assoc] at within uncut admits
    rw [List.length_append] at admits
    have positive := List.length_pos_iff.mpr nonempty
    refine requested_hears sound heeded ((List.prefix_append_right_inj _).mp within) ?_ (admits ?_) unbound conduct
      pending nonempty
    · have cut := uncut.2
      rw [List.length_append] at cut
      omega
    · rw [List.length_append]
      omega
  | connecting =>
    have within := third rfl
    exact absurd (List.append_right_eq_self.mp (within.eq_of_length_le (by simp))) nonempty
  | relaying admitted reaches small bound outBuffer conduct holds =>
    exact relaying_hears admitted reaches small bound outBuffer conduct holds nonempty
  | ended ended =>
    rw [ended.dead] at live
    exact Bool.noConfusion live

/-- What the server has done, at any stage. -/
theorem ServerAt.conduct (stage : ServerAt d excuse heard peer written) :
    peer.bound = none ∧ Conduct d [] [] peer.server ∨ d.Admits ∧ ∃ relayed,
      Conduct d [(d.host, d.port)] relayed peer.server ∧
        (relayed = [] ∨ heard = d.introduction ++ (d.request ++ relayed)) := by
  cases stage with
  | methods _ _ unbound conduct => exact .inl ⟨unbound.bound, conduct⟩
  | judging _ _ _ _ unbound conduct => exact .inl ⟨unbound.bound, conduct⟩
  | requested _ _ _ _ unbound conduct => exact .inl ⟨unbound.bound, conduct⟩
  | connecting admits _ _ _ _ conduct => exact .inr ⟨admits, [], conduct, .inl rfl⟩
  | relaying admits _ _ _ _ conduct => exact .inr ⟨admits, _, conduct, .inr rfl⟩
  | ended ended => exact ended.conduct

/-- A live event with a connect is at the end of the handshake. -/
theorem ServerAt.late (stage : ServerAt d excuse heard peer written) (live : peer.server.live = true)
    (connected : peer.server.connects ≠ []) :
    d.Admits ∧ d.Reaches ∧ peer.outBuffer = (if peer.server.readCb = .serverRead then [] else replyBytes peer.bound) ∧
      (peer.server.readCb = .readAddress ∧ peer.server.context.replyData = ReplyReader.replyHeader ∧
          heard = d.introduction ++ d.request ∧ written = d.answers ∧ peer.downloaded = [] ∧
          Conduct d [(d.host, d.port)] [] peer.server ∧ peer.server.inBuffer = [] ∨
        peer.server.readCb = .serverRead ∧ peer.bound ≠ none) := by
  cases stage with
  | methods _ _ _ conduct => exact absurd conduct.connects connected
  | judging _ _ _ _ _ conduct => exact absurd conduct.connects connected
  | requested _ _ _ _ _ conduct => exact absurd conduct.connects connected
  | connecting admits reaches small outBuffer none conduct holds replyData =>
    have other : ¬peer.server.readCb = .serverRead := by
      rw [holds.readCb]
      exact ReadCallback.noConfusion
    rw [if_neg other]
    exact ⟨admits, reaches, outBuffer, .inl ⟨holds.readCb, replyData, rfl, rfl, none, conduct, holds.inBuffer⟩⟩
  | relaying admits reaches small bound outBuffer conduct holds =>
    rw [if_pos holds.readCb]
    exact ⟨admits, reaches, outBuffer, .inr ⟨holds.readCb, bound⟩⟩
  | ended ended =>
    rw [ended.dead] at live
    exact Bool.noConfusion live

theorem ServerAt.remoteConnects {address : BoundAddress} {port : Nat} {next : ServerEnd}
    (stage : ServerAt d excuse heard peer written) (taken : peer.remoteConnects address port = some next) :
    ServerAt d excuse heard next written ∧ peer.bound = none ∧ next.bound = some (address, port) ∧ port < 65536 ∧
      next.downloaded = peer.downloaded := by
  rw [ServerEnd.remoteConnects] at taken
  split at taken
  · rename_i enabled
    obtain ⟨live, connected, unbound, small⟩ := enabled
    have none := Option.isNone_iff_eq_none.mp unbound
    obtain ⟨admits, reaches, -, ⟨readCb, replyData, rfl, rfl, quiet, conduct, inBuffer⟩ | ⟨-, bound⟩⟩ :=
      stage.late live connected
    · have three : ReplyReader.replyHeader.length = 3 := rfl
      have assembled := sendClientAuthResponse_eq three address port
      rw [replyData, assembled] at taken
      obtain rfl := Option.some.inj taken
      refine ⟨.connecting admits reaches ?_ rfl quiet conduct ⟨live, readCb, inBuffer⟩ replyData, none, rfl, small,
        rfl⟩
      intro pair same
      obtain rfl := Option.some.inj same
      exact small
    · exact absurd none bound
  · cases taken

theorem ServerAt.replyFlushed {next : ServerEnd} (stage : ServerAt d excuse heard peer written)
    (taken : peer.replyFlushed d.platform d.accounts = some (next, bytes)) :
    ServerAt d excuse heard next (written ++ bytes) ∧ next.bound = peer.bound ∧ next.downloaded = peer.downloaded := by
  rw [ServerEnd.replyFlushed] at taken
  split at taken
  · cases taken
  · rename_i enabled
    obtain ⟨bound, other⟩ := not_or.mp enabled
    rw [Option.isNone_iff_eq_none] at bound
    rw [Docks.step] at taken
    split at taken
    · rename_i started
      obtain ⟨live, connected⟩ := started
      obtain ⟨rfl, rfl⟩ := Prod.mk.inj (Option.some.inj taken)
      obtain ⟨admits, reaches, outBuffer, ⟨readCb, replyData, rfl, rfl, quiet, conduct, inBuffer⟩ | ⟨relays, -⟩⟩ :=
        stage.late live connected
      · rw [if_neg other] at outBuffer
        refine ⟨?_, rfl, rfl⟩
        have conduct' : Conduct d [(d.host, d.port)] [] { peer.server with
            context := { peer.server.context with remote := true }, readCb := .serverRead } :=
          conduct.log (List.append_nil _).symm fun e absent => by cases absent
        have said : replyBytes peer.bound ++ peer.downloaded = peer.outBuffer := by
          rw [quiet, List.append_nil, outBuffer]
        have relays : ServerAt d excuse (d.introduction ++ (d.request ++ [])) ⟨_, peer.bound, [], peer.downloaded⟩ _ :=
          .relaying admits reaches stage.small bound rfl conduct' ⟨live, rfl, inBuffer⟩
        rw [said, List.append_nil] at relays
        exact relays
      · exact absurd relays other
    · cases taken

theorem ServerAt.downloads {next : ServerEnd} {items : List Byte} (sound : d.Sound)
    (stage : ServerAt d excuse heard peer written) (taken : peer.downloads items = some (next, bytes)) :
    ServerAt d excuse heard next (written ++ bytes) ∧ next.bound = peer.bound ∧
      next.downloaded = peer.downloaded ++ bytes := by
  rw [ServerEnd.downloads] at taken
  split at taken
  · rename_i enabled
    obtain ⟨live, relays⟩ := enabled
    obtain ⟨rfl, rfl⟩ := Prod.mk.inj (Option.some.inj taken)
    refine ⟨?_, rfl, rfl⟩
    cases stage with
    | methods _ _ _ _ reads =>
      rcases reads with ⟨-, holds⟩ | ⟨-, holds, -⟩
      · cases holds.readCb.symm.trans relays
      · cases holds.readCb.symm.trans relays
    | judging _ _ _ _ _ _ holds => cases holds.readCb.symm.trans relays
    | requested _ _ _ _ _ _ pending =>
      rcases (pending sound.bounds).kept with ⟨-, readCb, -⟩ | ⟨-, readCb, -⟩
      · cases readCb.symm.trans relays
      · cases readCb.symm.trans relays
    | connecting _ _ _ _ _ _ holds => cases holds.readCb.symm.trans relays
    | relaying admits reaches small bound outBuffer conduct holds =>
      rw [List.append_assoc, List.append_assoc]
      exact .relaying admits reaches small bound outBuffer conduct holds
    | ended ended =>
      rw [ended.dead] at live
      exact Bool.noConfusion live
  · cases taken

/-- The event is freed, at any stage. -/
theorem ServerAt.frees {next : Server} {effects : List Effect} (stage : ServerAt d excuse heard peer written)
    (excused : excuse) (dead : next.live = false) (grown : next.log = peer.server.log ++ effects)
    (inward : ∀ e ∈ effects, e.Inward) :
    ServerAt d excuse heard { peer.withServer next with outBuffer := [] } written := by
  refine .ended {
    dead := dead
    speaks := stage.speaks
    small := stage.small
    quiet := stage.quiet
    conduct := ?_
    cause := .inl excused }
  rcases stage.conduct with ⟨unbound, conduct⟩ | ⟨admits, relayed, conduct, kept⟩
  · exact .inl ⟨unbound, conduct.log grown inward⟩
  · exact .inr ⟨admits, relayed, conduct.log grown inward, kept⟩

theorem ServerAt.remoteEnds {next : ServerEnd} (stage : ServerAt d excuse heard peer written) (excused : excuse)
    (taken : peer.remoteEnds = some next) :
    ServerAt d excuse heard next written ∧ next.bound = peer.bound ∧ next.downloaded = peer.downloaded := by
  rw [ServerEnd.remoteEnds] at taken
  split at taken
  · obtain rfl := Option.some.inj taken
    exact ⟨stage.frees excused rfl rfl fun e member => List.mem_singleton.mp member ▸ trivial, rfl, rfl⟩
  · cases taken

/-- The final read callback, with what an unfinished message has left in the in-buffer. -/
theorem ServerAt.finalCall (sound : d.Sound) (stage : ServerAt d excuse heard peer written)
    (live : peer.server.live = true) (more : peer.server.inBuffer ≠ []) (stack : Nat → Byte) :
    (received d.platform d.accounts stack [] peer.server).live = true ∧
      (received d.platform d.accounts stack [] peer.server).log =
        peer.server.log ++ [.call peer.server.readCb] := by
  cases stage with
  | methods inside short unbound conduct reads =>
    have inside' : heard ++ [] <+: d.methods := by rwa [List.append_nil]
    rcases received_methods reads inside' d.accounts stack with
      ⟨few, waits, holds⟩ | ⟨enough, middle, inner, holds, count, log⟩
    · rw [waits]
      exact ⟨holds.live, rfl⟩
    · have missing : middle.inBuffer.length < middle.context.methodCount.toNat := by
        rw [holds.inBuffer, count, length_offered, List.append_nil, List.length_drop]
        rw [methods_eq, List.length_cons, List.length_cons] at short
        rw [List.append_nil] at enough
        omega
      rw [inner, onReadMethodsInner_waits missing]
      exact ⟨holds.live, log⟩
  | judging course inside short apart unbound conduct holds =>
    rename_i sofar username password
    obtain ⟨kept, -, -⟩ := d.judged_credentials course
    have usernameShort := sound.username username (by rw [kept]; rfl)
    have passwordShort := sound.password password (by rw [kept]; rfl)
    have arrived : (called [] peer.server).inBuffer = sofar := by
      rw [called_inBuffer, holds.inBuffer, List.append_nil]
    have within : (called [] peer.server).inBuffer <+: credentials username.bytes password.bytes ++ [] := by
      rw [arrived, List.append_nil, ← authMessage_eq]
      exact inside
    rw [authMessage_length] at short
    have waits : onAuthRead d.accounts stack (called [] peer.server) = called [] peer.server :=
      onAuthRead_waits within usernameShort passwordShort (by rw [arrived]; exact short) (by rw [arrived]; exact apart)
    rw [received_onAuthRead holds.readCb, waits]
    exact ⟨live, rfl⟩
  | requested heeded inside short unbegun unbound conduct pending =>
    rename_i sofar
    have pending' := pending sound.bounds
    obtain ⟨rest, whole⟩ := inside
    have rest' : rest ≠ [] := by
      rintro rfl
      rw [List.append_nil] at whole
      exact absurd short (by rw [whole]; exact Nat.lt_irrefl _)
    rw [← request_bytes sound, ← List.append_nil sofar] at whole
    have before : (sofar ++ []).length ≤ connHeaderLen := by rwa [List.append_nil]
    exact ⟨(received_waits pending' whole rest' fun _ => before).live,
      received_waits_log pending' d.accounts d.platform whole rest' before⟩
  | connecting _ _ _ _ _ _ holds => exact absurd holds.inBuffer more
  | relaying _ _ _ _ _ _ holds => exact absurd holds.inBuffer more
  | ended ended =>
    rw [ended.dead] at live
    exact Bool.noConfusion live

theorem ServerAt.ends {next : ServerEnd} (sound : d.Sound) (stage : ServerAt d excuse heard peer written)
    (excused : excuse) (taken : peer.ends d.platform d.accounts stack = some next) :
    ServerAt d excuse heard next written ∧ next.bound = peer.bound ∧ next.downloaded = peer.downloaded := by
  rw [ServerEnd.ends, Docks.step] at taken
  split at taken
  · rename_i live
    obtain rfl := Option.some.inj taken
    refine ⟨?_, rfl, rfl⟩
    by_cases empty : peer.server.inBuffer = []
    · simp only [if_pos empty, if_pos live]
      exact stage.frees excused rfl rfl fun e member => List.mem_singleton.mp member ▸ trivial
    · obtain ⟨live', log⟩ := stage.finalCall sound live empty stack
      have same : received d.platform d.accounts stack [] peer.server =
          peer.server.callRead d.platform d.accounts stack := by rw [received, List.append_nil]
      rw [same] at live' log
      simp only [if_neg empty, if_pos live']
      have grown : (peer.server.callRead d.platform d.accounts stack).free.log =
          peer.server.log ++ [.call peer.server.readCb, .freed] := by
        rw [Server.free, Server.emit]
        simp only [log, List.append_assoc, List.singleton_append]
      refine stage.frees excused rfl grown fun e member => ?_
      rcases List.mem_cons.mp member with rfl | member
      · trivial
      · exact List.mem_singleton.mp member ▸ trivial
  · cases taken

end Devent.Docks
