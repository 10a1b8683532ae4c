import Devent.Docks.Request
import Devent.Library.Run
import Mathlib.Data.List.Induction
import Mathlib.Data.List.Infix

/-! How the segments of a CONNECT request may be cut. A wait keeps every byte that is
still needed; the domain branch breaks this at each cut inside its address or port. -/
namespace Devent.Docks

/-- A part of the request has arrived and nothing of it is lost: it is buffered, or its
header is stored and the rest buffered. -/
structure Pending (request : ConnectRequest) (sofar : List Byte) (connects : List (CString × Nat))
    (server : Server) : Prop where
  live : server.live = true
  connects_eq : server.connects = connects
  kept : (sofar.length < connHeaderLen ∧ server.readCb = .connectRead ∧ server.inBuffer = sofar) ∨
    (connHeaderLen ≤ sofar.length ∧ server.readCb = .readAddress ∧
      server.inBuffer = sofar.drop connHeaderLen ∧ server.context.connectHeader = request.header)

variable {request : ConnectRequest} {sofar segment rest : List Byte} {connects : List (CString × Nat)}
  {server : Server} {platform : Platform} {config : ServerConfig} {stack : Nat → Byte}

theorem connectRead_waits (short : server.inBuffer.length < connHeaderLen) :
    connectRead platform server = server := by
  have none : ¬(0 < connHeaderLen ∧ connHeaderLen ≤ server.inBuffer.length) := fun fits =>
    Nat.not_le.mpr short fits.2
  simp only [connectRead, Server.readFull, if_neg none]

theorem connectRead_header (request : ConnectRequest)
    (header : server.inBuffer.take connHeaderLen = request.header) :
    connectRead platform server = (readAddress platform ((server.consume connHeaderLen).setContext
      { server.context with connectHeader := request.header })).setReadCb .readAddress := by
  have long : 0 < connHeaderLen ∧ connHeaderLen ≤ server.inBuffer.length := by
    have lengths := congrArg List.length header
    rw [List.length_take] at lengths
    have four : request.header.length = connHeaderLen := rfl
    exact ⟨by decide, by omega⟩
  have version : ¬request.header[0]? ≠ some socks5Version := fun differs => differs rfl
  have reserved : ¬request.header[2]? ≠ some 0 := fun differs => differs rfl
  have known : ¬(request.header[3]?.getD 0 ≠ atypeIpv4 ∧ request.header[3]?.getD 0 ≠ atypeDomainname ∧
      request.header[3]?.getD 0 ≠ atypeIpv6) := by
    have atype : request.header[3]?.getD 0 = request.destination.atype := rfl
    rw [atype]
    cases request.destination <;> simp only [Destination.atype] <;> decide
  simp only [connectRead, Server.readFull, if_pos long, header, if_neg version, if_neg reserved,
    if_neg known]
  rfl

/-- The server once a segment has been appended and its callback called. -/
def received (platform : Platform) (config : ServerConfig) (stack : Nat → Byte) (segment : List Byte)
    (server : Server) : Server :=
  Server.callRead platform config stack { server with inBuffer := server.inBuffer ++ segment }

/-- The state in which the callback runs. -/
def called (segment : List Byte) (server : Server) : Server :=
  Server.emit { server with inBuffer := server.inBuffer ++ segment } (.call server.readCb)

theorem step_segment (live : server.live = true) (nonempty : segment ≠ []) :
    step platform config server (.segment segment stack) =
      some (received platform config stack segment server, ()) := by
  simp only [step, if_pos (And.intro live nonempty)]
  rfl

theorem received_connectRead (readCb : server.readCb = .connectRead) :
    received platform config stack segment server = connectRead platform (called segment server) := by
  cases server
  cases readCb
  rfl

theorem received_readAddress (readCb : server.readCb = .readAddress) :
    received platform config stack segment server = readAddress platform (called segment server) := by
  cases server
  cases readCb
  rfl

theorem called_inBuffer : (called segment server).inBuffer = server.inBuffer ++ segment := rfl

theorem called_connects : (called segment server).connects = server.connects := by
  simp only [called, connects_emit, List.filterMap_cons, List.filterMap_nil, List.append_nil]
  rfl

theorem header_of_isPrefix (whole : sofar ++ rest = request.bytes) (long : connHeaderLen ≤ sofar.length) :
    sofar.take connHeaderLen = request.header := by
  have four : request.header.length = connHeaderLen := rfl
  have prefixes := congrArg (List.take connHeaderLen) whole
  rw [List.take_append_of_le_length long, ConnectRequest.bytes, ← four, List.take_left] at prefixes
  exact prefixes

/-- Before the header is complete the server waits. -/
theorem received_early (pending : Pending request sofar connects server)
    (early : (sofar ++ segment).length < connHeaderLen) :
    Pending request (sofar ++ segment) connects (received platform config stack segment server) := by
  have grown : sofar.length ≤ (sofar ++ segment).length := by
    rw [List.length_append]
    exact Nat.le_add_right ..
  obtain ⟨-, readCb, buffer⟩ | ⟨long, -⟩ := pending.kept
  · have arrived : (called segment server).inBuffer = sofar ++ segment := by rw [called_inBuffer, buffer]
    have short : (called segment server).inBuffer.length < connHeaderLen := by
      rw [arrived]
      exact early
    rw [received_connectRead readCb, connectRead_waits short]
    constructor
    · exact pending.live
    · exact called_connects.trans pending.connects_eq
    · exact .inl ⟨early, readCb, arrived⟩
  · exact absurd (Nat.le_trans long grown) (Nat.not_le.mpr early)

/-- From the header on, the rest of the request is left to `read_address`. -/
theorem received_address (platform : Platform) (config : ServerConfig) (stack : Nat → Byte)
    (pending : Pending request sofar connects server)
    (whole : (sofar ++ segment) ++ rest = request.bytes)
    (long : connHeaderLen ≤ (sofar ++ segment).length) :
    ∃ middle : Server, middle.live = true ∧ middle.connects = connects ∧
      middle.inBuffer = (sofar ++ segment).drop connHeaderLen ∧
      middle.context.connectHeader = request.header ∧
      (received platform config stack segment server = readAddress platform middle ∧
          middle.readCb = .readAddress ∨
        received platform config stack segment server =
          (readAddress platform middle).setReadCb .readAddress) := by
  have before : (called segment server).connects = connects := called_connects.trans pending.connects_eq
  obtain ⟨-, readCb, buffer⟩ | ⟨reached, readCb, buffer, stored⟩ := pending.kept
  · have arrived : (called segment server).inBuffer = sofar ++ segment := by rw [called_inBuffer, buffer]
    have header : (called segment server).inBuffer.take connHeaderLen = request.header := by
      rw [arrived]
      exact header_of_isPrefix whole long
    refine ⟨((called segment server).consume connHeaderLen).setContext
      { server.context with connectHeader := request.header }, pending.live, before, ?_, rfl, .inr ?_⟩
    · rw [← arrived]
      rfl
    · rw [received_connectRead readCb, connectRead_header request header]
      rfl
  · refine ⟨called segment server, pending.live, before, ?_, stored, .inl ⟨?_, readCb⟩⟩
    · rw [called_inBuffer, buffer, List.drop_append_of_le_length reached]
    · exact received_readAddress readCb

theorem missing_of_prefix (whole : sofar ++ rest = request.bytes) (more : rest ≠ [])
    (long : connHeaderLen ≤ sofar.length) : (sofar.drop connHeaderLen).length < request.body.length := by
  have four : request.header.length = connHeaderLen := rfl
  have lengths := congrArg List.length whole
  have positive := List.length_pos_iff.mpr more
  rw [ConnectRequest.bytes, List.length_append, List.length_append, four] at lengths
  rw [List.length_drop]
  omega

theorem body_of_prefix (whole : sofar ++ rest = request.bytes) (long : connHeaderLen ≤ sofar.length) :
    sofar.drop connHeaderLen ++ rest = request.body := by
  have four : request.header.length = connHeaderLen := rfl
  rw [← List.drop_append_of_le_length long, whole, ConnectRequest.bytes, ← four, List.drop_left]

theorem consume_empty (empty : server.inBuffer = []) (len : Nat) : server.consume len = server := by
  cases server
  cases empty
  simp only [Server.consume, List.drop_nil]

/-- While something is missing, `read_address` changes nothing unless a domain has begun. -/
theorem readAddress_keeps (platform : Platform) (header : server.context.connectHeader = request.header)
    (missing : server.inBuffer.length < request.body.length)
    (allowed : request.destination.IsDomain → server.inBuffer = []) :
    readAddress platform server = server := by
  by_cases domain : request.destination.IsDomain
  · have empty := allowed domain
    rw [readAddress_drains request domain header missing (by rw [empty]; rfl), consume_empty empty]
  · exact readAddress_waits request domain header missing

/-- One more segment that leaves something missing, before a domain is begun. -/
theorem received_waits (pending : Pending request sofar connects server)
    (whole : (sofar ++ segment) ++ rest = request.bytes) (more : rest ≠ [])
    (allowed : request.destination.IsDomain → (sofar ++ segment).length ≤ connHeaderLen) :
    Pending request (sofar ++ segment) connects (received platform config stack segment server) := by
  obtain early | long := Nat.lt_or_ge (sofar ++ segment).length connHeaderLen
  · exact received_early pending early
  · obtain ⟨middle, live, before, buffer, header, reads⟩ :=
      received_address platform config stack pending whole long
    have missing : middle.inBuffer.length < request.body.length := by
      rw [buffer]
      exact missing_of_prefix whole more long
    have kept := readAddress_keeps platform header missing fun domain => by
      rw [buffer]
      exact List.drop_eq_nil_of_le (allowed domain)
    rw [kept] at reads
    obtain ⟨reads, readCb⟩ | reads := reads
    · rw [reads]
      exact ⟨live, before, .inr ⟨long, readCb, buffer, header⟩⟩
    · rw [reads]
      constructor
      · simp only [Server.setReadCb, live, if_true]
      · rw [connects_setReadCb, before]
      · refine .inr ⟨long, ?_, ?_, ?_⟩
        · simp only [Server.setReadCb, live, if_true]
        · rw [inBuffer_setReadCb, buffer]
        · rw [context_setReadCb, header]

/-- A segment that ends inside a domain or its port is lost. -/
theorem received_loses (platform : Platform) (config : ServerConfig) (stack : Nat → Byte)
    (pending : Pending request sofar connects server)
    (whole : (sofar ++ segment) ++ rest = request.bytes) (more : rest ≠ [])
    (domain : request.destination.IsDomain) (begun : connHeaderLen < (sofar ++ segment).length) :
    (received platform config stack segment server).inBuffer = [] := by
  have long := Nat.le_of_lt begun
  obtain ⟨middle, -, -, buffer, header, reads⟩ :=
    received_address platform config stack pending whole long
  have missing : middle.inBuffer.length < request.body.length := by
    rw [buffer]
    exact missing_of_prefix whole more long
  have arrived : middle.inBuffer = request.body.take middle.inBuffer.length := by
    rw [← body_of_prefix whole long, buffer, List.take_left]
  have small : middle.inBuffer.length ≤ maxDomainLen * 2 + 4 := by
    have bounded := request.body_length
    simp only [maxDomainLen, portLen] at bounded ⊢
    omega
  have drained : (readAddress platform middle).inBuffer = [] := by
    rw [readAddress_drains request domain header missing arrived]
    exact List.drop_eq_nil_of_le small
  obtain ⟨reads, -⟩ | reads := reads
  · rw [reads, drained]
  · rw [reads, inBuffer_setReadCb, drained]

/-- The last segment of the request. -/
theorem received_finishes (pending : Pending request sofar connects server)
    (whole : sofar ++ segment = request.bytes) {host : CString}
    (printed : request.destination.host platform = some host) :
    Started connects host request.port (received platform config stack segment server) := by
  have long : connHeaderLen ≤ (sofar ++ segment).length := by
    rw [whole, ConnectRequest.bytes, List.length_append]
    exact Nat.le_add_right ..
  have all : (sofar ++ segment) ++ [] = request.bytes := by rw [List.append_nil, whole]
  obtain ⟨middle, live, before, buffer, header, reads⟩ :=
    received_address platform config stack pending all long
  have body : middle.inBuffer = request.body := by
    rw [buffer, ← body_of_prefix all long, List.append_nil]
  have started := readAddress_whole request printed header body
  rw [before] at started
  obtain ⟨reads, -⟩ | reads := reads
  · rw [reads]
    exact started
  · rw [reads]
    exact started.setReadCb _

/-- Nothing is buffered, and the callback takes what comes next. -/
structure Server.Awaits (cb : ReadCallback) (server : Server) : Prop where
  live : server.live = true
  readCb : server.readCb = cb
  inBuffer : server.inBuffer = []

/-- The segments one after the other, each with a call of the current callback. -/
def deliver (platform : Platform) (config : ServerConfig) (stack : Nat → Byte) (server : Server)
    (segments : List (List Byte)) : Option (Server × List Unit) :=
  Run.run (step platform config) server (segments.map (Input.segment · stack))

/-- No cut falls inside the address or the port of a domain request. -/
def CutsOutsideDomain (request : ConnectRequest) (segments : List (List Byte)) : Prop :=
  request.destination.IsDomain →
    ∀ first rest, first ++ rest = segments → rest ≠ [] → first.flatten.length ≤ connHeaderLen

instance (request : ConnectRequest) (segments : List (List Byte)) :
    Decidable (CutsOutsideDomain request segments) :=
  decidable_of_iff (request.destination.IsDomain →
      ∀ first ∈ segments.inits, first ≠ segments → first.flatten.length ≤ connHeaderLen) <| by
    constructor
    · intro checked domain first rest cut more
      apply checked domain first ((List.mem_inits ..).mpr ⟨rest, cut⟩)
      rintro rfl
      exact more (List.append_right_eq_self.mp cut)
    · intro allowed domain first member proper
      obtain ⟨rest, cut⟩ := (List.mem_inits ..).mp member
      apply allowed domain first rest cut
      rintro rfl
      exact proper ((List.append_nil first).symm.trans cut)

/-- Segments that spell the request are as good as the request in one: every wait
keeps what is needed, and host, port and the one connect are the same. -/
structure Independent (platform : Platform) (config : ServerConfig) (stack : Nat → Byte)
    (request : ConnectRequest) (server : Server) (segments : List (List Byte)) : Prop where
  waits : ∀ first rest, first ++ rest = segments → rest ≠ [] →
    ∃ last outs, deliver platform config stack server first = some (last, outs) ∧
      Pending request first.flatten server.connects last
  once : ∃ last outs atOnce outs', deliver platform config stack server segments = some (last, outs) ∧
    deliver platform config stack server [request.bytes] = some (atOnce, outs') ∧
    last.context.remoteHost = atOnce.context.remoteHost ∧
    last.context.remotePort = atOnce.context.remotePort ∧
    last.connects = atOnce.connects ∧ last.connects.length = server.connects.length + 1

theorem Server.Awaits.pending (awaits : server.Awaits .connectRead) (request : ConnectRequest) :
    Pending request [] server.connects server :=
  ⟨awaits.live, rfl, .inl ⟨by decide, awaits.readCb, awaits.inBuffer⟩⟩

/-- One more segment at the end of a delivery. -/
theorem deliver_snoc {segments : List (List Byte)} {last : Server} {outs : List Unit}
    (delivered : deliver platform config stack server segments = some (last, outs))
    (live : last.live = true) (nonempty : segment ≠ []) :
    deliver platform config stack server (segments ++ [segment]) =
      some (received platform config stack segment last, outs ++ [()]) := by
  have one : Run.run (step platform config) last [Input.segment segment stack] =
      some (received platform config stack segment last, [()]) := by
    simp only [Run.run, step_segment live nonempty]
    rfl
  rw [deliver, List.map_append]
  exact Run.run_append delivered one

theorem flatten_ne_nil {segments : List (List Byte)} (some' : segments ≠ [])
    (nonempty : ∀ segment ∈ segments, segment ≠ []) : segments.flatten ≠ [] := by
  obtain ⟨first, rest, rfl⟩ := List.exists_cons_of_ne_nil some'
  intro empty
  rw [List.flatten_cons, List.append_eq_nil_iff] at empty
  exact nonempty first List.mem_cons_self empty.1

/-- What a cut leaves on its right, as bytes. -/
theorem cut_bytes {segments first rest : List (List Byte)} (nonempty : ∀ segment ∈ segments, segment ≠ [])
    (whole : segments.flatten = request.bytes) (cut : first ++ rest = segments) (more : rest ≠ []) :
    first.flatten ++ rest.flatten = request.bytes ∧ rest.flatten ≠ [] := by
  subst cut
  constructor
  · rw [← List.flatten_append, whole]
  · exact flatten_ne_nil more fun segment member => nonempty segment (List.mem_append_right _ member)

/-- While something is missing, what has arrived is kept after any number of segments. -/
theorem deliver_waits (platform : Platform) (config : ServerConfig) (stack : Nat → Byte)
    (awaits : server.Awaits .connectRead) {segments : List (List Byte)}
    (nonempty : ∀ segment ∈ segments, segment ≠ []) (whole : segments.flatten = request.bytes)
    (allowed : CutsOutsideDomain request segments) (first : List (List Byte)) :
    ∀ rest, first ++ rest = segments → rest ≠ [] →
      ∃ last outs, deliver platform config stack server first = some (last, outs) ∧
        Pending request first.flatten server.connects last := by
  induction first using List.reverseRecOn with
  | nil =>
    intro _ _ _
    exact ⟨server, [], rfl, awaits.pending request⟩
  | append_singleton first segment ih =>
    intro rest cut more
    have earlier : first ++ ([segment] ++ rest) = segments := by rw [← List.append_assoc, cut]
    obtain ⟨last, outs, delivered, pending⟩ := ih _ earlier (List.cons_ne_nil _ _)
    have member : segment ∈ segments := by simp [← cut]
    have flat : (first ++ [segment]).flatten = first.flatten ++ segment := by
      rw [List.flatten_append, List.flatten_singleton]
    obtain ⟨bytes, missing⟩ := cut_bytes nonempty whole cut more
    rw [flat] at bytes ⊢
    refine ⟨_, _, deliver_snoc delivered pending.live (nonempty segment member), ?_⟩
    apply received_waits pending bytes missing
    intro domain
    rw [← flat]
    exact allowed domain _ rest cut more

/-- The whole request, in any allowed segments, is connected once. -/
theorem deliver_started (platform : Platform) (config : ServerConfig) (stack : Nat → Byte)
    (awaits : server.Awaits .connectRead) {segments : List (List Byte)}
    (nonempty : ∀ segment ∈ segments, segment ≠ []) (whole : segments.flatten = request.bytes)
    (allowed : CutsOutsideDomain request segments) {host : CString}
    (printed : request.destination.host platform = some host) :
    ∃ last outs, deliver platform config stack server segments = some (last, outs) ∧
      Started server.connects host request.port last := by
  obtain rfl | ⟨first, segment, rfl⟩ := segments.eq_nil_or_concat'
  · cases whole
  · obtain ⟨before, outs, delivered, pending⟩ := deliver_waits platform config stack awaits nonempty
      whole allowed first [segment] rfl (List.cons_ne_nil _ _)
    rw [List.flatten_append, List.flatten_singleton] at whole
    have last : segment ≠ [] := nonempty segment (by simp)
    exact ⟨_, _, deliver_snoc delivered pending.live last, received_finishes pending whole printed⟩

/-- A cut inside the address or the port of a domain request loses its bytes. -/
theorem cuts_of_waits {segments : List (List Byte)}
    (nonempty : ∀ segment ∈ segments, segment ≠ []) (whole : segments.flatten = request.bytes)
    (waits : ∀ first rest, first ++ rest = segments → rest ≠ [] →
      ∃ last outs, deliver platform config stack server first = some (last, outs) ∧
        Pending request first.flatten server.connects last) : CutsOutsideDomain request segments := by
  intro domain first rest cut more
  obtain rfl | ⟨first, segment, rfl⟩ := first.eq_nil_or_concat'
  · exact Nat.zero_le _
  · apply Nat.le_of_not_lt
    intro begun
    have earlier : first ++ ([segment] ++ rest) = segments := by rw [← List.append_assoc, cut]
    obtain ⟨before, outs, delivered, pending⟩ := waits _ _ earlier (List.cons_ne_nil _ _)
    obtain ⟨last, outs', delivered', kept⟩ := waits _ _ cut more
    have member : segment ∈ segments := by simp [← cut]
    obtain ⟨bytes, missing⟩ := cut_bytes nonempty whole cut more
    rw [deliver_snoc delivered pending.live (nonempty segment member)] at delivered'
    obtain ⟨rfl, -⟩ := Prod.mk.inj (Option.some.inj delivered')
    rw [List.flatten_append, List.flatten_singleton] at bytes begun kept
    have lost := received_loses platform config stack pending bytes
      missing domain begun
    obtain ⟨early, -⟩ | ⟨-, -, buffer, -⟩ := kept.kept
    · omega
    · rw [lost] at buffer
      exact absurd (List.drop_eq_nil_iff.mp buffer.symm) (Nat.not_le.mpr begun)

/-- A CONNECT request may be cut anywhere but inside a domain and its port. -/
theorem segmentation_independent_iff (platform : Platform) (config : ServerConfig) (stack : Nat → Byte)
    (prints : ∀ ip : List Byte, ip.length = ipv6Len → platform.inetNtop ip ≠ none)
    (request : ConnectRequest) (server : Server) (awaits : server.Awaits .connectRead)
    (segments : List (List Byte)) (nonempty : ∀ segment ∈ segments, segment ≠ [])
    (whole : segments.flatten = request.bytes) :
    Independent platform config stack request server segments ↔ CutsOutsideDomain request segments := by
  have printed : ∃ host, request.destination.host platform = some host := by
    cases request.destination with
    | ipv4 address => exact ⟨_, rfl⟩
    | domain name => exact ⟨_, rfl⟩
    | ipv6 address => exact Option.ne_none_iff_exists'.mp (prints address.val address.property)
  obtain ⟨host, printed⟩ := printed
  constructor
  · intro independent
    exact cuts_of_waits nonempty whole independent.waits
  · intro allowed
    have alone : CutsOutsideDomain request [request.bytes] := by
      intro _ first rest cut more
      cases first with
      | nil => exact Nat.zero_le _
      | cons segment first =>
        rw [List.cons_append, List.cons.injEq, List.append_eq_nil_iff] at cut
        exact absurd cut.2.2 more
    obtain ⟨last, outs, delivered, started⟩ := deliver_started platform config stack awaits
      nonempty whole allowed printed
    obtain ⟨atOnce, outs', deliveredAtOnce, startedAtOnce⟩ := deliver_started platform config stack awaits
      (fun segment member => by rw [List.mem_singleton.mp member]; exact List.cons_ne_nil _ _)
      List.flatten_singleton alone printed
    constructor
    · exact fun first => deliver_waits platform config stack awaits nonempty whole allowed first
    · refine ⟨last, outs, atOnce, outs', delivered, deliveredAtOnce, ?_, ?_, ?_, ?_⟩
      · rw [started.remoteHost, startedAtOnce.remoteHost]
      · rw [started.remotePort, startedAtOnce.remotePort]
      · rw [started.connects, startedAtOnce.connects]
      · rw [started.connects, List.length_append]
        rfl

/-- IPv6 addresses print, every connect succeeds. -/
def resolving : Platform := ⟨fun ip => some (inetNtoa ip), none, fun _ _ => true⟩

/-- A server without users, after the methods. -/
def awaiting : Server := { Server.start with readCb := .connectRead }

/-- A request for the host `a`, port 80. -/
def domainRequest : ConnectRequest := ⟨.domain ⟨[97], by decide⟩, 0, 80⟩

theorem cut_behind_header_independent :
    Independent resolving ⟨none⟩ (fun _ => 0) domainRequest awaiting [[5, 1], [0, 3], [1, 97, 0, 80]] := by
  apply (segmentation_independent_iff resolving ⟨none⟩ (fun _ => 0) (fun _ _ absent => by cases absent)
    domainRequest awaiting ⟨rfl, rfl, rfl⟩ _ (by decide) (by decide)).mpr
  decide

/-- Cut behind its length, the domain is never connected. -/
theorem cut_domain_never_connects : ∃ last outs atOnce outs',
    deliver resolving ⟨none⟩ (fun _ => 0) awaiting [[5, 1, 0, 3, 1], [97, 0, 80]] = some (last, outs) ∧
      deliver resolving ⟨none⟩ (fun _ => 0) awaiting [[5, 1, 0, 3, 1, 97, 0, 80]] = some (atOnce, outs') ∧
      last.connects = [] ∧ atOnce.connects = [(⟨[97], by decide⟩, 80)] ∧
      ¬Independent resolving ⟨none⟩ (fun _ => 0) domainRequest awaiting [[5, 1, 0, 3, 1], [97, 0, 80]] := by
  refine ⟨_, _, _, _, rfl, rfl, by decide, by decide, ?_⟩
  intro independent
  obtain ⟨last, outs, -, -, delivered, -, -, -, -, once⟩ := independent.once
  obtain ⟨rfl, -⟩ := Prod.mk.inj (Option.some.inj delivered)
  exact absurd once (by decide)

end Devent.Docks
