import Devent.Docks.OneRequest

/-! What a client sends behind its request. The IP branches take their address and port and
leave the rest to the relay; the domain branch takes what its buffer holds. -/
namespace Devent.Docks

/-- The callback of the request finds all of it, with the payload behind. -/
def RequestArrived (request : ConnectRequest) (payload : List Byte) (server : Server) : Prop :=
  server.readCb = .connectRead ∧ server.inBuffer = request.bytes ++ payload ∨
    server.readCb = .readAddress ∧ server.context.connectHeader = request.header ∧
      server.inBuffer = request.body ++ payload

/-- The payload is all that the parse leaves, and it is there when the relay starts, before
what came later. -/
structure PayloadKept (payload : List Byte) (later : List Input) (parsed relaying : Server) : Prop where
  parsed : parsed.inBuffer = payload
  relaying : relaying.inBuffer = payload ++ sent later

/-- What has arrived is less than another address. -/
def Patient (server : Server) (input : Input) : Prop :=
  Waits server.context.connectHeader (server.inBuffer ++ input.bytes)

instance (server : Server) (input : Input) : Decidable (Patient server input) :=
  inferInstanceAs (Decidable (Waits _ _))

/-- What `read_address` leaves of the payload. -/
def Destination.leaves : Destination → List Byte → List Byte
  | .ipv4 _, payload | .ipv6 _, payload => payload
  | .domain name, payload => payload.drop (maxDomainLen * 2 + 1 - name.val.length)

variable {server parsed next last relaying : Server} {platform : Platform} {config : ServerConfig}
  {request : ConnectRequest} {payload bytes : List Byte} {stack : Nat → Byte} {later : List Input}
  {outs : List Unit}

theorem leaves_iff (destination : Destination) (payload : List Byte) :
    destination.leaves payload = payload ↔ (destination.IsDomain → payload = []) := by
  cases destination with
  | ipv4 address =>
    refine iff_of_true rfl fun domain => ?_
    simp only [Destination.IsDomain, Destination.atype] at domain
    exact absurd domain (by decide)
  | ipv6 address =>
    refine iff_of_true rfl fun domain => ?_
    simp only [Destination.IsDomain, Destination.atype] at domain
    exact absurd domain (by decide)
  | domain name =>
    have short := name.property.2
    have positive : maxDomainLen * 2 + 1 - name.val.length ≠ 0 := by
      simp only [maxDomainLen] at short ⊢
      omega
    have domain : (Destination.domain name).IsDomain := rfl
    simp only [Destination.leaves, domain, forall_const]
    constructor
    · intro same
      have lengths := congrArg List.length same
      rw [List.length_drop] at lengths
      exact List.length_eq_zero_iff.mp (by omega)
    · rintro rfl
      exact List.drop_nil

theorem readIp_leaves {ipLen : Nat} {print : List Byte → Option CString} {address : List Byte}
    {high low : Byte} (width : address.length = ipLen)
    (arrived : server.inBuffer = address ++ high :: low :: payload)
    (live : (readIp platform ipLen print server).live = true) :
    (readIp platform ipLen print server).inBuffer = payload := by
  cases printed : print address with
  | none =>
    have ip : server.inBuffer.take ipLen = address := by rw [arrived, ← width, List.take_left]
    have long : ¬server.inBuffer.length < ipLen + portLen := by
      rw [arrived, List.length_append, width]
      exact Nat.not_lt.mpr (Nat.add_le_add_left (Nat.le_add_left ..) _)
    simp only [readIp, if_neg long, Server.read, ip, printed] at live
    cases live
  | some host =>
    rw [readIp_complete print width printed arrived] at live ⊢
    rw [startConnect_inBuffer live]
    simp only [Server.consume, arrived, ← width, List.drop_left]
    rfl

theorem drop_domain {name : List Byte} (short : name.length ≤ maxDomainLen) (high low : Byte)
    (tail : List Byte) : (UInt8.ofNat name.length :: (name ++ high :: low :: tail)).drop (maxDomainLen * 2 + 4) =
      tail.drop (maxDomainLen * 2 + 1 - name.length) := by
  simp only [maxDomainLen] at short
  obtain ⟨room, split⟩ : ∃ room, 255 * 2 + 3 = name.length + (room + 2) :=
    ⟨255 * 2 + 1 - name.length, by omega⟩
  have left : 255 * 2 + 1 - name.length = room := by omega
  simp only [maxDomainLen, left, List.drop_succ_cons, split, List.drop_length_add_append]

/-- A complete request is parsed with what its branch leaves behind it. -/
theorem readAddress_leaves (header : server.context.connectHeader = request.header)
    (arrived : server.inBuffer = request.body ++ payload)
    (live : (readAddress platform server).live = true) :
    (readAddress platform server).inBuffer = request.destination.leaves payload := by
  rw [readAddress_eq platform request header] at live ⊢
  obtain ⟨destination, high, low⟩ := request
  have split (bytes : List Byte) : bytes ++ [high, low] ++ payload = bytes ++ high :: low :: payload := by
    rw [List.append_assoc]
    rfl
  simp only [ConnectRequest.body, split] at arrived
  cases destination with
  | ipv4 address => exact readIp_leaves address.property arrived live
  | ipv6 address => exact readIp_leaves address.property arrived live
  | domain name =>
    rw [readDomain_inBuffer live, arrived]
    exact drop_domain name.property.2 high low payload

/-- The parse, from either of its callbacks. -/
theorem callRead_leaves (arrived : RequestArrived request payload server)
    (live : (server.callRead platform config stack).live = true) :
    (server.callRead platform config stack).inBuffer = request.destination.leaves payload ∧
      (server.callRead platform config stack).readCb = .readAddress := by
  obtain ⟨readCb, buffer⟩ | ⟨readCb, header, buffer⟩ := arrived
  · have four : request.header.length = connHeaderLen := rfl
    rw [ConnectRequest.bytes, List.append_assoc] at buffer
    have front : (server.emit (.call .connectRead)).inBuffer.take connHeaderLen = request.header := by
      rw [← four]
      exact (congrArg _ buffer).trans List.take_left
    have behind : (server.emit (.call .connectRead)).inBuffer.drop connHeaderLen = request.body ++ payload := by
      rw [← four]
      exact (congrArg _ buffer).trans List.drop_left
    rw [callRead_connectRead readCb, connectRead_header request front] at live ⊢
    rw [inBuffer_setReadCb]
    refine ⟨?_, readCb_setReadCb live⟩
    rw [live_setReadCb] at live
    exact readAddress_leaves rfl behind live
  · rw [callRead_readAddress readCb] at live ⊢
    refine ⟨readAddress_leaves header buffer live, ?_⟩
    rw [readAddress_readCb]
    exact readCb

/-- One segment behind the request: it waits, or something is lost. -/
theorem arrive_patient (parsed : server.readCb = .readAddress) (nonempty : bytes ≠ [])
    (live : ((server.arrive bytes).callRead platform config stack).live = true) :
    ((server.arrive bytes).callRead platform config stack).readCb = .readAddress ∧
      (Waits server.context.connectHeader (server.inBuffer ++ bytes) ∧
          ((server.arrive bytes).callRead platform config stack).inBuffer = server.inBuffer ++ bytes ∨
        ¬Waits server.context.connectHeader (server.inBuffer ++ bytes) ∧
          ((server.arrive bytes).callRead platform config stack).inBuffer.length <
            (server.inBuffer ++ bytes).length) := by
  have readCb : (server.arrive bytes).readCb = .readAddress := parsed
  rw [callRead_readAddress readCb] at live ⊢
  constructor
  · rw [readAddress_readCb]
    exact readCb
  · by_cases waits : Waits server.context.connectHeader (server.inBuffer ++ bytes)
    · have idle : readAddress platform ((server.arrive bytes).emit (.call .readAddress)) =
          (server.arrive bytes).emit (.call .readAddress) := readAddress_of_waits (by exact waits)
      rw [idle]
      exact .inl ⟨waits, rfl⟩
    · have early : server.inBuffer ++ bytes ≠ [] := List.append_ne_nil_of_right_ne_nil _ nonempty
      exact .inr ⟨waits, readAddress_shrinks early waits live⟩

/-- Only segments keep a connection alive until the relay starts. -/
theorem segment_of_live {input : Input} {out : Unit} (waiting : input ≠ .connected)
    (taken : step platform config server input = some (next, out)) (live : next.live = true) :
    ∃ bytes stack, input = .segment bytes stack ∧ bytes ≠ [] ∧
      next = (server.arrive bytes).callRead platform config stack := by
  cases input with
  | segment bytes stack =>
    simp only [step] at taken
    split at taken
    · rename_i arrives
      cases taken
      exact ⟨bytes, stack, rfl, arrives.2, rfl⟩
    · cases taken
  | finish stack =>
    simp only [step] at taken
    split at taken
    · cases taken
      generalize (if server.inBuffer = [] then server else server.callRead platform config stack) = ended at live
      split at live
      · cases live
      · contradiction
    · cases taken
  | connected => exact absurd rfl waiting

/-- What is left of the payload, and of all that comes after it: everything, exactly while
what arrives waits. -/
theorem run_patient (parsed : server.readCb = .readAddress) (waiting : ∀ input ∈ later, input ≠ .connected)
    (path : Run.run (step platform config) server later = some (last, outs)) (live : last.live = true) :
    last.inBuffer.length ≤ (server.inBuffer ++ sent later).length ∧
      (last.inBuffer = server.inBuffer ++ sent later ↔ Run.Along (step platform config) Patient server later) := by
  induction later generalizing server outs with
  | nil =>
    cases path
    rw [sent, List.flatMap_nil, List.append_nil]
    exact ⟨Nat.le_refl _, iff_of_true rfl trivial⟩
  | cons input rest ih =>
    obtain ⟨next, out, tail, taken, onward, rfl⟩ := Run.run_cons_iff.mp path
    obtain ⟨bytes, stack, rfl, nonempty, rfl⟩ :=
      segment_of_live (waiting _ List.mem_cons_self) taken (live_of_run onward live)
    obtain ⟨installed, here⟩ := arrive_patient parsed nonempty (live_of_run onward live)
    obtain ⟨bounded, whole⟩ :=
      ih installed (fun input member => waiting input (List.mem_cons_of_mem _ member)) onward
    have split : server.inBuffer ++ sent (.segment bytes stack :: rest) =
        (server.inBuffer ++ bytes) ++ sent rest := by
      rw [sent, sent, List.flatMap_cons, List.append_assoc]
      rfl
    rw [split]
    obtain ⟨waits, kept⟩ | ⟨busy, fewer⟩ := here
    · rw [kept] at bounded whole
      refine ⟨bounded, whole.trans ⟨fun along => ⟨waits, fun _ _ again => ?_⟩, fun along => along.2 _ _ taken⟩⟩
      rw [taken] at again
      cases again
      exact along
    · rw [List.length_append] at bounded ⊢
      refine ⟨by omega, iff_of_false (fun same => ?_) fun along => busy along.1⟩
      have lengths := congrArg List.length same
      rw [List.length_append] at lengths
      omega

/-- Behind a domain everything that is there is lost to the relay, and so is what completes
another address while the remote connects; nothing else is. -/
theorem payload_kept_iff (platform : Platform) (config : ServerConfig) (request : ConnectRequest)
    (payload : List Byte) (server : Server) (bytes : List Byte) (stack : Nat → Byte)
    (arrived : RequestArrived request payload (server.arrive bytes))
    (later : List Input) (waiting : ∀ input ∈ later, input ≠ .connected)
    {parsed last relaying : Server} {outs : List Unit}
    (parse : step platform config server (.segment bytes stack) = some (parsed, ()))
    (path : Run.run (step platform config) parsed later = some (last, outs))
    (starts : step platform config last .connected = some (relaying, ())) :
    PayloadKept payload later parsed relaying ↔
      (request.destination.IsDomain → payload = []) ∧ Run.Along (step platform config) Patient parsed later := by
  have relays : last.live = true ∧ relaying.inBuffer = last.inBuffer := by
    simp only [step] at starts
    split at starts
    · rename_i begun
      cases starts
      exact ⟨begun.1, rfl⟩
    · cases starts
  have live := live_of_run path relays.1
  obtain ⟨bytes', stack', same, -, rfl⟩ := segment_of_live (by simp) parse live
  cases same
  obtain ⟨left, installed⟩ := callRead_leaves arrived live
  obtain ⟨-, whole⟩ := run_patient installed waiting path relays.1
  rw [← leaves_iff, ← left, ← whole, ← relays.2]
  constructor
  · rintro ⟨parsed, relaying⟩
    exact ⟨parsed, by rw [parsed, relaying]⟩
  · rintro ⟨parsed, relaying⟩
    exact ⟨parsed, by rw [relaying, parsed]⟩

/-- A request for 127.0.0.1:80 with its payload, of which some comes later. -/
theorem early_payload_kept : ∃ parsed last relaying outs,
    step resolving ⟨none⟩ awaiting (.segment [5, 1, 0, 1, 127, 0, 0, 1, 0, 80, 71] blank) = some (parsed, ()) ∧
      Run.run (step resolving ⟨none⟩) parsed [.segment [69, 84] blank] = some (last, outs) ∧
      step resolving ⟨none⟩ last .connected = some (relaying, ()) ∧
      PayloadKept [71] [.segment [69, 84] blank] parsed relaying := by
  refine ⟨_, _, _, _, rfl, rfl, rfl, ?_⟩
  apply (payload_kept_iff resolving ⟨none⟩ ⟨.ipv4 ⟨[127, 0, 0, 1], rfl⟩, 0, 80⟩ [71] awaiting
    [5, 1, 0, 1, 127, 0, 0, 1, 0, 80, 71] blank (.inl ⟨rfl, rfl⟩) [.segment [69, 84] blank] (by simp)
    rfl rfl rfl).mpr
  decide

/-- The byte behind a request for the host `a` never reaches the relay. -/
theorem domain_payload_lost : RequestArrived domainRequest [71] (awaiting.arrive (domainRequest.bytes ++ [71])) ∧
    ∃ parsed relaying,
      step resolving ⟨none⟩ awaiting (.segment (domainRequest.bytes ++ [71]) blank) = some (parsed, ()) ∧
        step resolving ⟨none⟩ parsed .connected = some (relaying, ()) ∧ relaying.inBuffer = [] ∧
        ¬PayloadKept [71] [] parsed relaying := by
  refine ⟨.inl ⟨rfl, rfl⟩, _, _, rfl, rfl, rfl, ?_⟩
  intro kept
  cases kept.relaying

end Devent.Docks
