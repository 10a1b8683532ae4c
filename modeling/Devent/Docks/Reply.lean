import Devent.Docks.DocksClient
import Devent.Library.Region
import Devent.Library.Run

/-! The reply to a request: how the server assembles it in `reply_data`, and how the three
read callbacks of the client take it apart, wherever it is cut. -/
namespace Devent.Docks

/-- What `DocketEvent_fetch_local_address` gives, in network order. -/
inductive BoundAddress where
  | inet (address : { bytes : List Byte // bytes.length = ipv4Len })
  | inet6 (address : { bytes : List Byte // bytes.length = ipv6Len })

namespace BoundAddress

def atype : BoundAddress → Byte
  | .inet _ => atypeIpv4
  | .inet6 _ => atypeIpv6

def bytes : BoundAddress → List Byte
  | .inet address | .inet6 address => address.val

/-- The address as `inet_ntoa` or `inet_ntop` prints it. -/
def text (platform : Platform) : BoundAddress → Option CString
  | .inet address => some (inetNtoa address.val)
  | .inet6 address => platform.inetNtop address.val

end BoundAddress

/-- The size of `reply_data`. -/
def replyDataSize : Nat := maxDomainLen + 6

/-- What `send_client_auth_response` writes, assembled over what `read_address` has put at
the front of `reply_data`. -/
def sendClientAuthResponse (replyData : List Byte) (address : BoundAddress) (port : Nat) :
    Except Overrun (List Byte) := do
  let respData ← (Region.uninit replyDataSize).store 0 replyData
  let respData ← respData.store connHeaderLen address.bytes
  let respData ← respData.store 3 [address.atype]
  let replyDataLen := connHeaderLen + address.bytes.length + portLen
  let respData ← respData.store (replyDataLen - portLen) (uShortToData port)
  respData.load 0 replyDataLen

inductive ReplyCallback where
  | onReadServerConnect
  | onReadServerBindHost
  | onReadServerBindPort
  deriving DecidableEq

/-- The client's event and context. `unread` is what stays in the socket once reading is
disabled, `connected` the bound address and port at each call of `on_server_connect`. -/
structure ReplyReader where
  inBuffer : List Byte
  unread : List Byte
  readCb : ReplyCallback
  bindHost : Option CString
  bindPort : Nat
  reading : Bool
  live : Bool
  connected : List (Option CString × Nat)

namespace ReplyReader

def arrive (reader : ReplyReader) (bytes : List Byte) : ReplyReader :=
  { reader with inBuffer := reader.inBuffer ++ bytes }

def free (reader : ReplyReader) : ReplyReader := { reader with live := false, inBuffer := [] }

/-- `on_connect` of docks_client.c disables the reading before it uses the event. -/
def onServerConnect (reader : ReplyReader) : ReplyReader :=
  { reader with connected := reader.connected ++ [(reader.bindHost, reader.bindPort)], reading := false }

def onReadServerBindPort (reader : ReplyReader) : ReplyReader :=
  match reader.inBuffer with
  | high :: low :: rest => onServerConnect { reader with inBuffer := rest, bindPort := portToUint16 high low }
  | _ => reader

/-- An address type with its address of that length in all, printed without the first bytes. -/
def readBindHost (skipped len : Nat) (print : List Byte → Option CString) (reader : ReplyReader) :
    ReplyReader :=
  if len ≤ reader.inBuffer.length then
    match print ((reader.inBuffer.take len).drop skipped) with
    | none => reader.free
    | some host => onReadServerBindPort { reader with
        inBuffer := reader.inBuffer.drop len, bindHost := some host, readCb := .onReadServerBindPort }
  else reader

/-- A domain whose length is negative as a plain `char` gives its array no size. -/
def onReadServerBindHost (platform : Platform) (reader : ReplyReader) : Option ReplyReader :=
  match reader.inBuffer with
  | [] => some reader
  | atype :: rest =>
    if atype = atypeIpv4 then some (reader.readBindHost 1 (1 + ipv4Len) fun ip => some (inetNtoa ip))
    else if atype = atypeIpv6 then some (reader.readBindHost 1 (1 + ipv6Len) platform.inetNtop)
    else if atype = atypeDomainname then
      match rest with
      | [] => some reader
      | len :: _ =>
        if 0 ≤ signedChar len then
          some (reader.readBindHost 2 (2 + len.toNat) fun domain => some (CString.ofBytes domain))
        else none
    else some reader.free

def onReadServerConnect (platform : Platform) (reader : ReplyReader) : Option ReplyReader :=
  match reader.inBuffer with
  | version :: reply :: reserved :: rest =>
    let reader := { reader with inBuffer := rest }
    if version ≠ socks5Version ∨ reserved ≠ 0x00 then some reader.free
    else if reply ≠ replySucceeded then some reader.free
    else onReadServerBindHost platform { reader with readCb := .onReadServerBindHost }
  | _ => some reader

def callRead (platform : Platform) (reader : ReplyReader) : Option ReplyReader :=
  match reader.readCb with
  | .onReadServerConnect => reader.onReadServerConnect platform
  | .onReadServerBindHost => reader.onReadServerBindHost platform
  | .onReadServerBindPort => some reader.onReadServerBindPort

/-- A piece of the stream reaches the socket; it is read while reading is enabled. -/
def step (platform : Platform) (reader : ReplyReader) (segment : List Byte) : Option (ReplyReader × Unit) :=
  if reader.live then
    if reader.reading then
      (callRead platform (reader.arrive segment)).map (·, ())
    else some ({ reader with unread := reader.unread ++ segment }, ())
  else none

/-- Behind `docks_send_remote_address`. -/
def start : ReplyReader := ⟨[], [], .onReadServerConnect, none, 0, true, true, []⟩

end ReplyReader

open Region in
/-- The reply lies in `reply_data` as its fields in order. -/
theorem sendClientAuthResponse_eq {replyData : List Byte} (three : replyData.length = 3)
    (address : BoundAddress) (port : Nat) : sendClientAuthResponse replyData address port =
      .ok (replyData ++ address.atype :: (address.bytes ++ uShortToData port)) := by
  have narrow : address.bytes.length ≤ ipv6Len := by
    cases address with
    | inet address => exact Nat.le_trans (Nat.le_of_eq address.property) (by decide)
    | inet6 address => exact Nat.le_of_eq address.property
  obtain ⟨room, size⟩ : ∃ room, replyDataSize = 3 + (1 + (address.bytes.length + (2 + room))) :=
    ⟨replyDataSize - 6 - address.bytes.length, by
      simp only [replyDataSize, maxDomainLen, ipv6Len] at narrow ⊢
      omega⟩
  have front : (full replyData).length = 3 := by rw [length_full, three]
  have version := store_over [] replyData
    (uninit 1 ++ (uninit address.bytes.length ++ (uninit 2 ++ uninit room)))
    ((length_uninit 3).trans three.symm)
  have bound := store_over (full replyData ++ uninit 1) address.bytes (uninit 2 ++ uninit room)
    (length_uninit address.bytes.length)
  have atype := store_over (full replyData) [address.atype]
    (full address.bytes ++ (uninit 2 ++ uninit room)) (length_uninit 1)
  have numbered := store_over (full replyData ++ (full [address.atype] ++ full address.bytes))
    (uShortToData port) (uninit room) (length_uninit 2)
  have loaded := load_full [] (replyData ++ address.atype :: (address.bytes ++ uShortToData port)) (uninit room)
  have place : 3 + (1 + address.bytes.length) = 4 + address.bytes.length := by omega
  have len : 3 + (1 + (address.bytes.length + 2)) = 4 + address.bytes.length + 2 := by omega
  have two : (uShortToData port).length = 2 := rfl
  have empty : full ([] : List Byte) = [] := rfl
  have cons : address.atype :: (address.bytes ++ uShortToData port) =
      [address.atype] ++ (address.bytes ++ uShortToData port) := rfl
  simp only [cons, List.length_append, front, length_uninit, length_full, List.append_assoc, List.length_nil,
    List.length_singleton, List.nil_append, empty, full_append, two, three, place, len]
    at version bound atype numbered loaded ⊢
  simp only [sendClientAuthResponse, size, uninit_add, version, bind, Except.bind, connHeaderLen, portLen, bound,
    atype, Nat.add_sub_cancel, numbered, loaded]

namespace ReplyReader

variable {platform : Platform} {reader : ReplyReader} {address : BoundAddress} {host : CString}
  {port : Nat} {payload arrived rest : List Byte}

/-- A callback that waits with these bytes in its in-buffer. -/
structure Waiting (cb : ReplyCallback) (rest : List Byte) (reader : ReplyReader) : Prop where
  live : reader.live = true
  reading : reader.reading = true
  readCb : reader.readCb = cb
  inBuffer : reader.inBuffer = rest
  unread : reader.unread = []
  connected : reader.connected = []

/-- `on_server_connect` was called once, and the rest is where the event or the socket has it. -/
structure Connected (host : CString) (port : Nat) (rest : List Byte) (reader : ReplyReader) : Prop where
  live : reader.live = true
  reading : reader.reading = false
  connected : reader.connected = [(some host, port)]
  kept : reader.inBuffer ++ reader.unread = rest

def replyHeader : List Byte := [socks5Version, replySucceeded, 0]

def boundHost (address : BoundAddress) : List Byte := address.atype :: address.bytes

/-- The client once part of the stream has arrived, for any address field, of which it keeps that host. -/
inductive Framing (field : List Byte) (host : CString) (port : Nat) : List Byte → ReplyReader → Prop
  | header {arrived : List Byte} {reader : ReplyReader} (short : arrived.length < replyHeader.length)
      (waiting : Waiting .onReadServerConnect arrived reader) : Framing field host port arrived reader
  | bindHost {rest : List Byte} {reader : ReplyReader} (short : rest.length < field.length)
      (waiting : Waiting .onReadServerBindHost rest reader) :
      Framing field host port (replyHeader ++ rest) reader
  | bindPort {rest : List Byte} {reader : ReplyReader} (short : rest.length < (uShortToData port).length)
      (waiting : Waiting .onReadServerBindPort rest reader) (named : reader.bindHost = some host) :
      Framing field host port (replyHeader ++ (field ++ rest)) reader
  | connected {rest : List Byte} {reader : ReplyReader} (done : Connected host port rest reader) :
      Framing field host port (replyHeader ++ (field ++ (uShortToData port ++ rest))) reader

variable {field : List Byte}

theorem onReadServerBindPort_frames (small : port < 65536)
    (waiting : Waiting .onReadServerBindPort rest reader) (named : reader.bindHost = some host)
    (inside : rest <+: uShortToData port ++ payload) :
    Framing field host port (replyHeader ++ (field ++ rest)) reader.onReadServerBindPort := by
  obtain short | ⟨rest, rfl, -⟩ := Run.prefix_split inside
  · have idle : reader.onReadServerBindPort = reader := by
      rw [onReadServerBindPort, waiting.inBuffer]
      match rest, short with
      | [], _ | [_], _ => rfl
    rw [idle]
    exact .bindPort short waiting named
  · have taken : reader.onReadServerBindPort =
        onServerConnect { reader with inBuffer := rest, bindPort := port } := by
      rw [onReadServerBindPort, waiting.inBuffer]
      exact congrArg (fun p => onServerConnect { reader with inBuffer := rest, bindPort := p })
        (portToUint16_uShortToData small)
    rw [taken]
    refine .connected ⟨waiting.live, rfl, ?_, ?_⟩
    · simp only [onServerConnect, waiting.connected, named, List.nil_append]
    · simp only [onServerConnect, waiting.unread, List.append_nil]

/-- The field is printed without its first bytes. -/
theorem readBindHost_frames (skipped : Nat) (print : List Byte → Option CString) (small : port < 65536)
    (printed : print (field.drop skipped) = some host) (waiting : Waiting .onReadServerBindHost rest reader)
    (inside : rest <+: field ++ (uShortToData port ++ payload)) :
    Framing field host port (replyHeader ++ rest) (reader.readBindHost skipped field.length print) := by
  obtain short | ⟨rest, rfl, onward⟩ := Run.prefix_split inside
  · have idle : reader.readBindHost skipped field.length print = reader := by
      rw [readBindHost, waiting.inBuffer, if_neg (Nat.not_le.mpr short)]
    rw [idle]
    exact .bindHost short waiting
  · have enough : field.length ≤ (field ++ rest).length := by
      rw [List.length_append]
      exact Nat.le_add_right ..
    have next : Waiting .onReadServerBindPort rest { reader with
        inBuffer := rest, bindHost := some host, readCb := .onReadServerBindPort } :=
      ⟨waiting.live, waiting.reading, rfl, rfl, waiting.unread, waiting.connected⟩
    simp only [readBindHost, waiting.inBuffer, if_pos enough, List.take_left, List.drop_left, printed]
    exact onReadServerBindPort_frames small next rfl onward

/-- The callback reads this field as that host, whatever part of it has arrived. -/
def ReadsField (platform : Platform) (field : List Byte) (host : CString) (port : Nat)
    (payload : List Byte) : Prop :=
  ∀ rest reader, Waiting .onReadServerBindHost rest reader → rest <+: field ++ (uShortToData port ++ payload) →
    ∃ next, reader.onReadServerBindHost platform = some next ∧
      Framing field host port (replyHeader ++ rest) next

theorem readsField_boundHost (small : port < 65536) (printed : address.text platform = some host) :
    ReadsField platform (boundHost address) host port payload := by
  intro rest reader waiting inside
  cases arrived : rest with
  | nil =>
    refine ⟨reader, ?_, .bindHost (Nat.succ_pos _) (arrived ▸ waiting)⟩
    rw [onReadServerBindHost, waiting.inBuffer, arrived]
  | cons atype tail =>
    rw [← arrived]
    obtain ⟨rfl, -⟩ := List.cons_prefix_cons.mp (arrived ▸ inside)
    cases address with
    | inet address =>
      refine ⟨_, ?_, readBindHost_frames 1 (fun ip => some (inetNtoa ip)) small printed waiting inside⟩
      have width : (boundHost (.inet address)).length = 1 + ipv4Len := by
        rw [boundHost, List.length_cons, BoundAddress.bytes, address.property]
        rfl
      rw [onReadServerBindHost, waiting.inBuffer, arrived, width]
      rfl
    | inet6 address =>
      refine ⟨_, ?_, readBindHost_frames 1 platform.inetNtop small printed waiting inside⟩
      have width : (boundHost (.inet6 address)).length = 1 + ipv6Len := by
        rw [boundHost, List.length_cons, BoundAddress.bytes, address.property]
        rfl
      rw [onReadServerBindHost, waiting.inBuffer, arrived, width]
      rfl

theorem onReadServerConnect_frames (reads : ReadsField platform field host port payload)
    (waiting : Waiting .onReadServerConnect arrived reader)
    (inside : arrived <+: replyHeader ++ (field ++ (uShortToData port ++ payload))) :
    ∃ next, reader.onReadServerConnect platform = some next ∧ Framing field host port arrived next := by
  obtain short | ⟨rest, rfl, onward⟩ := Run.prefix_split inside
  · refine ⟨reader, ?_, .header short waiting⟩
    rw [onReadServerConnect, waiting.inBuffer]
    match arrived, short with
    | [], _ | [_], _ | [_, _], _ => rfl
  · have bound : Waiting .onReadServerBindHost rest { reader with
        inBuffer := rest, readCb := .onReadServerBindHost } :=
      ⟨waiting.live, waiting.reading, rfl, rfl, waiting.unread, waiting.connected⟩
    obtain ⟨next, taken, framing⟩ := reads _ _ bound onward
    refine ⟨next, ?_, framing⟩
    rw [onReadServerConnect, waiting.inBuffer, ← taken]
    rfl

theorem Waiting.arrive {cb : ReplyCallback} {kept : List Byte} (waiting : Waiting cb kept reader)
    (segment : List Byte) : Waiting cb (kept ++ segment) (reader.arrive segment) :=
  ⟨waiting.live, waiting.reading, waiting.readCb, by rw [ReplyReader.arrive, waiting.inBuffer], waiting.unread,
    waiting.connected⟩

theorem Waiting.step {cb : ReplyCallback} {kept : List Byte} (waiting : Waiting cb kept reader)
    (segment : List Byte) :
    step platform reader segment = (callRead platform (reader.arrive segment)).map (·, ()) := by
  rw [ReplyReader.step, if_pos waiting.live, if_pos waiting.reading]

/-- One more piece of the stream. -/
theorem step_frames {segment sofar : List Byte} (small : port < 65536)
    (reads : ReadsField platform field host port payload) (framing : Framing field host port sofar reader)
    (inside : sofar ++ segment <+: replyHeader ++ (field ++ (uShortToData port ++ payload))) :
    ∃ next out, step platform reader segment = some (next, out) ∧
      Framing field host port (sofar ++ segment) next := by
  cases framing with
  | header short waiting =>
    obtain ⟨next, taken, framing⟩ := onReadServerConnect_frames reads (waiting.arrive segment) inside
    refine ⟨next, (), ?_, framing⟩
    rw [waiting.step, callRead, (waiting.arrive segment).readCb, taken]
    rfl
  | bindHost short waiting =>
    rw [List.append_assoc] at inside ⊢
    obtain ⟨next, taken, framing⟩ := reads _ _ (waiting.arrive segment)
      ((List.prefix_append_right_inj _).mp inside)
    refine ⟨next, (), ?_, framing⟩
    rw [waiting.step, callRead, (waiting.arrive segment).readCb, taken]
    rfl
  | bindPort short waiting named =>
    rw [List.append_assoc, List.append_assoc] at inside ⊢
    have bound := (List.prefix_append_right_inj _).mp ((List.prefix_append_right_inj _).mp inside)
    refine ⟨_, (), ?_, onReadServerBindPort_frames small (waiting.arrive segment) named bound⟩
    rw [waiting.step, callRead, (waiting.arrive segment).readCb]
    rfl
  | connected done =>
    simp only [List.append_assoc]
    refine ⟨{ reader with unread := reader.unread ++ segment }, (), ?_,
      .connected ⟨done.live, done.reading, done.connected, ?_⟩⟩
    · simp only [ReplyReader.step, done.live, done.reading, if_true]
      rfl
    · rw [← done.kept, List.append_assoc]

/-- Any pieces of the stream, from the beginning. -/
theorem run_frames (small : port < 65536) (reads : ReadsField platform field host port payload)
    (segments : List (List Byte))
    (inside : segments.flatten <+: replyHeader ++ (field ++ (uShortToData port ++ payload))) :
    ∃ last outs, Run.run (step platform) start segments = some (last, outs) ∧
      Framing field host port segments.flatten last := by
  have initial : Framing field host port [] start := .header (by decide) ⟨rfl, rfl, rfl, rfl, rfl, rfl⟩
  rw [← List.flatMap_id, ← List.nil_append (segments.flatMap id)] at inside ⊢
  exact Run.run_feeds id (fun framing (_ : True) inside => step_frames small reads framing inside) segments initial
    (fun _ _ => trivial) inside

theorem Framing.whole {payload : List Byte} (framing : Framing field host port
    (replyHeader ++ (field ++ (uShortToData port ++ payload))) reader) : Connected host port payload reader := by
  generalize arrived : replyHeader ++ (field ++ (uShortToData port ++ payload)) = stream at framing
  cases framing with
  | header short =>
    rw [← arrived, List.length_append] at short
    omega
  | bindHost short =>
    rw [← List.append_cancel_left arrived, List.length_append] at short
    omega
  | bindPort short =>
    rw [← List.append_cancel_left (List.append_cancel_left arrived), List.length_append] at short
    omega
  | connected done =>
    rw [List.append_cancel_left (List.append_cancel_left (List.append_cancel_left arrived))]
    exact done

end ReplyReader

/-- What `read_address` leaves at the front of `reply_data` for a CONNECT. -/
theorem startConnect_replyData (platform : Platform) (host : CString) (port : Nat) {server : Server}
    (connect : server.context.connectHeader[1]? = some cmdConnect) :
    (startConnect platform host port server).context.replyData = ReplyReader.replyHeader := by
  have resp : getResp (server.context.connectHeader[1]?.getD 0) = replySucceeded := by
    rw [connect]
    decide
  simp only [startConnect, resp, if_true]
  repeat' split
  all_goals rfl

/-- The client hears the address and the port that the server bound, once, and what the
server sends behind the reply is not touched. -/
theorem reply_decoded (platform : Platform)
    (prints : ∀ ip : List Byte, ip.length = ipv6Len → platform.inetNtop ip ≠ none)
    (remoteHost : CString) (remotePort : Nat) (server : Server)
    (connect : server.context.connectHeader[1]? = some cmdConnect)
    (address : BoundAddress) (port : Nat) (sixteen : port < 65536) (payload : List Byte) :
    ∃ reply text, sendClientAuthResponse (startConnect platform remoteHost remotePort server).context.replyData
        address port = .ok reply ∧ reply.length = connHeaderLen + address.bytes.length + portLen ∧
      address.text platform = some text ∧
      ∀ segments : List (List Byte), segments.flatten = reply ++ payload →
        ∃ last outs, Run.run (ReplyReader.step platform) ReplyReader.start segments = some (last, outs) ∧
          last.connected = [(some text, port)] ∧ last.inBuffer ++ last.unread = payload := by
  have printed : ∃ text, address.text platform = some text := by
    cases address with
    | inet address => exact ⟨_, rfl⟩
    | inet6 address => exact Option.ne_none_iff_exists'.mp (prints address.val address.property)
  obtain ⟨text, printed⟩ := printed
  have front := startConnect_replyData platform remoteHost remotePort connect
  refine ⟨_, text, sendClientAuthResponse_eq (by rw [front]; rfl) address port, ?_, printed, ?_⟩
  · simp only [front, ReplyReader.replyHeader, uShortToData, List.length_append, List.length_cons,
      List.length_nil, connHeaderLen, portLen]
    omega
  · intro segments whole
    have stream : segments.flatten = ReplyReader.replyHeader ++
        (ReplyReader.boundHost address ++ (uShortToData port ++ payload)) := by
      rw [whole, front, ReplyReader.boundHost]
      simp only [List.append_assoc, List.cons_append]
    obtain ⟨last, outs, path, framing⟩ := ReplyReader.run_frames sixteen
      (ReplyReader.readsField_boundHost sixteen printed) segments ⟨[], by rw [List.append_nil, stream]⟩
    rw [stream] at framing
    exact ⟨last, outs, path, framing.whole.connected, framing.whole.kept⟩

/-- `inet_ntop` prints ::1. -/
def loopback : Platform := ⟨fun _ => some ⟨[58, 58, 49], by decide⟩, none, fun _ _ => true⟩

/-- The server is bound to ::1, port 4660, and sends two bytes behind its reply. -/
theorem loopback_reply_decoded : ∃ reply text,
    sendClientAuthResponse (startConnect loopback ⟨[97], by decide⟩ 80 ⟨⟨0, 0, none, 0, [5, 1, 0, 3],
        [0, 0, 0], false⟩, [], .readAddress, true, []⟩).context.replyData
      (.inet6 ⟨[0, 0, 0, 0, 0, 0, 0, 0, 0, 0, 0, 0, 0, 0, 0, 1], rfl⟩) 4660 = .ok reply ∧ reply.length = 22 ∧
      some ⟨[58, 58, 49], by decide⟩ = some text ∧
      ∀ segments : List (List Byte), segments.flatten = reply ++ [71, 69] →
        ∃ last outs, Run.run (ReplyReader.step loopback) ReplyReader.start segments = some (last, outs) ∧
          last.connected = [(some text, 4660)] ∧ last.inBuffer ++ last.unread = [71, 69] :=
  reply_decoded loopback (fun _ _ absent => by cases absent) ⟨[97], by decide⟩ 80 _ rfl
    (.inet6 ⟨[0, 0, 0, 0, 0, 0, 0, 0, 0, 0, 0, 0, 0, 0, 0, 1], rfl⟩) 4660 (by decide) [71, 69]

namespace ReplyReader

variable {platform : Platform} {client : Client} {reader : ReplyReader}

def stage (reader : ReplyReader) : Stage :=
  match reader.readCb with
  | .onReadServerConnect => .handshake
  | .onReadServerBindHost => .bindHost
  | .onReadServerBindPort => .bindPort

def view (client : Client) (reader : ReplyReader) : Upstream :=
  ⟨{ client with inBuffer := reader.inBuffer, readCb := .onReadServerConnect }, reader.stage⟩

/-- The verdict on a call, and the state it leaves where the context is still there. -/
def Agrees (client : Client) (reader : ReplyReader) : Option (Upstream × Verdict) → Option ReplyReader → Prop
  | none, none => True
  | some (upstream, .returns), some next =>
    upstream = next.view client ∧ next.live = reader.live ∧ next.connected = reader.connected
  | some (upstream, .connects), some next =>
    upstream = next.view client ∧ next.live = reader.live ∧
      next.connected = reader.connected ++ [(next.bindHost, next.bindPort)]
  | some (_, .fails), some next => next.live = false ∧ next.connected = reader.connected
  | _, _ => False

theorem onReadServerBindPort_agrees (client : Client) (reader : ReplyReader)
    (readCb : reader.readCb = .onReadServerBindPort) :
    Agrees client reader (some (reader.view client).onReadServerBindPort) (some reader.onReadServerBindPort) := by
  obtain ⟨inBuffer, unread, cb, bindHost, bindPort, reading, live, connected⟩ := reader
  cases readCb
  match inBuffer with
  | _ :: _ :: _ => exact ⟨rfl, rfl, rfl⟩
  | [_] => exact ⟨rfl, rfl, rfl⟩
  | [] => exact ⟨rfl, rfl, rfl⟩

theorem readBindHost_agrees (skipped len : Nat) {print : List Byte → Option CString}
    (prints : ∀ address, print address ≠ none) :
    Agrees client reader (some ((reader.view client).readBound len))
      (some (reader.readBindHost skipped len print)) := by
  obtain ⟨host, printed⟩ := Option.ne_none_iff_exists'.mp (prints ((reader.inBuffer.take len).drop skipped))
  by_cases enough : len ≤ reader.inBuffer.length
  · have bound : (reader.view client).readBound len =
        ((reader.view client).proceed (reader.inBuffer.drop len) .bindPort).onReadServerBindPort := if_pos enough
    simp only [bound, readBindHost, if_pos enough, printed]
    exact onReadServerBindPort_agrees client { reader with
      inBuffer := reader.inBuffer.drop len, bindHost := some host, readCb := .onReadServerBindPort } rfl
  · have waits : (reader.view client).readBound len = (reader.view client, .returns) := if_neg enough
    rw [waits, readBindHost, if_neg enough]
    exact ⟨rfl, rfl, rfl⟩

theorem onReadServerBindHost_agrees (prints : ∀ ip, platform.inetNtop ip ≠ none) (client : Client)
    (reader : ReplyReader) :
    Agrees client reader (reader.view client).onReadServerBindHost (reader.onReadServerBindHost platform) := by
  have viewed : (reader.view client).client.inBuffer = reader.inBuffer := rfl
  rw [Upstream.onReadServerBindHost, onReadServerBindHost, viewed]
  match reader.inBuffer with
  | [] => exact ⟨rfl, rfl, rfl⟩
  | atype :: rest =>
    simp only
    split
    · exact readBindHost_agrees 1 _ fun _ absent => by cases absent
    · split
      · exact readBindHost_agrees 1 _ prints
      · split
        · match rest with
          | [] => exact ⟨rfl, rfl, rfl⟩
          | len :: _ =>
            simp only
            split
            · exact readBindHost_agrees 2 _ fun _ absent => by cases absent
            · trivial
        · exact ⟨rfl, rfl⟩

theorem onReadServerConnect_agrees (prints : ∀ ip, platform.inetNtop ip ≠ none) (client : Client)
    (reader : ReplyReader) :
    Agrees client reader (reader.view client).onReadServerConnect (reader.onReadServerConnect platform) := by
  have viewed : (reader.view client).client.inBuffer = reader.inBuffer := rfl
  rw [Upstream.onReadServerConnect, onReadServerConnect, viewed]
  match reader.inBuffer with
  | [] | [_] | [_, _] => exact ⟨rfl, rfl, rfl⟩
  | version :: reply :: reserved :: rest =>
    simp only
    split
    · exact ⟨rfl, rfl⟩
    · split
      · exact ⟨rfl, rfl⟩
      · exact onReadServerBindHost_agrees prints client { reader with
          inBuffer := rest, readCb := .onReadServerBindHost }

theorem callRead_agrees (prints : ∀ ip, platform.inetNtop ip ≠ none) (client : Client) (reader : ReplyReader) :
    Agrees client reader (reader.view client).handle (reader.callRead platform) := by
  cases readCb : reader.readCb with
  | onReadServerConnect =>
    have handled : (reader.view client).handle = (reader.view client).onReadServerConnect := by
      simp only [Upstream.handle, view, stage, readCb]
    rw [handled, callRead, readCb]
    exact onReadServerConnect_agrees prints client reader
  | onReadServerBindHost =>
    have handled : (reader.view client).handle = (reader.view client).onReadServerBindHost := by
      simp only [Upstream.handle, view, stage, readCb]
    rw [handled, callRead, readCb]
    exact onReadServerBindHost_agrees prints client reader
  | onReadServerBindPort =>
    have handled : (reader.view client).handle = some (reader.view client).onReadServerBindPort := by
      simp only [Upstream.handle, view, stage, readCb]
    rw [handled, callRead, readCb]
    exact onReadServerBindPort_agrees client reader readCb

end ReplyReader

end Devent.Docks
