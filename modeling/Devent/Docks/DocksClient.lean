import Devent.Docks.Client
import Mathlib.Logic.Function.Basic

/-! A request through docks_client.c, from `connect_remote` to `on_connect`: the event of the
local client with its ServerContext, and the event of the docks server with its
ClientContext, then RemoteContext. Every use of an event or a context is noted. The local
client sends nothing behind its request. -/
namespace Devent.Docks

inductive Held where
  | localEvent
  | upstreamEvent
  | serverContext
  | clientContext
  | remoteContext
  deriving DecidableEq

inductive LocalEventCb where
  | serverEventCb
  | serverEvent
  deriving DecidableEq

inductive UpstreamEventCb where
  | onConnectToServer
  | remoteEvent
  deriving DecidableEq

/-- The read callback of the upstream event: none yet, that of the client, or one of the two
that read the bound address. -/
inductive Stage where
  | connecting
  | handshake
  | bindHost
  | bindPort
  deriving DecidableEq

structure Upstream where
  client : Client
  stage : Stage

/-- What a read callback comes to: it returns, frees its event and context, or calls
`on_connect`. -/
inductive Verdict where
  | returns
  | fails
  | connects
  deriving DecidableEq

/-- The message of `docks_write_methods`. -/
def writeMethods (client : Client) : Client :=
  let empty := client.config.username.all fun username => username.strlen = 0
  let client := if empty then client.write [socks5Version, 1, methodNoAuthenticationRequired]
    else client.write [socks5Version, 2, methodNoAuthenticationRequired, methodUsernamePassword]
  { client with readCb := .onReadNegotication }

namespace Upstream

def proceed (upstream : Upstream) (rest : List Byte) (stage : Stage) : Upstream :=
  ⟨{ upstream.client with inBuffer := rest }, stage⟩

def onReadServerBindPort (upstream : Upstream) : Upstream × Verdict :=
  match upstream.client.inBuffer with
  | _ :: _ :: rest => (upstream.proceed rest .bindPort, .connects)
  | _ => (upstream, .returns)

/-- An address of that length is read, and the port behind it. -/
def readBound (upstream : Upstream) (len : Nat) : Upstream × Verdict :=
  if len ≤ upstream.client.inBuffer.length then
    onReadServerBindPort (upstream.proceed (upstream.client.inBuffer.drop len) .bindPort)
  else (upstream, .returns)

/-- The length of a domain sizes an array as a plain `char`. -/
def onReadServerBindHost (upstream : Upstream) : Option (Upstream × Verdict) :=
  match upstream.client.inBuffer with
  | [] => some (upstream, .returns)
  | atype :: rest =>
    if atype = atypeIpv4 then some (upstream.readBound (1 + ipv4Len))
    else if atype = atypeIpv6 then some (upstream.readBound (1 + ipv6Len))
    else if atype = atypeDomainname then
      match rest with
      | [] => some (upstream, .returns)
      | len :: _ => if 0 ≤ signedChar len then some (upstream.readBound (2 + len.toNat)) else none
    else some (upstream, .fails)

def onReadServerConnect (upstream : Upstream) : Option (Upstream × Verdict) :=
  match upstream.client.inBuffer with
  | version :: reply :: reserved :: rest =>
    if version ≠ socks5Version ∨ reserved ≠ 0x00 then some (upstream, .fails)
    else if reply ≠ replySucceeded then some (upstream, .fails)
    else onReadServerBindHost (upstream.proceed rest .bindHost)
  | _ => some (upstream, .returns)

/-- What the read callback does with the in-buffer. -/
def handle (upstream : Upstream) : Option (Upstream × Verdict) :=
  match upstream.stage with
  | .connecting => some (upstream, .returns)
  | .handshake =>
    match upstream.client.readCb with
    | .onReadNegotication =>
        (onReadNegotication upstream.client).map fun client => (⟨client, .handshake⟩, .returns)
    | .onReadUP => (onReadUP upstream.client).map fun client => (⟨client, .handshake⟩, .returns)
    | .onReadServerConnect => upstream.onReadServerConnect
  | .bindHost => upstream.onReadServerBindHost
  | .bindPort => some upstream.onReadServerBindPort

end Upstream

/-- What `DocketEvent_fetch_local_address` gives. -/
inductive LocalAddress where
  | unavailable
  | unknownFamily
  | known

/-- The answers `on_connect` meets: the bound address, and whether the reply to the local
client fails to be sent. -/
structure ConnectAnswers where
  address : LocalAddress
  sendFails : Bool

structure DocksClient where
  upstream : Upstream
  localCb : LocalEventCb
  upstreamCb : UpstreamEventCb
  live : Held → Bool
  uses : List (Held × Bool)

namespace DocksClient

def use (docks : DocksClient) (held : Held) : DocksClient :=
  { docks with uses := docks.uses ++ [(held, docks.live held)] }

/-- Freeing uses what it frees. -/
def release (docks : DocksClient) (held : Held) : DocksClient :=
  { docks.use held with live := Function.update docks.live held false }

def allocate (docks : DocksClient) (held : Held) : DocksClient :=
  { docks with live := Function.update docks.live held true }

def remoteEvent (docks : DocksClient) : DocksClient :=
  let docks := ((docks.use .remoteContext).release .upstreamEvent).release .remoteContext
  ((docks.use .serverContext).release .localEvent).release .serverContext

def serverEvent (docks : DocksClient) : DocksClient :=
  let docks := ((docks.use .serverContext).release .localEvent).release .serverContext
  ((docks.use .remoteContext).release .upstreamEvent).release .remoteContext

/-- `on_connect_to_server` with DEVENT_ERROR or DEVENT_EOF. -/
def onConnectToServerEnd (docks : DocksClient) : DocksClient := docks.release .upstreamEvent

/-- `server_event_cb`, which is left to a TODO. -/
def serverEventCb (docks : DocksClient) : DocksClient := docks

/-- `devent_close_internal` of the upstream event. -/
def closeUpstream (docks : DocksClient) : DocksClient :=
  let docks := docks.use .upstreamEvent
  let docks := match docks.upstreamCb with
    | .onConnectToServer => docks.onConnectToServerEnd
    | .remoteEvent => docks.remoteEvent
  if docks.live .upstreamEvent then docks.release .upstreamEvent else docks

/-- `devent_close_internal` of the local event. -/
def closeLocal (docks : DocksClient) : DocksClient :=
  let docks := docks.use .localEvent
  let docks := match docks.localCb with
    | .serverEventCb => docks.serverEventCb
    | .serverEvent => docks.serverEvent
  if docks.live .localEvent then docks.release .localEvent else docks

def sendClientAuthResponse (docks : DocksClient) (answers : ConnectAnswers) : DocksClient :=
  let docks := ((docks.use .remoteContext).use .serverContext).use .upstreamEvent
  match answers.address with
  | .unavailable =>
    (((docks.release .upstreamEvent).release .remoteContext).release .localEvent).release .serverContext
  | .unknownFamily => docks
  | .known =>
    let docks := (docks.use .localEvent).use .localEvent
    if answers.sendFails then docks.closeLocal else docks

def docksOnRemoteConnect (docks : DocksClient) (answers : ConnectAnswers) : DocksClient :=
  (docks.use .upstreamEvent).sendClientAuthResponse answers

/-- `on_connect`. -/
def onConnect (docks : DocksClient) (answers : ConnectAnswers) : DocksClient :=
  let docks := (docks.use .clientContext).release .clientContext
  let docks := (docks.allocate .remoteContext).use .serverContext
  let docks := { docks.use .upstreamEvent with upstreamCb := .remoteEvent }
  let docks := { docks.use .localEvent with localCb := .serverEvent }
  docks.docksOnRemoteConnect answers

/-- The call of the upstream read callback. -/
def callRead (docks : DocksClient) (answers : ConnectAnswers) : Option DocksClient :=
  if docks.upstream.stage = .connecting then some docks
  else do
    let docks := (docks.use .upstreamEvent).use .clientContext
    let (upstream, verdict) ← docks.upstream.handle
    let docks := { docks with upstream := upstream }
    match verdict with
    | .returns => return docks
    | .fails => return (docks.release .upstreamEvent).release .clientContext
    | .connects => return docks.onConnect answers

/-- `on_connect_to_server` with DEVENT_CONNECT; a send in `docks_write_methods` may fail. -/
def onConnectToServer (docks : DocksClient) (sendFails : Bool) : DocksClient :=
  let docks := (docks.use .clientContext).use .upstreamEvent
  let docks := if sendFails then docks.closeUpstream else docks
  { (docks.use .upstreamEvent).use .upstreamEvent with
    upstream := ⟨writeMethods docks.upstream.client, .handshake⟩ }

/-- Behind `connect_remote`. -/
def connectRemote (config : ClientConfig) (remoteHost : CString) (remotePort : Nat) : DocksClient where
  upstream := ⟨⟨config, remoteHost, remotePort, [], [], .onReadNegotication⟩, .connecting⟩
  localCb := .serverEventCb
  upstreamCb := .onConnectToServer
  live := fun held => held ≠ .remoteContext
  uses := []

end DocksClient

/-- What the loop hands the two events; `connectFailed` comes from dns.c. -/
inductive DocksInput where
  | connected (sendFails : Bool)
  | connectFailed
  | data (bytes : List Byte) (answers : ConnectAnswers)
  | upstreamEnd (answers : ConnectAnswers)
  | localEnd

namespace DocksClient

/-- `on_connect` was called; it also disables the reading. -/
def served (docks : DocksClient) : Bool := docks.upstreamCb = .remoteEvent

def received (docks : DocksClient) (bytes : List Byte) : DocksClient :=
  { docks with upstream := { docks.upstream with
    client := { docks.upstream.client with inBuffer := docks.upstream.client.inBuffer ++ bytes } } }

/-- The end of the upstream, behind its final read callback. -/
def upstreamEnd (docks : DocksClient) (answers : ConnectAnswers) : Option DocksClient := do
  let docks ←
    if docks.served = false ∧ docks.upstream.client.inBuffer ≠ [] then docks.callRead answers else some docks
  return if docks.live .upstreamEvent then docks.closeUpstream else docks

def step (docks : DocksClient) : DocksInput → Option (DocksClient × Unit)
  | .connected sendFails =>
    if docks.live .upstreamEvent ∧ docks.served = false ∧ docks.upstream.stage = .connecting then
      some (docks.onConnectToServer sendFails, ())
    else none
  | .connectFailed =>
    if docks.live .upstreamEvent ∧ docks.served = false ∧ docks.upstream.stage = .connecting then
      some (docks.onConnectToServerEnd, ())
    else none
  | .data bytes answers =>
    if docks.live .upstreamEvent ∧ docks.served = false then
      ((docks.received bytes).callRead answers).map (·, ())
    else none
  | .upstreamEnd answers =>
    if docks.live .upstreamEvent then (docks.upstreamEnd answers).map (·, ()) else none
  | .localEnd => if docks.live .localEvent then some (docks.closeLocal, ()) else none

end DocksClient

end Devent.Docks
