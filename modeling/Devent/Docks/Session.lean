import Devent.Docks.Reply
import Devent.Docks.Agreement
import Devent.Library.Pipe

/-! A whole session of docks_client with docks_server: the two handshakes of method.c,
auth.c and docks_connect.c over a connection that cuts both streams anywhere. The ends
only meet through the bytes in flight. What an end has written is in flight once its read
event is over, and stays so until the peer reads it: no send is short. -/
namespace Devent.Docks

def Effect.written : Effect → List Byte
  | .write bytes => bytes
  | _ => []

def Effect.connected : Effect → Option (CString × Nat)
  | .connect host port => some (host, port)
  | _ => none

def Effect.relayed : Effect → List Byte
  | .relay bytes => bytes
  | _ => []

/-- What `docket_server_read` has handed to the remote event. -/
def Server.relayed (server : Server) : List Byte := server.log.flatMap Effect.relayed

/-- The event that `docks_on_socks_connect` is called for, the address its remote event is
bound to once that is connected, the out-buffer, and what the remote has sent. -/
structure ServerEnd where
  server : Server
  bound : Option (BoundAddress × Nat)
  outBuffer : List Byte
  downloaded : List Byte

namespace ServerEnd

def start : ServerEnd := ⟨Server.start, none, [], []⟩

def withServer (peer : ServerEnd) (server : Server) : ServerEnd := { peer with server := server }

/-- A read event; an event that its callback frees sends nothing. -/
def hear (platform : Platform) (config : ServerConfig) (stack : Nat → Byte) (bytes : List Byte)
    (peer : ServerEnd) : Option (ServerEnd × List Byte) := do
  let (next, ()) ← Docks.step platform config peer.server (.segment bytes stack)
  let answer := (next.log.drop peer.server.log.length).flatMap Effect.written
  return (peer.withServer next, if next.live then answer else [])

/-- `on_remote_connect`, which leaves the reply in the out-buffer. -/
def remoteConnects (address : BoundAddress) (port : Nat) (peer : ServerEnd) : Option ServerEnd :=
  if peer.server.live ∧ peer.server.connects ≠ [] ∧ peer.bound.isNone ∧ port < 65536 then
    match sendClientAuthResponse peer.server.context.replyData address port with
    | .ok reply => some { peer with bound := some (address, port), outBuffer := reply }
    | .error _ => none
  else none

/-- The remote event fails or is closed, and the event goes with it. -/
def remoteEnds (peer : ServerEnd) : Option ServerEnd :=
  if peer.server.live ∧ peer.server.connects ≠ [] then some { peer.withServer peer.server.free with outBuffer := [] }
  else none

/-- The out-buffer is sent, and `on_connected_write` starts the relay. -/
def replyFlushed (platform : Platform) (config : ServerConfig) (peer : ServerEnd) :
    Option (ServerEnd × List Byte) := do
  if peer.bound.isNone ∨ peer.server.readCb = .serverRead then none
  else
    let (next, ()) ← Docks.step platform config peer.server .connected
    return ({ peer.withServer next with outBuffer := [] }, peer.outBuffer)

/-- `docket_remote_read`. -/
def downloads (bytes : List Byte) (peer : ServerEnd) : Option (ServerEnd × List Byte) :=
  if peer.server.live ∧ peer.server.readCb = .serverRead then
    some ({ peer with downloaded := peer.downloaded ++ bytes }, bytes)
  else none

/-- The end of the stream, with its final read callback. -/
def ends (platform : Platform) (config : ServerConfig) (stack : Nat → Byte) (peer : ServerEnd) :
    Option ServerEnd := do
  let (next, ()) ← Docks.step platform config peer.server (.finish stack)
  return { peer.withServer next with outBuffer := [] }

end ServerEnd

def Client.arrive (client : Client) (bytes : List Byte) : Client :=
  { client with inBuffer := client.inBuffer ++ bytes }

/-- The event of `connect_remote`: the client until its request is sent, and the reader of
the reply from then on. -/
structure ClientEnd where
  client : Client
  reader : ReplyReader
  opened : Bool
  uploaded : List Byte

namespace ClientEnd

/-- Behind the callback the out-buffer is sent; the reader goes on with the same in-buffer. -/
def flush (client : Client) (peer : ClientEnd) : ClientEnd × List Byte :=
  ({ peer with
      client := { client with outBuffer := [] }
      reader := { peer.reader with inBuffer := client.inBuffer } }, client.outBuffer)

/-- A read event. -/
def hear (platform : Platform) (bytes : List Byte) (peer : ClientEnd) : Option (ClientEnd × List Byte) :=
  if peer.opened then
    match peer.client.readCb with
    | .onReadNegotication => (onReadNegotication (peer.client.arrive bytes)).map (flush · peer)
    | .onReadUP => (onReadUP (peer.client.arrive bytes)).map (flush · peer)
    | .onReadServerConnect =>
      (peer.reader.step platform bytes).map fun next => ({ peer with reader := next.1 }, [])
  else none

/-- The relay behind `on_connect` sends what the local event has read. -/
def uploads (bytes : List Byte) (peer : ClientEnd) : Option (ClientEnd × List Byte) :=
  if peer.opened ∧ peer.reader.connected ≠ [] then
    some ({ peer with uploaded := peer.uploaded ++ bytes }, bytes)
  else none

/-- The event is freed. -/
def ends (peer : ClientEnd) : Option ClientEnd :=
  if peer.opened then some { peer with opened := false } else none

end ClientEnd

/-- What both ends are configured with, and the destination the client is asked for. -/
structure Deployment where
  platform : Platform
  accounts : ServerConfig
  credentials : ClientConfig
  host : CString
  port : Nat

structure Session where
  server : ServerEnd
  client : ClientEnd
  up : Pipe Byte
  down : Pipe Byte

/-- The events of both loops, in any order. A read event brings a number of bytes in flight. -/
inductive SessionOp where
  | serverReads (n : Nat) (stack : Nat → Byte)
  | clientReads (n : Nat)
  | remoteConnects (address : BoundAddress) (port : Nat)
  | replyFlushed
  | uploads (bytes : List Byte)
  | downloads (bytes : List Byte)
  | remoteEnds
  | serverEnds (stack : Nat → Byte)
  | clientEnds

namespace Deployment

/-- The client between two read events. -/
def client (deployment : Deployment) (inBuffer : List Byte) (readCb : ClientCallback) : Client :=
  ⟨deployment.credentials, deployment.host, deployment.port, inBuffer, [], readCb⟩

/-- `docks_write_methods`, once the client is connected. -/
def greets (deployment : Deployment) : Client := writeMethods (deployment.client [] .onReadNegotication)

def methods (deployment : Deployment) : List Byte := deployment.greets.outBuffer

/-- The methods are in flight. -/
def start (deployment : Deployment) : Session where
  server := ServerEnd.start
  client := ⟨{ deployment.greets with outBuffer := [] }, ReplyReader.start, true, []⟩
  up := Pipe.empty.write deployment.methods
  down := Pipe.empty

def step (deployment : Deployment) (session : Session) : SessionOp → Option (Session × Unit)
  | .serverReads n stack =>
    if 0 < n ∧ n ≤ session.up.flight.length then
      (session.server.hear deployment.platform deployment.accounts stack (session.up.flight.take n)).map
        fun (server, bytes) =>
          ({ session with server := server, up := session.up.advance n, down := session.down.write bytes }, ())
    else none
  | .clientReads n =>
    if 0 < n ∧ n ≤ session.down.flight.length then
      (session.client.hear deployment.platform (session.down.flight.take n)).map fun (client, bytes) =>
        ({ session with client := client, down := session.down.advance n, up := session.up.write bytes }, ())
    else none
  | .remoteConnects address port =>
    (session.server.remoteConnects address port).map fun server => ({ session with server := server }, ())
  | .replyFlushed =>
    (session.server.replyFlushed deployment.platform deployment.accounts).map fun (server, bytes) =>
      ({ session with server := server, down := session.down.write bytes }, ())
  | .uploads bytes =>
    (session.client.uploads bytes).map fun (client, bytes) =>
      ({ session with client := client, up := session.up.write bytes }, ())
  | .downloads bytes =>
    (session.server.downloads bytes).map fun (server, bytes) =>
      ({ session with server := server, down := session.down.write bytes }, ())
  | .remoteEnds => session.server.remoteEnds.map fun server => ({ session with server := server }, ())
  | .serverEnds stack =>
    (session.server.ends deployment.platform deployment.accounts stack).map fun server =>
      ({ session with server := server }, ())
  | .clientEnds => session.client.ends.map fun client => ({ session with client := client }, ())

end Deployment

end Devent.Docks
