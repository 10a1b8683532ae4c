import Devent.Event.DocketEvent
import Mathlib.Logic.Function.Basic

/-! Connecting to a host by its name: connect.c, dns.c and what `kqueue_loop` tells of the
connection. A script holds what the system calls and the parser of the response return; the
callbacks leave the event alone. -/
namespace Devent

/-- A call of an event callback: whether `what` has DEVENT_CONNECT and DEVENT_ERROR. -/
structure Notice where
  event : Nat
  connect : Bool
  error : Bool
  deriving DecidableEq

/-- An event, as far as connecting goes. -/
structure Peer where
  fd : Int
  connected : Bool
  eventCb : Bool
  live : Bool

/-- The tables of the docket, a DNS event standing for the event it looks up, and what the
kernel knows of the descriptors. -/
structure DnsDocket where
  heap : Nat → Peer
  next : Nat
  events : Int → Option Nat
  dnsEvents : Int → Option Nat
  openFds : Int → Bool
  filters : Int → Bool
  notices : List Notice

/-- What one `devent_dns_write` meets. -/
inductive Query where
  | unpackable
  | serverMissing
  | unsent
  | sent

/-- `connect`, and what becomes of a connection in progress. -/
inductive Connection where
  | established
  | inProgress (succeeds : Bool)
  | refused
  deriving DecidableEq

/-- The results in `devent_dns_read` and under it; `newFd` is the socket of `new_fd`. -/
structure Lookup where
  size : Int
  parsed : Bool
  firstIp : Bool
  socket : Option Int
  newFd : Option Int
  nonblocking : Bool
  connection : Connection
  registered : Bool

/-- A turn of `kqueue_loop` for the descriptor; a read stops on its last result. -/
inductive Turn where
  | readable (last : ReadResult)
  | writable

structure Attempt where
  dnsFd : Int
  queries : List Query
  lookup : Lookup
  turns : List Turn

namespace DnsDocket

def findEvent (docket : DnsDocket) (fd : Int) : Option Nat := docket.events fd

def store (docket : DnsDocket) (id : Nat) (peer : Peer) : DnsDocket :=
  { docket with heap := Function.update docket.heap id peer }

/-- `DocketEvent_new`. -/
def newEvent (docket : DnsDocket) (peer : Peer) : DnsDocket :=
  { docket.store docket.next peer with next := docket.next + 1 }

/-- `Docket_add_event`, under whatever descriptor the event has. -/
def addEvent (docket : DnsDocket) (id : Nat) : DnsDocket :=
  { docket with events := Function.update docket.events (docket.heap id).fd (some id) }

/-- The kernel hands out a descriptor that is not open, or none. -/
def opens (docket : DnsDocket) : Option Int → Option DnsDocket
  | none => some docket
  | some fd =>
    if 0 ≤ fd ∧ docket.openFds fd = false then
      some { docket with openFds := Function.update docket.openFds fd true }
    else none

/-- The kernel's part of `close`. -/
def close (docket : DnsDocket) (fd : Int) : DnsDocket :=
  { docket with
    openFds := Function.update docket.openFds fd false
    filters := Function.update docket.filters fd false }

def watch (docket : DnsDocket) (fd : Int) : DnsDocket :=
  { docket with filters := Function.update docket.filters fd true }

/-- The call of the event callback, where it is set. -/
def notify (docket : DnsDocket) (id : Nat) (connect error : Bool) : DnsDocket :=
  if (docket.heap id).eventCb then { docket with notices := docket.notices ++ [⟨id, connect, error⟩] }
  else docket

/-- `DocketDnsEvent_free`. -/
def freeDnsEvent (docket : DnsDocket) (dnsFd : Int) : DnsDocket :=
  if dnsFd ≠ 0 then { docket with dnsEvents := Function.update docket.dnsEvents dnsFd none }.close dnsFd
  else docket

/-- `DocketEvent_free`. -/
def freeEvent (docket : DnsDocket) (id : Nat) : DnsDocket :=
  let peer := docket.heap id
  if 0 < peer.fd then
    ({ docket with events := Function.update docket.events peer.fd none }.close peer.fd).store id
      { peer with fd := 0, live := false }
  else docket.store id { peer with live := false }

/-- `devent_close_internal` with DEVENT_READ_EOF. -/
def closeInternal (docket : DnsDocket) (id : Nat) : DnsDocket :=
  let fd := (docket.heap id).fd
  let docket := docket.notify id false false
  match docket.findEvent fd with
  | none => docket
  | some found => docket.freeEvent found

/-- The branches of dns.c that give up. -/
def failLookup (docket : DnsDocket) (dnsFd : Int) (id : Nat) : DnsDocket :=
  (docket.freeDnsEvent dnsFd).notify id true true

/-- `DocketEvent_connect_hostname` for a domain, up to the event callback that its caller
sets; the new event is the next one. -/
def connectHostname (docket : DnsDocket) (fd dnsFd : Int) : Option DnsDocket := do
  let id := docket.next
  let docket ← (docket.newEvent ⟨fd, false, true, true⟩).opens (some dnsFd)
  return { docket with dnsEvents := Function.update docket.dnsEvents dnsFd (some id) }.watch dnsFd

/-- The calls of `devent_dns_write`, which comes again until the query is sent. -/
def dnsWrites (docket : DnsDocket) (dnsFd : Int) (id : Nat) : List Query → Option (DnsDocket × Bool)
  | [] => none
  | .unpackable :: _ => some (docket.failLookup dnsFd id, false)
  | .serverMissing :: rest => docket.dnsWrites dnsFd id rest
  | .unsent :: rest => docket.dnsWrites dnsFd id rest
  | .sent :: _ => some (docket, true)

/-- The event under the descriptor; where there is none, a new one without callbacks. -/
def ensureEvent (docket : DnsDocket) (fd : Int) : DnsDocket :=
  match docket.findEvent fd with
  | none => (docket.newEvent ⟨fd, false, false, true⟩).addEvent docket.next
  | some _ => docket

/-- `DocketEvent_connect_internal` for SOCK_STREAM, once it has its descriptor. -/
def connectFd (docket : DnsDocket) (fd : Int) (lookup : Lookup) : DnsDocket :=
  if lookup.nonblocking = false then docket
  else if lookup.connection = .refused then docket.close fd
  else if lookup.registered then (docket.ensureEvent fd).watch fd
  else docket.ensureEvent fd

def connectInternal (docket : DnsDocket) (fd : Int) (lookup : Lookup) : Option DnsDocket :=
  if fd = -1 then do
    let docket ← docket.opens lookup.newFd
    match lookup.newFd with
    | none => return docket
    | some fd => return docket.connectFd fd lookup
  else some (docket.connectFd fd lookup)

/-- `devent_dns_read`. -/
def dnsRead (docket : DnsDocket) (dnsFd : Int) (id : Nat) (lookup : Lookup) : Option DnsDocket :=
  if lookup.size < 0 then some (docket.failLookup dnsFd id)
  else if lookup.parsed = false then some (docket.failLookup dnsFd id)
  else if lookup.firstIp = false then some (docket.failLookup dnsFd id)
  else do
    let docket ←
      if (docket.heap id).fd = -1 then do
        let docket ← docket.opens lookup.socket
        some ((docket.store id { docket.heap id with fd := lookup.socket.getD (-1) }).addEvent id)
      else some docket
    let docket ← docket.connectInternal (docket.heap id).fd lookup
    return docket.freeDnsEvent dnsFd

/-- A turn for a descriptor that the kernel watches and that is no DNS socket. -/
def turn (fd : Int) (docket : DnsDocket) (turn : Turn) : Option DnsDocket :=
  if docket.filters fd = true ∧ docket.dnsEvents fd = none then
    match turn, docket.findEvent fd with
    | .writable, none => some (docket.close fd)
    | .writable, some found =>
      let peer := docket.heap found
      if peer.live = false then none
      else if peer.connected then some docket
      else some ((docket.store found { peer with connected := true }).notify found true false)
    | .readable _, none => some docket
    | .readable last, some found =>
      if (docket.heap found).live = false then none
      else if last.More then some docket
      else some (docket.closeInternal found)
  else none

/-- The kernel still has something to say about the connection of the event. -/
def pending (docket : DnsDocket) (id : Nat) : Bool :=
  let peer := docket.heap id
  docket.filters peer.fd && docket.findEvent peer.fd == some id && peer.live && !peer.connected

end DnsDocket

namespace Lookup

/-- `recvfrom`, the parser or the first address fails. -/
def fails (lookup : Lookup) : Bool := decide (lookup.size < 0) || !lookup.parsed || !lookup.firstIp

end Lookup

/-- An attempt from the call to where nothing more is to come of it. -/
def DnsDocket.attempt (docket : DnsDocket) (fd : Int) (script : Attempt) : Option DnsDocket := do
  let id := docket.next
  let docket ← docket.connectHostname fd script.dnsFd
  let (docket, sent) ← docket.dnsWrites script.dnsFd id script.queries
  if sent then
    let docket ← docket.dnsRead script.dnsFd id script.lookup
    if script.lookup.fails then return docket
    else
      let docket ← script.turns.foldlM (DnsDocket.turn (docket.heap id).fd) docket
      if docket.pending id then none else return docket
  else return docket

end Devent
