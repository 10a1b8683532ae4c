import Devent.Event.Connect
import Devent.Event.Docket

/-! The whole docket of the kqueue build: loop.c, accept.c and listener.c, over the events of a
docket and its DNS events. A notification carries the answers of the kernel and what the
callbacks do, for whichever handler it comes to; batches of notifications stand one behind the other,
and a notification may be older than what its descriptor is used for now. -/
namespace Devent

/-- A `DocketDnsEvent`; `live` until it is freed. -/
structure DnsEvent where
  dnsFd : Int
  event : Option Nat
  eventSsl : Bool
  live : Bool

/-- What the loop and its handlers do: a use of an event or of a DNS event, with whether it is still
allocated; an accepted connection; and the calls that announce an event to the application, as
connected, as not looked up, or as accepted. -/
inductive Mark where
  | uses (valid : Bool)
  | accepting (id : Nat)
  | connected (id : Nat)
  | failed (id : Nat)
  | accepted (id : Nat)
  deriving DecidableEq

/-- `listeners` holds whether a listener has an `ssl_ctx`, its callback being set; `connected` and
`dnsEvent` are fields of the events; `otherFds` are the descriptors that are open and that no event has
in the table. -/
structure LoopDocket where
  docket : Docket
  connected : Nat → Bool
  dnsEvent : Nat → Option Nat
  listeners : Int → Option Bool
  dnsHeap : Nat → DnsEvent
  nextDns : Nat
  dnsEvents : Int → Option Nat
  otherFds : Int → Bool
  marks : List Mark

/-- What the calls in a callback come to; a hostname is connected without a descriptor of its own. -/
inductive LoopAct where
  | free (id : Nat)
  | create (fd : Int) (event : DocketEvent) (connected : Bool)
  | connectHostname (dnsFd : Option Int) (event : DocketEvent) (ssl : Bool)
  | set (id : Nat) (event : DocketEvent)
  | createListener (fd : Int) (listening ssl : Bool)

namespace LoopDocket

def event (loop : LoopDocket) (id : Nat) : DocketEvent := loop.docket.event id

def fd (loop : LoopDocket) (id : Nat) : Int := (loop.docket.heap id).fd

def mark (loop : LoopDocket) (mark : Mark) : LoopDocket := { loop with marks := loop.marks ++ [mark] }

/-- A change of the docket alone. -/
def onDocket (loop : LoopDocket) (f : Docket → Docket) : LoopDocket := { loop with docket := f loop.docket }

/-- A change of the fields of an event. -/
def modify (loop : LoopDocket) (id : Nat) (f : DocketEvent → DocketEvent) : LoopDocket :=
  loop.onDocket (·.modify id f)

def isOpen (loop : LoopDocket) (fd : Int) : Bool := loop.docket.openFds fd || loop.otherFds fd

/-- The kernel hands out a descriptor that is not open; 0 is open all along. -/
def opens (loop : LoopDocket) (fd : Int) : Option LoopDocket :=
  if 0 < fd ∧ loop.isOpen fd = false then
    some { loop with otherFds := Function.update loop.otherFds fd true }
  else none

/-- `close`. -/
def close (loop : LoopDocket) (fd : Int) : LoopDocket :=
  { loop with
    docket := { loop.docket with openFds := Function.update loop.docket.openFds fd false }
    otherFds := Function.update loop.otherFds fd false }

/-- An event as `DocketEvent_new` fills it in. -/
def blankEvent : DocketEvent :=
  ⟨deventReadWrite, deventNone, [], 0, false, false, false, false, false, false, false, true⟩

/-- `DocketEvent_new`. -/
def newEvent (loop : LoopDocket) (fd : Int) (event : DocketEvent) (connected : Bool) : LoopDocket :=
  { loop with
    docket := loop.docket.newEvent fd event
    connected := Function.update loop.connected loop.docket.next connected
    dnsEvent := Function.update loop.dnsEvent loop.docket.next none }

/-- `Docket_add_event`. -/
def addEvent (loop : LoopDocket) (fd : Int) (id : Nat) : LoopDocket :=
  { loop with
    docket := loop.docket.addEvent fd id
    otherFds := Function.update loop.otherFds fd false }

/-- `DocketDnsEvent_free`. -/
def freeDnsEvent (loop : LoopDocket) (dns : Nat) : LoopDocket :=
  let cell := loop.dnsHeap dns
  let loop :=
    if cell.dnsFd ≠ 0 then
      { loop with dnsEvents := Function.update loop.dnsEvents cell.dnsFd none }.close cell.dnsFd
    else loop
  let loop :=
    match cell.event with
    | some id => { loop with dnsEvent := Function.update loop.dnsEvent id none }
    | none => loop
  { loop with dnsHeap := Function.update loop.dnsHeap dns { cell with live := false } }

/-- The DNS event of an event goes before it. -/
def dropDnsEvent (loop : LoopDocket) (id : Nat) : LoopDocket :=
  match loop.dnsEvent id with
  | some dns => loop.freeDnsEvent dns
  | none => loop

/-- `DocketEvent_free`. -/
def freeEvent (loop : LoopDocket) (id : Nat) : LoopDocket := (loop.dropDnsEvent id).onDocket (·.freeEvent id)

/-- What no call from a callback changes in an event. -/
def SameTls (before after : DocketEvent) : Prop :=
  after.ssl = before.ssl ∧ after.sslHandshaking = before.sslHandshaking ∧ after.listenerCb = before.listenerCb

instance (before after : DocketEvent) : Decidable (SameTls before after) := inferInstanceAs (Decidable (_ ∧ _))

/-- `Docket_create_listener_internal`, from its socket on. -/
def createListener (loop : LoopDocket) (fd : Int) (listening ssl : Bool) : Option LoopDocket := do
  let loop ← loop.opens fd
  if listening then return { loop with listeners := Function.update loop.listeners fd (some ssl) } else return loop

/-- `DocketEvent_connect_hostname` for a domain, from `DocketEvent_new` on. -/
def connectHostname (loop : LoopDocket) (dnsFd : Option Int) (event : DocketEvent) (ssl : Bool) : Option LoopDocket :=
  let id := loop.docket.next
  let loop := loop.newEvent (-1) event false
  match dnsFd with
  | none => some loop
  | some dnsFd => do
    let loop ← loop.opens dnsFd
    return { loop with
      dnsEvent := Function.update loop.dnsEvent id (some loop.nextDns)
      dnsHeap := Function.update loop.dnsHeap loop.nextDns ⟨dnsFd, some id, ssl, true⟩
      nextDns := loop.nextDns + 1
      dnsEvents := Function.update loop.dnsEvents dnsFd (some loop.nextDns) }

/-- An event as its own call and what follows on it in the callback leave it. -/
def create (loop : LoopDocket) (fd : Int) (event : DocketEvent) (connected : Bool) : Option LoopDocket := do
  let id := loop.docket.next
  let loop ← loop.opens fd
  return (loop.newEvent fd event connected).addEvent fd id

def perform (loop : LoopDocket) : LoopAct → Option LoopDocket
  | .free id =>
    if id < loop.docket.next ∧ loop.docket.live id = true then
      some ((loop.freeEvent id).onDocket (·.record (.freed id)))
    else none
  | .create fd event connected =>
    if event.isOpen = true ∧ event.listenerCb = false then loop.create fd event connected else none
  | .connectHostname dnsFd event ssl =>
    if event.isOpen = true ∧ event.listenerCb = false then loop.connectHostname dnsFd event ssl else none
  | .set id event =>
    if id < loop.docket.next ∧ loop.docket.live id = true ∧ event.isOpen = true ∧
        SameTls (loop.event id) event then
      some (loop.modify id fun _ => event)
    else none
  | .createListener fd listening ssl => loop.createListener fd listening ssl

def performAll (loop : LoopDocket) (acts : List LoopAct) : Option LoopDocket := acts.foldlM perform loop

/-- The call of a callback of the event, where it is set. -/
def callback (loop : LoopDocket) (present : Bool) (acts : List LoopAct) (id : Nat) : Option LoopDocket :=
  if present then (loop.onDocket (·.touch .call id)).performAll acts else some loop

/-- `devent_close_internal`. -/
def closeInternal (loop : LoopDocket) (onEvent : List LoopAct) (id : Nat) : Option LoopDocket := do
  let fd := loop.fd id
  let loop ← (loop.onDocket (·.closing id)).callback (loop.event id).eventCb onEvent id
  match loop.docket.findEvent fd with
  | none => return loop
  | some found => return (loop.onDocket (·.touch .close found)).freeEvent found

/-- The loop of `devent_write_data`; `false` when it has closed. -/
def sendLoop (onEvent : List LoopAct) : List SendResult → Nat → LoopDocket → Option (LoopDocket × Bool)
  | results, id, loop =>
    if (loop.event id).ev.write = true ∧ 0 < (loop.event id).outLength then
      match results with
      | [] => none
      | result :: rest =>
        if result.wr = -1 then
          if result.again then sendLoop onEvent rest id (loop.modify id fun e => (e.setWrite false).updateEvents)
          else (loop.closeInternal onEvent id).map (·, false)
        else if result.wr = 0 then (loop.closeInternal onEvent id).map (·, false)
        else sendLoop onEvent rest id (loop.modify id fun e => { e with outBuffer := e.outBuffer.tail })
    else some (loop, true)

end LoopDocket

/-- What happens in one `devent_write_data`. -/
structure LoopFlush where
  results : List SendResult
  onEvent : List LoopAct
  onWrite : List LoopAct

/-- The answer of `SSL_do_handshake`, and the callback it leads to. -/
inductive LoopHandshake where
  | done (listener : List LoopAct)
  | pending
  | failed (onEvent : List LoopAct)

/-- What happens in one `docket_on_event_read`. -/
structure LoopRead where
  handshake : LoopHandshake
  reads : List (ReadResult × List LoopAct)
  final : List LoopAct
  flush : LoopFlush

/-- What happens at a write notification of an event. -/
structure LoopWrite where
  onConnect : List LoopAct
  handshake : LoopHandshake
  flush : LoopFlush

/-- What happens in one `docket_accept`; `onAccept` is the callback of the listener. -/
structure LoopAccept where
  remoteFd : Option Int
  nonblocking : Bool
  onAccept : List LoopAct

/-- What happens in one `devent_dns_read`; `server` is whether the docket has a DNS server. -/
structure LoopReply where
  server : Bool
  lookup : Lookup
  sslNew : Bool
  onEvent : List LoopAct

/-- What happens in one `devent_dns_write`. -/
structure LoopQuery where
  query : Query
  onEvent : List LoopAct

inductive Filter where
  | read
  | write

/-- A `struct kevent`, with the answers that its handler meets. -/
structure Notification where
  filter : Filter
  fd : Int
  accept : LoopAccept
  reply : LoopReply
  query : LoopQuery
  read : LoopRead
  write : LoopWrite

namespace LoopDocket

def writeData (loop : LoopDocket) (script : LoopFlush) (id : Nat) : Option LoopDocket := do
  let loop := loop.onDocket (·.touch .use id)
  let (loop, going) ←
    if (loop.event id).ev.write then sendLoop script.onEvent script.results id loop
    else some (loop.modify id fun e => (e.setWrite true).updateEvents, true)
  if going then loop.callback (loop.event id).writeCb script.onWrite id else return loop

/-- `devent_do_ssl_handshake`; `false` ends the caller. -/
def doSslHandshake (loop : LoopDocket) (handshake : LoopHandshake) (id : Nat) : Option (LoopDocket × Bool) :=
  if (loop.event id).ssl = true ∧ (loop.event id).sslHandshaking = true then
    match handshake with
    | .pending => some (loop, false)
    | .failed onEvent => (loop.closeInternal onEvent id).map (·, false)
    | .done listener =>
      let loop := loop.modify id fun event => { event with sslHandshaking := false }
      if (loop.event id).listenerCb then
        ((loop.mark (.accepted id)).callback true listener id).map (·, true)
      else some (loop, true)
  else some (loop, true)

/-- One read of data, up to the return of its callback. -/
def received (loop : LoopDocket) (len : Nat) (onRead : List LoopAct) (id : Nat) : Option LoopDocket :=
  if (loop.event id).udp then some loop
  else
    let loop := (loop.onDocket (·.touch .append id)).modify id fun event =>
      { event with inBuffer := event.inBuffer + len }
    loop.callback (loop.event id).readCb onRead id

/-- The loop of `docket_on_event_read`, with the last result and the event it was read for, unless
there is none any more. -/
def readLoop (fd : Int) :
    List (ReadResult × List LoopAct) → Nat → LoopDocket → Option (LoopDocket × Option (Nat × ReadResult))
  | [], _, _ => none
  | (result, onRead) :: rest, id, loop =>
    let loop := loop.onDocket (·.touch .use id)
    if result.len ≤ 0 then some (loop, some (id, result))
    else do
      let loop ← loop.received result.len.toNat onRead id
      match loop.docket.findEvent fd with
      | none => return (loop, none)
      | some found =>
        let loop := loop.onDocket (·.touch .use found)
        if (loop.event found).ev.read then readLoop fd rest found loop
        else return (loop, some (found, result))

/-- The end of the stream, with its final read callback. -/
def endOfStream (fd : Int) (loop : LoopDocket) (final onEvent : List LoopAct) (id : Nat) : Option LoopDocket := do
  let event := loop.event id
  let loop ← loop.callback (decide (0 < event.inBuffer) && event.readCb) final id
  match loop.docket.findEvent fd with
  | none => return loop
  | some found => loop.closeInternal onEvent found

/-- `docket_on_event_read`. -/
def onEventRead (loop : LoopDocket) (script : LoopRead) (id : Nat) : Option LoopDocket := do
  let fd := loop.fd id
  let loop := (loop.onDocket (·.touch .use id)).modify id fun event => event.setWrite false
  if (loop.event id).ev.read then
    let (loop, ready) ← loop.doSslHandshake script.handshake id
    if ready then
      let (loop, last) ← readLoop fd script.reads id loop
      match last with
      | none => return loop
      | some (found, result) =>
        if result.More then
          ((loop.onDocket (·.touch .use found)).modify found fun event => event.setWrite true).writeData
            script.flush found
        else endOfStream fd loop script.final script.flush.onEvent found
    else return loop
  else return loop.modify id DocketEvent.updateEvents

/-- `docket_on_event_write`. -/
def onEventWrite (loop : LoopDocket) (handshake : LoopHandshake) (flush : LoopFlush) (id : Nat) :
    Option LoopDocket := do
  let loop := (loop.onDocket (·.touch .use id)).modify id fun event => (event.setWrite false).updateEvents
  let (loop, ready) ← loop.doSslHandshake handshake id
  if ready then
    let loop := (loop.onDocket (·.touch .use id)).modify id fun event => event.setWrite true
    if (loop.event id).outLength = 0 then return loop else loop.writeData flush id
  else return loop

/-- `docket_accept`. A listener with an `ssl_ctx` leaves its callback to the handshake. -/
def accept (loop : LoopDocket) (fd : Int) (script : LoopAccept) : Option LoopDocket :=
  match script.remoteFd with
  | none => some loop
  | some remoteFd => do
    let loop ← loop.opens remoteFd
    if script.nonblocking = false then return loop
    let id := loop.docket.next
    let loop := ((loop.newEvent remoteFd blankEvent.updateEvents true).addEvent remoteFd id).mark (.accepting id)
    match loop.listeners fd with
    | none => return loop
    | some true => return loop.modify id fun event =>
        { event with ssl := true, sslHandshaking := true, listenerCb := true }
    | some false => (loop.mark (.accepted id)).callback true script.onAccept id

/-- Whether a handler finds its DNS event and the event of it allocated. -/
def dnsValid (loop : LoopDocket) (dns : Nat) : Bool :=
  (loop.dnsHeap dns).live && (loop.dnsHeap dns).event.any loop.docket.live

/-- The branches of dns.c that give up; a NULL event goes no further. -/
def failLookup (loop : LoopDocket) (dns : Nat) (onEvent : List LoopAct) : Option LoopDocket :=
  match (loop.dnsHeap dns).event with
  | none => some loop
  | some id =>
    let loop := loop.freeDnsEvent dns
    if (loop.event id).eventCb then (loop.mark (.failed id)).callback true onEvent id else some loop

/-- `devent_dns_write`. -/
def dnsWrite (loop : LoopDocket) (dns : Nat) (script : LoopQuery) : Option LoopDocket :=
  let loop := loop.mark (.uses (loop.dnsValid dns))
  match script.query with
  | .unpackable => loop.failLookup dns script.onEvent
  | .serverMissing | .unsent | .sent => some loop

/-- The event under the descriptor, or a new one without callbacks. -/
def ensureEvent (loop : LoopDocket) (fd : Int) : LoopDocket × Nat :=
  match loop.docket.findEvent fd with
  | some id => (loop, id)
  | none => ((loop.newEvent fd blankEvent false).addEvent fd loop.docket.next, loop.docket.next)

/-- `DocketEvent_connect_internal` for SOCK_STREAM, once it has its descriptor. -/
def connectFd (loop : LoopDocket) (ssl sslNew : Bool) (fd : Int) (lookup : Lookup) : LoopDocket :=
  if lookup.nonblocking = false then loop
  else if lookup.connection = .refused then loop.close fd
  else
    let (loop, id) := loop.ensureEvent fd
    let loop := loop.modify id fun event => { event with ev := deventReadWrite }
    if lookup.registered = false then loop
    else
      let loop := loop.modify id DocketEvent.updateEvents
      if ssl then loop.modify id fun event => { event with ssl := sslNew, sslHandshaking := true } else loop

def connectInternal (loop : LoopDocket) (ssl sslNew : Bool) (fd : Int) (lookup : Lookup) : Option LoopDocket :=
  if fd = -1 then
    match lookup.newFd with
    | none => some loop
    | some fd => (loop.opens fd).map fun loop => loop.connectFd ssl sslNew fd lookup
  else some (loop.connectFd ssl sslNew fd lookup)

/-- The socket of an event that has none; Docket_add_event is called in any case. -/
def giveSocket (loop : LoopDocket) (id : Nat) (socket : Option Int) : Option LoopDocket :=
  if loop.fd id = -1 then
    match socket with
    | none => some (loop.onDocket fun docket =>
        { docket with events := Function.update docket.events (-1) (some id) })
    | some fd => (loop.opens fd).map fun loop =>
        (loop.onDocket fun docket => docket.store id { docket.heap id with fd := fd }).addEvent fd id
  else some loop

/-- `devent_dns_read`. -/
def dnsRead (loop : LoopDocket) (dns : Nat) (script : LoopReply) : Option LoopDocket :=
  let loop := loop.mark (.uses (loop.dnsValid dns))
  if script.server = false then some loop
  else if script.lookup.fails then loop.failLookup dns script.onEvent
  else
    match (loop.dnsHeap dns).event with
    | none => some loop
    | some id => do
      let loop ← loop.giveSocket id script.lookup.socket
      let loop ← loop.connectInternal (loop.dnsHeap dns).eventSsl script.sslNew (loop.fd id) script.lookup
      return loop.freeDnsEvent dns

/-- The first write notification tells of the connection. -/
def tellConnected (loop : LoopDocket) (onConnect : List LoopAct) (id : Nat) : Option LoopDocket :=
  if loop.connected id then some loop
  else
    let loop := { loop with connected := Function.update loop.connected id true }
    if (loop.event id).eventCb then (loop.mark (.connected id)).callback true onConnect id else some loop

/-- A write notification of an event, which is looked up again behind the callback; without a callback
it is still there. -/
def writable (loop : LoopDocket) (script : LoopWrite) (fd : Int) (id : Nat) : Option LoopDocket := do
  let loop ← (loop.mark (.uses (loop.docket.live id))).tellConnected script.onConnect id
  match loop.docket.findEvent fd with
  | none => return loop
  | some found => (loop.mark (.uses (loop.docket.live found))).onEventWrite script.handshake script.flush found

/-- The body of the inner loop of `kqueue_loop`. -/
def notify (loop : LoopDocket) (notification : Notification) : Option LoopDocket :=
  let fd := notification.fd
  if fd ≤ 0 then none
  else
    match notification.filter with
    | .read =>
      if (loop.listeners fd).isSome then loop.accept fd notification.accept
      else
        match loop.dnsEvents fd, loop.docket.findEvent fd with
        | some dns, _ => loop.dnsRead dns notification.reply
        | none, some id => (loop.mark (.uses (loop.docket.live id))).onEventRead notification.read id
        | none, none => some loop
    | .write =>
      match loop.dnsEvents fd, loop.docket.findEvent fd with
      | some dns, _ => loop.dnsWrite dns notification.query
      | none, some id => loop.writable notification.write fd id
      | none, none => some (loop.close fd)

/-- `kqueue_loop`, over the notifications of all its batches. -/
def kqueueLoop (loop : LoopDocket) (notifications : List Notification) : Option LoopDocket :=
  notifications.foldlM notify loop

/-- `Docket_new`. -/
def new : LoopDocket :=
  ⟨⟨fun _ => ⟨0, blankEvent.free⟩, 0, fun _ => none, fun _ => false, []⟩, fun _ => false, fun _ => none,
    fun _ => none, fun _ => ⟨0, none, false, false⟩, 0, fun _ => none, fun _ => false, []⟩

/-- An application: what it sets up, and the run of its loop. -/
def run (setup : List LoopAct) (notifications : List Notification) : Option LoopDocket := do
  let loop ← new.performAll setup
  loop.kqueueLoop notifications

end LoopDocket
end Devent
