import Devent.Event.DocketEvent
import Mathlib.Logic.Function.Basic

/-! The events of one docket: the table of docket.c from descriptors to events, the
descriptors that the kernel has handed out, and the calls of utils.c, write.c and read.c that
run callbacks. A callback may free and create any event; the log keeps which event the calls
themselves use. -/
namespace Devent

/-- An event in memory. -/
structure EventCell where
  fd : Int
  event : DocketEvent

/-- `use` is a read or a write of a field. -/
inductive TouchKind where
  | use
  | append
  | call
  | close
  deriving DecidableEq

/-- What a call does to an event, and whether the event was allocated. -/
structure Touch where
  kind : TouchKind
  event : Nat
  live : Bool
  deriving DecidableEq

/-- An act of the call itself, or an event that a callback freed. -/
inductive Entry where
  | own (touch : Touch)
  | freed (id : Nat)
  deriving DecidableEq

/-- `events` is `docket->events`; ids from `next` on are not yet in use. -/
structure Docket where
  heap : Nat → EventCell
  next : Nat
  events : Int → Option Nat
  openFds : Int → Bool
  log : List Entry

/-- What the calls in a callback come to, event by event. The kernel may hand out any
descriptor that is not open; a hostname is connected without one at first. -/
inductive Act where
  | free (id : Nat)
  | create (fd : Int) (event : DocketEvent)
  | connectHostname (event : DocketEvent)
  | set (id : Nat) (event : DocketEvent)

namespace Docket

def event (docket : Docket) (id : Nat) : DocketEvent := (docket.heap id).event

def live (docket : Docket) (id : Nat) : Bool := (docket.event id).isOpen

def record (docket : Docket) (entry : Entry) : Docket := { docket with log := docket.log ++ [entry] }

def touch (docket : Docket) (kind : TouchKind) (id : Nat) : Docket :=
  docket.record (.own ⟨kind, id, docket.live id⟩)

def store (docket : Docket) (id : Nat) (cell : EventCell) : Docket :=
  { docket with heap := Function.update docket.heap id cell }

def modify (docket : Docket) (id : Nat) (f : DocketEvent → DocketEvent) : Docket :=
  docket.store id { docket.heap id with event := f (docket.event id) }

/-- `DocketEvent_free`, which only takes a positive descriptor out of the table. -/
def freeEvent (docket : Docket) (id : Nat) : Docket :=
  let fd := (docket.heap id).fd
  let event := (docket.event id).free
  if 0 < fd then
    let docket := docket.store id ⟨0, event⟩
    { docket with
      events := Function.update docket.events fd none
      openFds := Function.update docket.openFds fd false }
  else docket.store id ⟨fd, event⟩

/-- `DocketEvent_new`. -/
def newEvent (docket : Docket) (fd : Int) (event : DocketEvent) : Docket :=
  { docket.store docket.next ⟨fd, event⟩ with next := docket.next + 1 }

/-- `Docket_add_event`, for a descriptor the kernel has opened. -/
def addEvent (docket : Docket) (fd : Int) (id : Nat) : Docket :=
  { docket with
    events := Function.update docket.events fd (some id)
    openFds := Function.update docket.openFds fd true }

/-- `Docket_find_event`. -/
def findEvent (docket : Docket) (fd : Int) : Option Nat := docket.events fd

def perform (docket : Docket) : Act → Option Docket
  | .free id =>
    if id < docket.next ∧ docket.live id = true then some ((docket.freeEvent id).record (.freed id)) else none
  | .create fd event =>
    if 0 ≤ fd ∧ docket.openFds fd = false ∧ event.isOpen = true then
      some ((docket.newEvent fd event).addEvent fd docket.next)
    else none
  | .connectHostname event => if event.isOpen = true then some (docket.newEvent (-1) event) else none
  | .set id event =>
    if id < docket.next ∧ docket.live id = true ∧ event.isOpen = true then
      some (docket.modify id fun _ => event)
    else none

def performAll (docket : Docket) (acts : List Act) : Option Docket := acts.foldlM perform docket

/-- The call of a callback of the event, where it is set. -/
def callback (docket : Docket) (present : Bool) (acts : List Act) (id : Nat) : Option Docket :=
  if present then (docket.touch .call id).performAll acts else some docket

/-- Up to the event callback of `devent_close_internal`. -/
def closing (docket : Docket) (id : Nat) : Docket :=
  (docket.touch .use id).modify id fun event => { event with ev := deventNone }

/-- `devent_close_internal`. -/
def closeInternal (docket : Docket) (onEvent : List Act) (id : Nat) : Option Docket := do
  let fd := (docket.heap id).fd
  let docket ← (docket.closing id).callback (docket.event id).eventCb onEvent id
  match docket.findEvent fd with
  | none => return docket
  | some found => return (docket.touch .close found).freeEvent found

/-- The loop of `devent_write_data`; `false` when it has closed. -/
def sendLoop (onEvent : List Act) : List SendResult → Nat → Docket → Option (Docket × Bool)
  | results, id, docket =>
    if (docket.event id).ev.write = true ∧ 0 < (docket.event id).outLength then
      match results with
      | [] => none
      | result :: rest =>
        if result.wr = -1 then
          if result.again then sendLoop onEvent rest id
              (docket.modify id fun e => (e.setWrite false).updateEvents)
          else (docket.closeInternal onEvent id).map (·, false)
        else if result.wr = 0 then (docket.closeInternal onEvent id).map (·, false)
        else sendLoop onEvent rest id (docket.modify id fun e => { e with outBuffer := e.outBuffer.tail })
    else some (docket, true)

end Docket

/-- What happens in one `devent_write_data`. -/
structure FlushActs where
  results : List SendResult
  onEvent : List Act
  onWrite : List Act

/-- The answer of `SSL_do_handshake`, and the callback it leads to. -/
inductive HandshakeActs where
  | done (listener : List Act)
  | pending
  | failed (onEvent : List Act)

/-- What happens in one `docket_on_event_read`: the handshake, the reads with their
callbacks, the final read callback, the flush. -/
structure ReadActs where
  handshake : HandshakeActs
  reads : List (ReadResult × List Act)
  final : List Act
  flush : FlushActs

namespace Docket

def writeData (docket : Docket) (script : FlushActs) (id : Nat) : Option Docket := do
  let docket := docket.touch .use id
  let (docket, going) ←
    if (docket.event id).ev.write then docket.sendLoop script.onEvent script.results id
    else some (docket.modify id fun e => (e.setWrite true).updateEvents, true)
  if going then docket.callback (docket.event id).writeCb script.onWrite id else return docket

/-- `devent_do_ssl_handshake`; `false` ends the caller. -/
def doSslHandshake (docket : Docket) (handshake : HandshakeActs) (id : Nat) : Option (Docket × Bool) :=
  if (docket.event id).ssl = true ∧ (docket.event id).sslHandshaking = true then
    match handshake with
    | .pending => some (docket, false)
    | .failed onEvent => (docket.closeInternal onEvent id).map (·, false)
    | .done listener =>
      let docket := docket.modify id fun event => { event with sslHandshaking := false }
      (docket.callback (docket.event id).listenerCb listener id).map (·, true)
  else some (docket, true)

/-- One read of data, up to the return of its callback. -/
def received (docket : Docket) (len : Nat) (onRead : List Act) (id : Nat) : Option Docket :=
  if (docket.event id).udp then some docket
  else
    let docket :=
      (docket.touch .append id).modify id fun event => { event with inBuffer := event.inBuffer + len }
    docket.callback (docket.event id).readCb onRead id

/-- The loop of `docket_on_event_read`, which looks the event up behind each callback; with
the last result and the event it was read for, unless there is none any more. -/
def readLoop (fd : Int) :
    List (ReadResult × List Act) → Nat → Docket → Option (Docket × Option (Nat × ReadResult))
  | [], _, _ => none
  | (result, onRead) :: rest, id, docket =>
    let docket := docket.touch .use id
    if result.len ≤ 0 then some (docket, some (id, result))
    else do
      let docket ← docket.received result.len.toNat onRead id
      match docket.findEvent fd with
      | none => return (docket, none)
      | some found =>
        let docket := docket.touch .use found
        if (docket.event found).ev.read then readLoop fd rest found docket
        else return (docket, some (found, result))

/-- The end of the stream, with its final read callback. -/
def endOfStream (fd : Int) (docket : Docket) (final onEvent : List Act) (id : Nat) : Option Docket := do
  let event := docket.event id
  let docket ← docket.callback (decide (0 < event.inBuffer) && event.readCb) final id
  match docket.findEvent fd with
  | none => return docket
  | some found => docket.closeInternal onEvent found

/-- `docket_on_event_read`. -/
def onEventRead (docket : Docket) (script : ReadActs) (id : Nat) : Option Docket := do
  let fd := (docket.heap id).fd
  let docket := (docket.touch .use id).modify id fun event => event.setWrite false
  if (docket.event id).ev.read then
    let (docket, ready) ← docket.doSslHandshake script.handshake id
    if ready then
      let (docket, last) ← readLoop fd script.reads id docket
      match last with
      | none => return docket
      | some (found, result) =>
        if result.More then
          ((docket.touch .use found).modify found fun event => event.setWrite true).writeData script.flush found
        else endOfStream fd docket script.final script.flush.onEvent found
    else return docket
  else return docket.modify id DocketEvent.updateEvents

/-- `docket_on_event_write`. -/
def onEventWrite (docket : Docket) (handshake : HandshakeActs) (flush : FlushActs) (id : Nat) : Option Docket := do
  let docket := (docket.touch .use id).modify id fun event => (event.setWrite false).updateEvents
  let (docket, ready) ← docket.doSslHandshake handshake id
  if ready then
    let docket := (docket.touch .use id).modify id fun event => event.setWrite true
    if (docket.event id).outLength = 0 then return docket else docket.writeData flush id
  else return docket

end Docket

end Devent
