import Devent.Event.Buffer

/-! One event of the kqueue build: event.c, write.c, read.c and the registrations of
utils.c. A call carries the kernel's answers and what the callbacks do inside it;
`none` is a missing answer or a use of the freed event. -/
namespace Devent

/-- The two bits of `ev`, and the two filters of a descriptor. -/
structure Interest where
  read : Bool
  write : Bool
  deriving DecidableEq

def deventNone : Interest := ⟨false, false⟩

def deventReadWrite : Interest := ⟨true, true⟩

/-- `filters` is what the kernel has registered. The in-buffer is its length, a
callback whether it is set, `udp` whether there is a remote address. -/
structure DocketEvent where
  ev : Interest
  filters : Interest
  outBuffer : List Chunk
  inBuffer : Nat
  readCb : Bool
  writeCb : Bool
  eventCb : Bool
  udp : Bool
  ssl : Bool
  sslHandshaking : Bool
  listenerCb : Bool
  isOpen : Bool
  deriving DecidableEq

/-- What `DocketBuffer_send` returns, and whether errno is EAGAIN or EWOULDBLOCK. -/
structure SendResult where
  wr : Int
  again : Bool

/-- What SSL_read, recvfrom or read returns, and whether errno is EAGAIN. -/
structure ReadResult where
  len : Int
  again : Bool

/-- The reads stopped with more to come later. -/
def ReadResult.More (result : ReadResult) : Prop := 0 < result.len ∨ (result.len = -1 ∧ result.again = true)

instance : DecidablePred ReadResult.More := fun _ => inferInstanceAs (Decidable (_ ∨ _))

namespace DocketEvent

/-- What the callbacks of an event do when they are called. -/
abbrev Callback := DocketEvent → Option DocketEvent

def outLength (event : DocketEvent) : Nat := (event.outBuffer.map Subtype.val).sum

/-- A chunk is never empty. -/
theorem outLength_pos_iff {event : DocketEvent} : 0 < event.outLength ↔ event.outBuffer ≠ [] := by
  cases chunks : event.outBuffer with
  | nil => simp [outLength, chunks]
  | cons chunk rest =>
    have positive := chunk.property.1
    simp only [outLength, chunks, List.map_cons, List.sum_cons, ne_eq, reduceCtorEq,
      not_false_eq_true, iff_true]
    omega

def setWrite (event : DocketEvent) (enable : Bool) : DocketEvent :=
  { event with ev := { event.ev with write := enable } }

def setRead (event : DocketEvent) (enable : Bool) : DocketEvent :=
  { event with ev := { event.ev with read := enable } }

/-- `devent_update_events` with `event->ev`: each filter is added or deleted. -/
def updateEvents (event : DocketEvent) : DocketEvent := { event with filters := event.ev }

/-- `DocketEvent_free`. -/
def free (event : DocketEvent) : DocketEvent :=
  { updateEvents { event with ev := deventNone } with outBuffer := [], inBuffer := 0, isOpen := false }

def call (present : Bool) (cb : Callback) (event : DocketEvent) : Option DocketEvent :=
  if present then cb event else some event

/-- `devent_close_internal`; the event is looked up again behind its callback. -/
def closeInternal (eventCb : Callback) (event : DocketEvent) : Option DocketEvent := do
  let event ← call event.eventCb eventCb { event with ev := deventNone }
  return if event.isOpen then event.free else event

/-- The loop of `devent_write_data`. -/
def sendLoop (eventCb : Callback) : List SendResult → DocketEvent → Option DocketEvent
  | results, event =>
    if event.ev.write = true ∧ 0 < event.outLength then
      match results with
      | [] => none
      | result :: rest =>
        if result.wr = -1 then
          if result.again then sendLoop eventCb rest (event.setWrite false).updateEvents
          else event.closeInternal eventCb
        else if result.wr = 0 then event.closeInternal eventCb
        else sendLoop eventCb rest { event with outBuffer := event.outBuffer.tail }
    else some event

/-- Before the write callback: send while the bit is set, else set it and register. -/
def sendOrArm (results : List SendResult) (eventCb : Callback) (event : DocketEvent) : Option DocketEvent :=
  if event.ev.write then sendLoop eventCb results event
  else some (event.setWrite true).updateEvents

def writeData (results : List SendResult) (eventCb writeCb : Callback) (event : DocketEvent) :
    Option DocketEvent := do
  let event ← event.sendOrArm results eventCb
  if event.isOpen then call event.writeCb writeCb event else return event

end DocketEvent

/-- The three ways to write. -/
inductive WriteKind where
  | write (len : Nat)
  | writeBuffer (buffer : List Chunk)
  | writeBufferForce (buffer : List Chunk)

/-- A call on the event, from outside or from one of its callbacks. A write carries the
answers to its sends, what the event callback does on a failure, and what the write
callback does at the end. -/
inductive EventCall where
  | write (kind : WriteKind) (results : List SendResult) (onEvent onWrite : List EventCall)
  | setReadEnable (enable : Bool)
  | setCb (read write event : Bool)
  | read (len : Nat)
  | free

namespace DocketEvent

/-- `DocketEvent_write`, `DocketEvent_write_buffer` and `DocketEvent_write_buffer_force`. -/
def write (kind : WriteKind) (results : List SendResult) (eventCb writeCb : Callback)
    (event : DocketEvent) : Option DocketEvent :=
  match kind with
  | .write len =>
    let event := { event with outBuffer := event.outBuffer ++ chunksOf len }
    if event.ev.write then event.writeData results eventCb writeCb else some event
  | .writeBuffer buffer =>
    writeData results eventCb writeCb { event with outBuffer := event.outBuffer ++ buffer }
  | .writeBufferForce buffer => do
    let ev := event.ev
    let event := { event with outBuffer := event.outBuffer ++ buffer }
    let event ← (event.setWrite true).writeData results eventCb writeCb
    -- the saved bits go into the event even where it was freed
    if event.isOpen then return { event with ev := ev } else none

mutual

def perform : EventCall → DocketEvent → Option DocketEvent
  | .write kind results onEvent onWrite, event =>
    if event.isOpen then event.write kind results (performAll onEvent) (performAll onWrite) else none
  | .setReadEnable enable, event => if event.isOpen then some (event.setRead enable) else none
  | .setCb read write eventCb, event =>
    if event.isOpen then some { event with readCb := read, writeCb := write, eventCb := eventCb } else none
  | .read len, event => if event.isOpen then some { event with inBuffer := event.inBuffer - len } else none
  | .free, event => if event.isOpen then some event.free else none

def performAll : List EventCall → DocketEvent → Option DocketEvent
  | [], event => some event
  | first :: rest, event => do
    let event ← perform first event
    performAll rest event

end

end DocketEvent

/-- The answer of `SSL_do_handshake`, with what the callback it leads to does. -/
inductive Handshake where
  | done (listener : List EventCall)
  | pending
  | failed (onEvent : List EventCall)

/-- What happens in one `devent_write_data`. -/
structure Flush where
  results : List SendResult
  onEvent : List EventCall
  onWrite : List EventCall

namespace DocketEvent

/-- `devent_do_ssl_handshake`; `false` ends the caller, which does not look the event
up again behind the listener's callback. -/
def doSslHandshake (handshake : Handshake) (event : DocketEvent) : Option (DocketEvent × Bool) :=
  if event.ssl = true ∧ event.sslHandshaking = true then
    match handshake with
    | .pending => some (event, false)
    | .failed onEvent => do
      let event ← event.closeInternal (performAll onEvent)
      return (event, false)
    | .done listener => do
      let event := { event with sslHandshaking := false }
      let event ← call event.listenerCb (performAll listener) event
      if event.isOpen then return (event, true) else none
  else some (event, true)

def flush (script : Flush) (event : DocketEvent) : Option DocketEvent :=
  event.writeData script.results (performAll script.onEvent) (performAll script.onWrite)

def onEventWrite (handshake : Handshake) (script : Flush) (event : DocketEvent) : Option DocketEvent := do
  let (event, ready) ← (event.setWrite false).updateEvents.doSslHandshake handshake
  if ready then
    let event := event.setWrite true
    if event.outLength = 0 then return event else event.flush script
  else return event

/-- One read of data; UDP drops it. -/
def received (len : Nat) (onRead : List EventCall) (event : DocketEvent) : Option DocketEvent :=
  if event.udp then some event
  else call event.readCb (performAll onRead) { event with inBuffer := event.inBuffer + len }

/-- The loop of `docket_on_event_read`, with the last result, which is `none` when the
event is gone. Each result comes with what the read callback does. -/
def readLoop : List (ReadResult × List EventCall) → DocketEvent → Option (DocketEvent × Option ReadResult)
  | [], _ => none
  | (result, onRead) :: rest, event =>
    if result.len ≤ 0 then some (event, some result)
    else do
      let event ← event.received result.len.toNat onRead
      if event.isOpen then
        if event.ev.read then readLoop rest event else return (event, some result)
      else return (event, none)

/-- The end of the stream, with its final read callback. -/
def endOfStream (onRead onEvent : List EventCall) (event : DocketEvent) : Option DocketEvent := do
  let event ← call (decide (0 < event.inBuffer) && event.readCb) (performAll onRead) event
  if event.isOpen then event.closeInternal (performAll onEvent) else return event

def onEventRead (handshake : Handshake) (reads : List (ReadResult × List EventCall))
    (onRead : List EventCall) (script : Flush) (event : DocketEvent) : Option DocketEvent := do
  let event := event.setWrite false
  if event.ev.read then
    let (event, ready) ← event.doSslHandshake handshake
    if ready then
      let (event, last) ← readLoop reads event
      match last with
      | none => return event
      | some result =>
        if result.More then (event.setWrite true).flush script
        else event.endOfStream onRead script.onEvent
    else return event
  else return event.updateEvents

end DocketEvent

/-- An outermost call: one from outside the callbacks, or a notification of the loop. -/
inductive EventInput where
  | call (call : EventCall)
  | readable (handshake : Handshake) (reads : List (ReadResult × List EventCall))
      (onRead : List EventCall) (flush : Flush)
  | writable (handshake : Handshake) (flush : Flush)

namespace DocketEvent

def handle (event : DocketEvent) : EventInput → Option DocketEvent
  | .call call => event.perform call
  | .readable handshake reads onRead flush => event.onEventRead handshake reads onRead flush
  | .writable handshake flush => event.onEventWrite handshake flush

/-- One outermost call on an open event. -/
def step (event : DocketEvent) (input : EventInput) : Option (DocketEvent × Unit) :=
  if event.isOpen then (event.handle input).map fun next => (next, ()) else none

end DocketEvent

end Devent
