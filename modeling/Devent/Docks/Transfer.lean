import Devent.Event.DocketEvent
import Mathlib.Logic.Function.Basic

/-! The relay of transfer.c between the event of a client and the event of its remote, with
the parts of read.c, write.c and utils.c that run its callbacks. A callback gets the context
stored in its event, whatever its type. Reading stays enabled; every close carries
DEVENT_ERROR or DEVENT_EOF. -/
namespace Devent.Docks

/-- The leg of the client, with a ServerContext, and that of the remote, with a
RemoteContext. -/
inductive Side where
  | server
  | remote
  deriving DecidableEq

namespace Side

def other : Side → Side
  | server => remote
  | remote => server

@[simp] theorem other_other (side : Side) : side.other.other = side := by
  cases side <;> rfl

@[simp] theorem other_ne (side : Side) : side.other ≠ side := by
  cases side <;> decide

@[simp] theorem ne_other (side : Side) : side ≠ side.other := side.other_ne.symm

end Side

inductive RelayReadCb where
  | docketServerRead
  | docketRemoteRead
  deriving DecidableEq

inductive RelayWriteCb where
  | serverDisconnectWrite
  | remoteDisconnectWrite
  deriving DecidableEq

inductive RelayEventCb where
  | docketServerDisconnectEvent
  | docketRemoteDisconnectEvent
  | docketServerDisconnectFinally
  | docketRemoteDisconnectFinally
  deriving DecidableEq

/-- A callback takes one type of context and is given another or the same; a context is
released as one type; an event is closed with some chunks unsent. -/
inductive TransferEntry where
  | called (takes given : Side)
  | released (through given : Side)
  | closed (leg : Side) (unsent : Nat) (failed : Bool)
  deriving DecidableEq

/-- An event of the relay; `ctx` is the type of its context. `failed` is what its socket
has answered. -/
structure Leg where
  live : Bool
  writeEnable : Bool
  failed : Bool
  outBuffer : List Chunk
  inBuffer : List Chunk
  readCb : Option RelayReadCb
  writeCb : Option RelayWriteCb
  eventCb : Option RelayEventCb
  ctx : Side

/-- `linked` is whether the context of a side still points to the other one. -/
structure Transfer where
  leg : Side → Leg
  linked : Side → Bool
  log : List TransferEntry

namespace Transfer

def modify (transfer : Transfer) (side : Side) (f : Leg → Leg) : Transfer :=
  { transfer with leg := Function.update transfer.leg side (f (transfer.leg side)) }

def record (transfer : Transfer) (entry : TransferEntry) : Transfer :=
  { transfer with log := transfer.log ++ [entry] }

/-- `DocketEvent_free`. -/
def eventFree (transfer : Transfer) (side : Side) : Option Transfer :=
  let leg := transfer.leg side
  if leg.live then
    some ((transfer.record (.closed side leg.outBuffer.length leg.failed)).modify side fun leg =>
      { leg with live := false, outBuffer := [], inBuffer := [] })
  else none

/-- `ServerContext_free` and `RemoteContext_free`. -/
def contextFree (transfer : Transfer) (through given : Side) : Transfer :=
  transfer.record (.released through given)

/-- `DocketEvent_set_cb`. -/
def setCb (transfer : Transfer) (side : Side) (read : Option RelayReadCb) (write : Option RelayWriteCb)
    (event : Option RelayEventCb) (ctx : Side) : Transfer :=
  transfer.modify side fun leg => { leg with readCb := read, writeCb := write, eventCb := event, ctx := ctx }

/-- The pointer of a context to the other one is set to NULL. -/
def unlink (transfer : Transfer) (side : Side) : Transfer :=
  { transfer with linked := Function.update transfer.linked side false }

/-- The event callbacks of the relay: the own event and context go, and the other ones too
unless they have bytes to send. -/
def disconnectEvent (own : Side) (write : RelayWriteCb) (finally' : RelayEventCb) (transfer : Transfer)
    (given : Side) : Option Transfer :=
  if given = own ∧ transfer.linked own then do
    let transfer ← transfer.eventFree own
    let transfer := (transfer.contextFree own own).unlink own.other
    if (transfer.leg own.other).outBuffer = [] then
      let transfer ← transfer.eventFree own.other
      return transfer.contextFree own.other own.other
    else return transfer.setCb own.other none (some write) (some finally') own.other
  else none

def docketServerDisconnectEvent : Transfer → Side → Option Transfer :=
  disconnectEvent .server .remoteDisconnectWrite .docketServerDisconnectFinally

def docketRemoteDisconnectEvent : Transfer → Side → Option Transfer :=
  disconnectEvent .remote .serverDisconnectWrite .docketRemoteDisconnectFinally

/-- The event callbacks of a leg that drains. -/
def disconnectFinally (through : Side) (transfer : Transfer) (given : Side) : Transfer :=
  transfer.contextFree through given

def docketServerDisconnectFinally : Transfer → Side → Transfer := disconnectFinally .server

def docketRemoteDisconnectFinally : Transfer → Side → Transfer := disconnectFinally .remote

/-- The write callbacks of a leg that drains. -/
def disconnectWrite (own : Side) (transfer : Transfer) (given : Side) : Option Transfer :=
  if (transfer.leg own).outBuffer = [] then do
    let transfer ← transfer.eventFree own
    return transfer.contextFree own given
  else some transfer

def serverDisconnectWrite : Transfer → Side → Option Transfer := disconnectWrite .server

def remoteDisconnectWrite : Transfer → Side → Option Transfer := disconnectWrite .remote

/-- The call of the event callback. -/
def callEvent (transfer : Transfer) (side : Side) : Option Transfer :=
  let given := (transfer.leg side).ctx
  match (transfer.leg side).eventCb with
  | none => some transfer
  | some .docketServerDisconnectEvent =>
      (transfer.record (.called .server given)).docketServerDisconnectEvent given
  | some .docketRemoteDisconnectEvent =>
      (transfer.record (.called .remote given)).docketRemoteDisconnectEvent given
  | some .docketServerDisconnectFinally =>
    some ((transfer.record (.called .server given)).docketServerDisconnectFinally given)
  | some .docketRemoteDisconnectFinally =>
    some ((transfer.record (.called .remote given)).docketRemoteDisconnectFinally given)

/-- The call of the write callback. -/
def callWrite (transfer : Transfer) (side : Side) : Option Transfer :=
  let given := (transfer.leg side).ctx
  match (transfer.leg side).writeCb with
  | none => some transfer
  | some .serverDisconnectWrite => (transfer.record (.called .server given)).serverDisconnectWrite given
  | some .remoteDisconnectWrite => (transfer.record (.called .remote given)).remoteDisconnectWrite given

/-- `devent_close_internal`; its event is looked up again behind the callback. -/
def closeInternal (transfer : Transfer) (side : Side) : Option Transfer := do
  let transfer ← (transfer.modify side fun leg => { leg with writeEnable := false }).callEvent side
  if (transfer.leg side).live then transfer.eventFree side else return transfer

/-- The loop of `devent_write_data`; `false` when it has closed. -/
def sendLoop (side : Side) : List SendResult → Transfer → Option (Transfer × Bool)
  | results, transfer =>
    if (transfer.leg side).writeEnable = true ∧ (transfer.leg side).outBuffer ≠ [] then
      match results with
      | [] => none
      | result :: rest =>
        if result.wr = -1 then
          if result.again then sendLoop side rest
              (transfer.modify side fun leg => { leg with writeEnable := false })
          else ((transfer.modify side fun leg => { leg with failed := true }).closeInternal side).map (·, false)
        else if result.wr = 0 then
          ((transfer.modify side fun leg => { leg with failed := true }).closeInternal side).map (·, false)
        else sendLoop side rest (transfer.modify side fun leg => { leg with outBuffer := leg.outBuffer.tail })
    else some (transfer, true)

/-- `devent_write_data`. -/
def writeData (transfer : Transfer) (side : Side) (results : List SendResult) : Option Transfer :=
  if (transfer.leg side).writeEnable then do
    let (transfer, going) ← sendLoop side results transfer
    if going then transfer.callWrite side else return transfer
  else (transfer.modify side fun leg => { leg with writeEnable := true }).callWrite side

/-- `DocketEvent_write_buffer_force`; the bits that go back into a freed event are not seen
again. -/
def writeBufferForce (transfer : Transfer) (side : Side) (buffer : List Chunk) (results : List SendResult) :
    Option Transfer := do
  let ev := (transfer.leg side).writeEnable
  let transfer := transfer.modify side fun leg =>
    { leg with outBuffer := leg.outBuffer ++ buffer, writeEnable := true }
  let transfer ← transfer.writeData side results
  if (transfer.leg side).live then return transfer.modify side fun leg => { leg with writeEnable := ev }
  else return transfer

/-- The read callbacks of the relay. -/
def relayRead (own : Side) (transfer : Transfer) (given : Side) (results : List SendResult) : Option Transfer :=
  if given = own ∧ transfer.linked own then
    let buffer := (transfer.leg own).inBuffer
    (transfer.modify own fun leg => { leg with inBuffer := [] }).writeBufferForce own.other buffer results
  else none

def docketServerRead : Transfer → Side → List SendResult → Option Transfer := relayRead .server

def docketRemoteRead : Transfer → Side → List SendResult → Option Transfer := relayRead .remote

/-- The call of the read callback. -/
def callRead (transfer : Transfer) (side : Side) (results : List SendResult) : Option Transfer :=
  let given := (transfer.leg side).ctx
  match (transfer.leg side).readCb with
  | none => some transfer
  | some .docketServerRead => (transfer.record (.called .server given)).docketServerRead given results
  | some .docketRemoteRead => (transfer.record (.called .remote given)).docketRemoteRead given results

end Transfer

/-- What the loop hands a leg: one read of data, the end of the reads on EAGAIN or on the end
or a failure of the stream, or a write notification; with the answers to the sends in it. -/
inductive TransferInput where
  | read (side : Side) (data : List Chunk) (results : List SendResult)
  | again (side : Side) (results : List SendResult)
  | finish (side : Side) (error : Bool) (results : List SendResult)
  | writable (side : Side) (results : List SendResult)

def TransferInput.side : TransferInput → Side
  | .read side _ _ => side
  | .again side _ => side
  | .finish side _ _ => side
  | .writable side _ => side

namespace Transfer

/-- One read of `docket_on_event_read`. -/
def onRead (transfer : Transfer) (side : Side) (data : List Chunk) (results : List SendResult) :
    Option Transfer :=
  (transfer.modify side fun leg => { leg with writeEnable := false, inBuffer := leg.inBuffer ++ data }).callRead
    side results

/-- The end of `docket_on_event_read` with more to come. -/
def onReadAgain (transfer : Transfer) (side : Side) (results : List SendResult) : Option Transfer :=
  (transfer.modify side fun leg => { leg with writeEnable := true }).writeData side results

/-- The end of `docket_on_event_read` at the end of the stream. -/
def onReadFinish (transfer : Transfer) (side : Side) (error : Bool) (results : List SendResult) :
    Option Transfer := do
  let transfer :=
    transfer.modify side fun leg => { leg with writeEnable := false, failed := leg.failed || error }
  let transfer ← if (transfer.leg side).inBuffer ≠ [] then transfer.callRead side results else some transfer
  if (transfer.leg side).live then transfer.closeInternal side else return transfer

/-- `docket_on_event_write`. -/
def onEventWrite (transfer : Transfer) (side : Side) (results : List SendResult) : Option Transfer :=
  let transfer := transfer.modify side fun leg => { leg with writeEnable := true }
  if (transfer.leg side).outBuffer = [] then some transfer else transfer.writeData side results

/-- One input to a leg whose event is in the docket. -/
def step (transfer : Transfer) (input : TransferInput) : Option (Transfer × Unit) :=
  if (transfer.leg input.side).live then
    match input with
    | .read side data results => (transfer.onRead side data results).map (·, ())
    | .again side results => (transfer.onReadAgain side results).map (·, ())
    | .finish side error results => (transfer.onReadFinish side error results).map (·, ())
    | .writable side results => (transfer.onEventWrite side results).map (·, ())
  else none

end Transfer

end Devent.Docks
