import Devent.Docks.Transfer
import Devent.Library.Run

/-! What the calls of a relay leave of its two legs, while both live and while one drains. -/
namespace Devent.Docks

namespace Side

def readCb : Side → RelayReadCb
  | server => .docketServerRead
  | remote => .docketRemoteRead

def writeCb : Side → RelayWriteCb
  | server => .serverDisconnectWrite
  | remote => .remoteDisconnectWrite

def eventCb : Side → RelayEventCb
  | server => .docketServerDisconnectEvent
  | remote => .docketRemoteDisconnectEvent

def finallyCb : Side → RelayEventCb
  | server => .docketServerDisconnectFinally
  | remote => .docketRemoteDisconnectFinally

end Side

/-- The right context, and no byte dropped unless the socket failed. -/
def TransferEntry.Good : TransferEntry → Prop
  | .called takes given => given = takes
  | .released through given => given = through
  | .closed _ unsent failed => unsent = 0 ∨ failed = true

instance : DecidablePred TransferEntry.Good
  | .called .. => inferInstanceAs (Decidable (_ = _))
  | .released .. => inferInstanceAs (Decidable (_ = _))
  | .closed .. => inferInstanceAs (Decidable (_ ∨ _))

/-- The sends run into a failure. -/
def sendFails : List Chunk → List SendResult → Bool
  | [], _ => false
  | _ :: _, [] => false
  | _ :: rest, result :: results =>
    if result.wr = -1 then !result.again else decide (result.wr = 0) || sendFails rest results

namespace Transfer

variable {transfer before after : Transfer} {side : Side} {results : List SendResult}

/-- Each context is released once, when its event is closed. -/
structure TornDown (transfer : Transfer) : Prop where
  good : ∀ entry ∈ transfer.log, entry.Good
  released : ∀ side, transfer.log.count (.released side side) = if (transfer.leg side).live then 0 else 1

/-- Both legs live, with the callbacks that `on_connected_write` installs. -/
structure Relaying (transfer : Transfer) : Prop where
  live : ∀ side, (transfer.leg side).live = true
  readCb : ∀ side, (transfer.leg side).readCb = some side.readCb
  writeCb : ∀ side, (transfer.leg side).writeCb = none
  eventCb : ∀ side, (transfer.leg side).eventCb = some side.eventCb
  ctx : ∀ side, (transfer.leg side).ctx = side
  linked : ∀ side, transfer.linked side = true

/-- One leg is left to send its bytes. -/
structure Draining (transfer : Transfer) (side : Side) : Prop where
  live : (transfer.leg side).live = true
  gone : (transfer.leg side.other).live = false
  readCb : (transfer.leg side).readCb = none
  writeCb : (transfer.leg side).writeCb = some side.writeCb
  eventCb : (transfer.leg side).eventCb = some side.other.finallyCb
  ctx : (transfer.leg side).ctx = side

def Over (transfer : Transfer) : Prop := ∀ side, (transfer.leg side).live = false

/-- The relay as it begins. -/
structure Begun (transfer : Transfer) : Prop where
  relaying : transfer.Relaying
  log : transfer.log = []

/-- A leg that drains meets no failure and no end, and the end of the stream finds no bytes
left to send; neither does a failure whose final callback takes the other leg down. -/
def graceful (transfer : Transfer) : TransferInput → Bool
  | .read .. => true
  | .again side results =>
      (transfer.leg side).writeCb.isNone || !sendFails (transfer.leg side).outBuffer results
  | .writable side results =>
      (transfer.leg side).writeCb.isNone || !sendFails (transfer.leg side).outBuffer results
  | .finish side error results => (transfer.leg side).writeCb.isNone &&
    (decide ((transfer.leg side).outBuffer = []) || (error &&
      !sendFails ((transfer.leg side.other).outBuffer ++ (transfer.leg side).inBuffer)
        (if (transfer.leg side).inBuffer = [] then [] else results)))

structure Adjusts (side : Side) (before after : Transfer) : Prop where
  log : after.log = before.log
  linked : after.linked = before.linked
  other : after.leg side.other = before.leg side.other
  live : (after.leg side).live = (before.leg side).live
  readCb : (after.leg side).readCb = (before.leg side).readCb
  writeCb : (after.leg side).writeCb = (before.leg side).writeCb
  eventCb : (after.leg side).eventCb = (before.leg side).eventCb
  ctx : (after.leg side).ctx = (before.leg side).ctx

theorem Adjusts.refl (side : Side) (transfer : Transfer) : Adjusts side transfer transfer :=
  ⟨rfl, rfl, rfl, rfl, rfl, rfl, rfl, rfl⟩

theorem Adjusts.trans {middle : Transfer} (first : Adjusts side before middle)
    (second : Adjusts side middle after) :
    Adjusts side before after :=
  ⟨second.log.trans first.log, second.linked.trans first.linked, second.other.trans first.other,
    second.live.trans first.live, second.readCb.trans first.readCb, second.writeCb.trans first.writeCb,
    second.eventCb.trans first.eventCb, second.ctx.trans first.ctx⟩

@[simp] theorem modify_self (transfer : Transfer) (side : Side) (f : Leg → Leg) :
    (transfer.modify side f).leg side = f (transfer.leg side) := Function.update_self ..

@[simp] theorem modify_other (transfer : Transfer) (side : Side) (f : Leg → Leg) :
    (transfer.modify side f).leg side.other = transfer.leg side.other := Function.update_of_ne side.other_ne ..

@[simp] theorem modify_of_other (transfer : Transfer) (side : Side) (f : Leg → Leg) :
    (transfer.modify side.other f).leg side = transfer.leg side := Function.update_of_ne side.ne_other ..

theorem cases_side {P : Side → Prop} (side : Side) (own : P side) (other : P side.other) (every : Side) :
    P every := by
  cases side <;> cases every <;> assumption

/-- What holds of the leg behind the step and of the other one before it. -/
theorem Adjusts.every {P : Side → Leg → Prop} (adjusts : Adjusts side before after)
    (own : P side (after.leg side)) (other : P side.other (before.leg side.other)) (leg : Side) :
    P leg (after.leg leg) := by
  refine cases_side (P := fun leg => P leg (after.leg leg)) side own ?_ leg
  rw [adjusts.other]
  exact other

theorem Adjusts.relaying (adjusts : Adjusts side before after) (relaying : before.Relaying) :
    after.Relaying := by
  refine ⟨adjusts.every (P := fun _ leg => leg.live = true) ?_ (relaying.live _),
    adjusts.every (P := fun side leg => leg.readCb = some side.readCb) ?_ (relaying.readCb _),
    adjusts.every (P := fun _ leg => leg.writeCb = none) ?_ (relaying.writeCb _),
    adjusts.every (P := fun side leg => leg.eventCb = some side.eventCb) ?_ (relaying.eventCb _),
    adjusts.every (P := fun side leg => leg.ctx = side) ?_ (relaying.ctx _), ?_⟩
  · exact adjusts.live.trans (relaying.live side)
  · exact adjusts.readCb.trans (relaying.readCb side)
  · exact adjusts.writeCb.trans (relaying.writeCb side)
  · exact adjusts.eventCb.trans (relaying.eventCb side)
  · exact adjusts.ctx.trans (relaying.ctx side)
  · rw [adjusts.linked]
    exact relaying.linked

theorem Adjusts.draining (adjusts : Adjusts side before after) (draining : before.Draining side) :
    after.Draining side :=
  ⟨adjusts.live.trans draining.live, adjusts.other ▸ draining.gone, adjusts.readCb.trans draining.readCb,
    adjusts.writeCb.trans draining.writeCb, adjusts.eventCb.trans draining.eventCb,
    adjusts.ctx.trans draining.ctx⟩

theorem Adjusts.tornDown (adjusts : Adjusts side before after) (tornDown : before.TornDown) :
    after.TornDown := by
  refine ⟨adjusts.log ▸ tornDown.good, cases_side side ?_ ?_⟩
  · rw [adjusts.log, adjusts.live]
    exact tornDown.released side
  · rw [adjusts.log, adjusts.other]
    exact tornDown.released side.other

/-- What is logged is good, and a context is released where its event dies. -/
theorem TornDown.append {entries : List TransferEntry} (tornDown : before.TornDown)
    (log : after.log = before.log ++ entries) (good : ∀ entry ∈ entries, entry.Good)
    (deaths : ∀ side, (if (before.leg side).live then 0 else 1) + entries.count (.released side side) =
      if (after.leg side).live then 0 else 1) : after.TornDown := by
  refine ⟨fun entry member => ?_, fun side => ?_⟩
  · rw [log] at member
    obtain old | new := List.mem_append.mp member
    · exact tornDown.good entry old
    · exact good entry new
  · rw [log, List.count_append, tornDown.released side]
    exact deaths side

theorem called_tornDown (tornDown : transfer.TornDown) (side : Side) :
    (transfer.record (.called side side)).TornDown := by
  refine tornDown.append rfl (fun entry member => ?_) fun _ => rfl
  rw [List.mem_singleton.mp member]
  rfl

/-- The event and its context go together. -/
theorem free_tornDown {freed : Transfer} (tornDown : transfer.TornDown)
    (free : transfer.eventFree side = some freed)
    (sent : (transfer.leg side).outBuffer = [] ∨ (transfer.leg side).failed = true) :
    (freed.contextFree side side).TornDown ∧ (freed.leg side).live = false ∧
      freed.leg side.other = transfer.leg side.other ∧ freed.linked = transfer.linked := by
  simp only [eventFree] at free
  split at free
  · rename_i live
    cases free
    refine ⟨tornDown.append (List.append_assoc ..) (fun entry member => ?_) (cases_side side ?_ ?_),
      ?_, ?_, rfl⟩
    · obtain rfl | rfl := List.mem_pair.mp member
      · exact sent.imp (fun empty => by rw [empty]; rfl) id
      · rfl
    · simp only [contextFree, record, modify, Function.update_self, live, if_true, List.count_append,
        List.count_singleton_self]
      rfl
    · have apart : (TransferEntry.released side side) ≠ .released side.other side.other := by
        simp only [ne_eq, TransferEntry.released.injEq, and_self, side.ne_other, not_false_eq_true]
      have rest : (([.closed side (transfer.leg side).outBuffer.length (transfer.leg side).failed] ++
          [.released side side] : List TransferEntry)).count (.released side.other side.other) = 0 := by
        rw [List.count_eq_zero]
        intro member
        obtain closed | released := List.mem_pair.mp member
        · cases closed
        · exact apart released.symm
      rw [rest, contextFree, record, modify_other]
      rfl
    · rw [modify_self]
    · rw [modify_other]
      rfl
  · cases free

theorem callEvent_relaying (event : (transfer.leg side).eventCb = some side.eventCb)
    (ctx : (transfer.leg side).ctx = side) : transfer.callEvent side =
      disconnectEvent side side.other.writeCb side.finallyCb (transfer.record (.called side side)) side := by
  cases side <;> simp only [callEvent, event, Side.eventCb, ctx] <;> rfl

theorem disconnectEvent_cases {write : RelayWriteCb} {finally' : RelayEventCb} {given : Side}
    (disconnected : disconnectEvent side write finally' transfer given = some after) :
    ∃ freed gone, transfer.eventFree side = some freed ∧
      gone = (freed.contextFree side side).unlink side.other ∧
      ((gone.leg side.other).outBuffer = [] ∧ (∃ last, gone.eventFree side.other = some last ∧
          after = last.contextFree side.other side.other) ∨
        (gone.leg side.other).outBuffer ≠ [] ∧
          after = gone.setCb side.other none (some write) (some finally') side.other) := by
  simp only [disconnectEvent, Option.bind_eq_bind] at disconnected
  split at disconnected
  · obtain ⟨freed, frees, rest⟩ := Option.bind_eq_some_iff.mp disconnected
    refine ⟨freed, _, frees, rfl, ?_⟩
    split at rest
    · rename_i empty
      obtain ⟨last, frees', rest⟩ := Option.bind_eq_some_iff.mp rest
      exact .inl ⟨empty, last, frees', (Option.some.inj rest).symm⟩
    · rename_i unsent
      exact .inr ⟨unsent, (Option.some.inj rest).symm⟩
  · cases disconnected

/-- A leg is gone, and the other one with it unless it has bytes to send. -/
structure Fallen (before : Transfer) (side : Side) (after : Transfer) : Prop where
  tornDown : after.TornDown
  dead : (after.leg side).live = false
  other : (before.leg side.other).outBuffer = [] ∧ (after.leg side.other).live = false ∨
    (before.leg side.other).outBuffer ≠ [] ∧ after.Draining side.other

/-- The event callback while both legs live: the leg's bytes are sent or its socket has
failed, and the other leg dies with it or drains. -/
theorem disconnectEvent_relaying (tornDown : transfer.TornDown) (live : (transfer.leg side.other).live = true)
    (sent : (transfer.leg side).outBuffer = [] ∨ (transfer.leg side).failed = true)
    (disconnected : disconnectEvent side side.other.writeCb side.finallyCb transfer side = some after) :
    Fallen transfer side after := by
  obtain ⟨freed, gone, frees, rfl, rest⟩ := disconnectEvent_cases disconnected
  obtain ⟨torn, dead, kept, -⟩ := free_tornDown tornDown frees sent
  have other :
      ((freed.contextFree side side).unlink side.other).leg side.other = transfer.leg side.other := kept
  rw [other] at rest
  obtain ⟨empty, last, frees', rfl⟩ | ⟨unsent, rfl⟩ := rest
  · have torn' : ((freed.contextFree side side).unlink side.other).TornDown := ⟨torn.good, torn.released⟩
    obtain ⟨torn, dead', kept', -⟩ := free_tornDown torn' frees' (.inl (other ▸ empty))
    rw [side.other_other] at kept'
    exact ⟨torn, (congrArg Leg.live kept').trans dead, .inl ⟨empty, dead'⟩⟩
  · have same : ∀ leg, ((((freed.contextFree side side).unlink side.other).setCb side.other none
        (some side.other.writeCb) (some side.finallyCb) side.other).leg leg).live = (freed.leg leg).live := by
      refine cases_side side.other ?_ ?_
      · rw [setCb, modify_self]
        rfl
      · rw [setCb, modify_other]
        rfl
    refine ⟨⟨torn.good, fun leg => ?_⟩, (same side).trans dead, .inr ⟨unsent, ?_⟩⟩
    · rw [same]
      exact torn.released leg
    · refine ⟨(same _).trans ((congrArg Leg.live kept).trans live), ?_, ?_, ?_, ?_, ?_⟩
      · rw [side.other_other]
        exact (same side).trans dead
      · rw [setCb, modify_self]
      · rw [setCb, modify_self]
      · rw [setCb, modify_self, side.other_other]
      · rw [setCb, modify_self]

theorem closeInternal_relaying (relaying : transfer.Relaying) (tornDown : transfer.TornDown)
    (sent : (transfer.leg side).outBuffer = [] ∨ (transfer.leg side).failed = true)
    (closed : transfer.closeInternal side = some after) :
    Fallen transfer side after := by
  obtain ⟨middle, called, rest⟩ := Option.bind_eq_some_iff.mp closed
  have event : ((transfer.modify side fun leg => { leg with writeEnable := false }).leg side).eventCb =
      some side.eventCb := by
    rw [modify_self]
    exact relaying.eventCb side
  have ctx : ((transfer.modify side fun leg => { leg with writeEnable := false }).leg side).ctx = side := by
    rw [modify_self]
    exact relaying.ctx side
  have silenced : Adjusts side transfer (transfer.modify side fun leg => { leg with writeEnable := false }) :=
    ⟨rfl, rfl, modify_other .., by rw [modify_self], by rw [modify_self], by rw [modify_self],
      by rw [modify_self], by rw [modify_self]⟩
  rw [callEvent_relaying event ctx] at called
  have torn := called_tornDown (silenced.tornDown tornDown) side
  have result := disconnectEvent_relaying torn ((silenced.relaying relaying).live side.other)
    (by rw [record, modify_self]; exact sent) called
  have other := result.other
  rw [record, modify_other] at other
  rw [if_neg (by rw [result.dead]; decide)] at rest
  cases rest
  exact ⟨result.tornDown, result.dead, other⟩

theorem modify_adjusts (transfer : Transfer) (side : Side) (f : Leg → Leg)
    (keeps : ∀ leg, (f leg).live = leg.live ∧ (f leg).readCb = leg.readCb ∧ (f leg).writeCb = leg.writeCb ∧
      (f leg).eventCb = leg.eventCb ∧ (f leg).ctx = leg.ctx) :
    Adjusts side transfer (transfer.modify side f) := by
  obtain ⟨live, readCb, writeCb, eventCb, ctx⟩ := keeps (transfer.leg side)
  constructor
  · rfl
  · rfl
  · exact modify_other ..
  all_goals rw [modify_self]; assumption

theorem sendLoop_stops
    (stops : ¬((transfer.leg side).writeEnable = true ∧ (transfer.leg side).outBuffer ≠ [])) :
    sendLoop side results transfer = some (transfer, true) := by
  cases results <;> rw [sendLoop, if_neg stops]

/-- The sends stop on an empty buffer or on EAGAIN, or close the leg behind a failure. -/
theorem sendLoop_cases {going : Bool} (enabled : (transfer.leg side).writeEnable = true)
    (sent : sendLoop side results transfer = some (after, going)) :
    sendFails (transfer.leg side).outBuffer results = false ∧ going = true ∧ Adjusts side transfer after ∨
      sendFails (transfer.leg side).outBuffer results = true ∧ going = false ∧ ∃ failing,
        Adjusts side transfer failing ∧ (failing.leg side).failed = true ∧
        failing.closeInternal side = some after := by
  induction results generalizing transfer with
  | nil =>
    cases chunks : (transfer.leg side).outBuffer with
    | nil =>
      rw [sendLoop_stops fun both => both.2 chunks] at sent
      cases sent
      exact .inl ⟨rfl, rfl, .refl side _⟩
    | cons first rest =>
      rw [sendLoop, if_pos ⟨enabled, by rw [chunks]; exact nofun⟩] at sent
      cases sent
  | cons result results ih =>
    cases chunks : (transfer.leg side).outBuffer with
    | nil =>
      rw [sendLoop_stops fun both => both.2 chunks] at sent
      cases sent
      exact .inl ⟨rfl, rfl, .refl side _⟩
    | cons first rest =>
      rw [sendLoop, if_pos ⟨enabled, by rw [chunks]; exact nofun⟩] at sent
      rw [sendFails]
      have failing := modify_adjusts transfer side (fun leg => { leg with failed := true })
        fun _ => ⟨rfl, rfl, rfl, rfl, rfl⟩
      have failed : ((transfer.modify side fun leg => { leg with failed := true }).leg side).failed = true := by
        rw [modify_self]
      split at sent
      · rename_i error
        rw [if_pos error]
        split at sent
        · rename_i again
          rw [sendLoop_stops (by rw [modify_self]; exact fun both => nomatch both.1)] at sent
          cases sent
          rw [again]
          exact .inl ⟨rfl, rfl, modify_adjusts _ side _ fun _ => ⟨rfl, rfl, rfl, rfl, rfl⟩⟩
        · rename_i broken
          obtain ⟨closed, closes, same⟩ := Option.map_eq_some_iff.mp sent
          cases same
          rw [Bool.eq_false_of_not_eq_true broken]
          exact .inr ⟨rfl, rfl, _, failing, failed, closes⟩
      · rename_i accepted
        rw [if_neg accepted]
        split at sent
        · rename_i nothing
          obtain ⟨closed, closes, same⟩ := Option.map_eq_some_iff.mp sent
          cases same
          rw [decide_eq_true nothing]
          exact .inr ⟨rfl, rfl, _, failing, failed, closes⟩
        · rename_i something
          have tail := modify_adjusts transfer side (fun leg => { leg with outBuffer := leg.outBuffer.tail })
            fun _ => ⟨rfl, rfl, rfl, rfl, rfl⟩
          have result := ih (by rw [modify_self]; exact enabled) sent
          rw [modify_self, chunks, List.tail_cons] at result
          rw [decide_eq_false something, Bool.false_or]
          obtain ⟨sends, goes, adjusts⟩ | ⟨fails, stops, failing, adjusts, failed, closes⟩ := result
          · exact .inl ⟨sends, goes, tail.trans adjusts⟩
          · exact .inr ⟨fails, stops, failing, tail.trans adjusts, failed, closes⟩

theorem writeData_cases (enabled : (transfer.leg side).writeEnable = true)
    (written : transfer.writeData side results = some after) :
    sendFails (transfer.leg side).outBuffer results = false ∧
        (∃ sent, Adjusts side transfer sent ∧ sent.callWrite side = some after) ∨
      sendFails (transfer.leg side).outBuffer results = true ∧ ∃ failing,
        Adjusts side transfer failing ∧ (failing.leg side).failed = true ∧
        failing.closeInternal side = some after := by
  rw [writeData, if_pos enabled] at written
  obtain ⟨⟨middle, going⟩, sent, rest⟩ := Option.bind_eq_some_iff.mp written
  obtain ⟨sends, rfl, adjusts⟩ | ⟨fails, rfl, failing, adjusts, failed, closes⟩ := sendLoop_cases enabled sent
  · exact .inl ⟨sends, middle, adjusts, rest⟩
  · cases rest
    exact .inr ⟨fails, failing, adjusts, failed, closes⟩

theorem writeData_relaying (relaying : transfer.Relaying) (tornDown : transfer.TornDown)
    (enabled : (transfer.leg side).writeEnable = true)
    (written : transfer.writeData side results = some after) :
    sendFails (transfer.leg side).outBuffer results = false ∧ Adjusts side transfer after ∨
      sendFails (transfer.leg side).outBuffer results = true ∧ Fallen transfer side after := by
  obtain ⟨sends, sent, adjusts, called⟩ | ⟨fails, failing, adjusts, failed, closes⟩ :=
    writeData_cases enabled written
  · have silent := (adjusts.relaying relaying).writeCb side
    simp only [callWrite, silent] at called
    cases called
    exact .inl ⟨sends, adjusts⟩
  · have fallen := closeInternal_relaying (adjusts.relaying relaying) (adjusts.tornDown tornDown)
      (.inr failed) closes
    exact .inr ⟨fails, fallen.tornDown, fallen.dead, adjusts.other ▸ fallen.other⟩

/-- A leg that has sent all its bytes goes with its context. -/
theorem callWrite_draining (draining : transfer.Draining side) (tornDown : transfer.TornDown)
    (called : transfer.callWrite side = some after) : after.TornDown ∧ (after.Draining side ∨ after.Over) := by
  have call : disconnectWrite side (transfer.record (.called side side)) side = some after := by
    rw [← called, callWrite, draining.writeCb, draining.ctx]
    cases side <;> rfl
  have torn := called_tornDown tornDown side
  rw [disconnectWrite] at call
  split at call
  · rename_i sent
    obtain ⟨freed, frees, rest⟩ := Option.bind_eq_some_iff.mp call
    cases rest
    obtain ⟨torn, dead, kept, -⟩ := free_tornDown torn frees (.inl sent)
    exact ⟨torn, .inr (cases_side side dead ((congrArg Leg.live kept).trans draining.gone))⟩
  · cases call
    exact ⟨torn, .inl ⟨draining.live, draining.gone, draining.readCb, draining.writeCb, draining.eventCb,
      draining.ctx⟩⟩

theorem writeData_draining (draining : transfer.Draining side) (tornDown : transfer.TornDown)
    (enabled : (transfer.leg side).writeEnable = true)
    (sends : sendFails (transfer.leg side).outBuffer results = false)
    (written : transfer.writeData side results = some after) :
    after.TornDown ∧ (after.Draining side ∨ after.Over) := by
  obtain ⟨-, sent, adjusts, called⟩ | ⟨fails, -⟩ := writeData_cases enabled written
  · exact callWrite_draining (adjusts.draining draining) (adjusts.tornDown tornDown) called
  · rw [sends] at fails
    cases fails

/-- The bytes go to the other leg, which may fail to send; then this leg is left alone. -/
theorem relayRead_relaying (relaying : transfer.Relaying) (tornDown : transfer.TornDown)
    (relayed : relayRead side transfer side results = some after) :
    sendFails ((transfer.leg side.other).outBuffer ++ (transfer.leg side).inBuffer) results = false ∧
        after.Relaying ∧ after.TornDown ∧ after.leg side = { transfer.leg side with inBuffer := [] } ∨
      sendFails ((transfer.leg side.other).outBuffer ++ (transfer.leg side).inBuffer) results = true ∧
        after.TornDown ∧ ((transfer.leg side).outBuffer = [] ∧ after.Over ∨
          (transfer.leg side).outBuffer ≠ [] ∧ after.Draining side) := by
  rw [relayRead, if_pos ⟨rfl, relaying.linked side⟩] at relayed
  have emptied := modify_adjusts transfer side (fun leg => { leg with inBuffer := [] })
    fun _ => ⟨rfl, rfl, rfl, rfl, rfl⟩
  have filled := modify_adjusts (transfer.modify side fun leg => { leg with inBuffer := [] }) side.other
    (fun leg => { leg with outBuffer := leg.outBuffer ++ (transfer.leg side).inBuffer, writeEnable := true })
    fun _ => ⟨rfl, rfl, rfl, rfl, rfl⟩
  obtain ⟨written, writes, restored⟩ := Option.bind_eq_some_iff.mp relayed
  have result := writeData_relaying (filled.relaying (emptied.relaying relaying))
    (filled.tornDown (emptied.tornDown tornDown)) (by rw [modify_self]) writes
  rw [modify_self, modify_other] at result
  obtain ⟨sends, sent⟩ | ⟨fails, fallen⟩ := result
  · have still := sent.relaying (filled.relaying (emptied.relaying relaying))
    rw [if_pos (still.live side.other)] at restored
    cases restored
    have bits (ev : Bool) := modify_adjusts written side.other (fun leg => { leg with writeEnable := ev })
      fun _ => ⟨rfl, rfl, rfl, rfl, rfl⟩
    have kept (ev : Bool) := (bits ev).other.trans (sent.other.trans filled.other)
    simp only [side.other_other, modify_self] at kept
    refine .inl ⟨sends, (bits _).relaying still, (bits _).tornDown ?_, kept _⟩
    exact sent.tornDown (filled.tornDown (emptied.tornDown tornDown))
  · rw [if_neg (by rw [fallen.dead]; decide)] at restored
    cases restored
    have other := fallen.other
    rw [side.other_other, modify_of_other, modify_self] at other
    refine .inr ⟨fails, fallen.tornDown, other.imp (fun gone => ⟨gone.1, ?_⟩) id⟩
    exact cases_side side gone.2 fallen.dead

theorem callRead_relaying (relaying : transfer.Relaying) : transfer.callRead side results =
    relayRead side (transfer.record (.called side side)) side results := by
  have read := relaying.readCb side
  have ctx := relaying.ctx side
  cases side <;> simp only [callRead, read, Side.readCb, ctx] <;> rfl

/-- The call of the read callback leaves its leg with the bytes it had to send. -/
theorem callRead_cases (relaying : transfer.Relaying) (tornDown : transfer.TornDown)
    (called : transfer.callRead side results = some after) :
    sendFails ((transfer.leg side.other).outBuffer ++ (transfer.leg side).inBuffer) results = false ∧
        after.Relaying ∧ after.TornDown ∧ after.leg side = { transfer.leg side with inBuffer := [] } ∨
      sendFails ((transfer.leg side.other).outBuffer ++ (transfer.leg side).inBuffer) results = true ∧
        after.TornDown ∧ ((transfer.leg side).outBuffer = [] ∧ after.Over ∨
          (transfer.leg side).outBuffer ≠ [] ∧ after.Draining side) := by
  rw [callRead_relaying relaying] at called
  have noted : (transfer.record (.called side side)).Relaying :=
    ⟨relaying.live, relaying.readCb, relaying.writeCb, relaying.eventCb, relaying.ctx, relaying.linked⟩
  have result := relayRead_relaying noted (called_tornDown tornDown side) called
  exact result

end Transfer

end Devent.Docks
