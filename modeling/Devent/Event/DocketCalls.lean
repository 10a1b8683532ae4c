import Devent.Event.Evolution

/-! The cases of each call of utils.c, write.c and read.c, and that a docket evolves in it. -/
namespace Devent.Docket

variable {docket before middle after : Docket} {id : Nat} {fd : Int} {acts : List Act} {present : Bool}

theorem closing_evolves (sound : docket.Sound) (id : Nat) : Evolves docket (docket.closing id) := by
  have touched := touch_evolves sound .use (by decide) id
  exact touched.trans (modify_evolves (f := fun event => { event with ev := deventNone }) touched.sound
    (fun _ => rfl) id)

theorem closeInternal_cases {onEvent : List Act} (closed : docket.closeInternal onEvent id = some after) :
    ∃ middle, (docket.closing id).callback (docket.event id).eventCb onEvent id = some middle ∧
      (middle.findEvent (docket.heap id).fd = none ∧ after = middle ∨
        ∃ found, middle.findEvent (docket.heap id).fd = some found ∧
          after = (middle.touch .close found).freeEvent found) := by
  obtain ⟨middle, called, closed⟩ := Option.bind_eq_some_iff.mp closed
  refine ⟨middle, called, ?_⟩
  split at closed
  · rename_i gone
    exact .inl ⟨gone, (Option.some.inj closed).symm⟩
  · rename_i found there
    exact .inr ⟨found, there, (Option.some.inj closed).symm⟩

theorem closeInternal_evolves {onEvent : List Act} (sound : docket.Sound)
    (closed : docket.closeInternal onEvent id = some after) : Evolves docket after := by
  obtain ⟨middle, called, rest⟩ := closeInternal_cases closed
  have first := closing_evolves sound id
  have both := first.trans (callback_evolves first.sound called)
  obtain ⟨-, rfl⟩ | ⟨found, there, rfl⟩ := rest
  · exact both
  · exact both.trans (close_evolves both.sound (both.sound.known _ _ there))

theorem keeps_disarm (event : DocketEvent) : ((event.setWrite false).updateEvents).isOpen = event.isOpen := rfl

theorem keeps_tail (event : DocketEvent) :
    ({ event with outBuffer := event.outBuffer.tail } : DocketEvent).isOpen = event.isOpen := rfl

/-- The rounds of the send loop up to its end. -/
inductive Sends (onEvent : List Act) (id : Nat) : List SendResult → Docket → Docket → Bool → Prop
  | done {results : List SendResult} {docket : Docket}
      (stops : ¬((docket.event id).ev.write = true ∧ 0 < (docket.event id).outLength)) :
      Sends onEvent id results docket docket true
  | refused {result : SendResult} {rest : List SendResult} {docket after : Docket} {going : Bool}
      (sends : (docket.event id).ev.write = true ∧ 0 < (docket.event id).outLength)
      (failed : result.wr = -1) (again : result.again = true)
      (later : Sends onEvent id rest (docket.modify id fun e => (e.setWrite false).updateEvents) after going) :
      Sends onEvent id (result :: rest) docket after going
  | broken {result : SendResult} {rest : List SendResult} {docket after : Docket}
      (sends : (docket.event id).ev.write = true ∧ 0 < (docket.event id).outLength)
      (broken : result.wr = -1 ∧ ¬result.again = true ∨ result.wr = 0)
      (closes : docket.closeInternal onEvent id = some after) :
      Sends onEvent id (result :: rest) docket after false
  | sent {result : SendResult} {rest : List SendResult} {docket after : Docket} {going : Bool}
      (sends : (docket.event id).ev.write = true ∧ 0 < (docket.event id).outLength)
      (accepted : result.wr ≠ -1) (something : result.wr ≠ 0)
      (later : Sends onEvent id rest (docket.modify id fun e => { e with outBuffer := e.outBuffer.tail })
        after going) :
      Sends onEvent id (result :: rest) docket after going

theorem sendLoop_sends {onEvent : List Act} {results : List SendResult} {going : Bool}
    (sent : sendLoop onEvent results id docket = some (after, going)) :
    Sends onEvent id results docket after going := by
  induction results generalizing docket with
  | nil =>
    rw [sendLoop] at sent
    split at sent
    · cases sent
    · rename_i stops
      cases sent
      exact .done stops
  | cons result rest ih =>
    rw [sendLoop] at sent
    split at sent
    · rename_i sends
      split at sent
      · rename_i failed
        split at sent
        · rename_i again
          exact .refused sends failed again (ih sent)
        · rename_i broken
          obtain ⟨closed, closes, same⟩ := Option.map_eq_some_iff.mp sent
          cases same
          exact .broken sends (.inl ⟨failed, broken⟩) closes
      · rename_i accepted
        split at sent
        · rename_i nothing
          obtain ⟨closed, closes, same⟩ := Option.map_eq_some_iff.mp sent
          cases same
          exact .broken sends (.inr nothing) closes
        · rename_i something
          exact .sent sends accepted something (ih sent)
    · rename_i stops
      cases sent
      exact .done stops

theorem Sends.evolves {onEvent : List Act} {results : List SendResult} {going : Bool}
    (sends : Sends onEvent id results docket after going) (sound : docket.Sound) :
    Evolves docket after ∧ (going = true → after.live id = docket.live id) := by
  induction sends with
  | done => exact ⟨.refl sound, fun _ => rfl⟩
  | @refused _ _ docket _ _ _ _ _ _ ih =>
    have step := modify_evolves sound keeps_disarm id
    obtain ⟨later, lives⟩ := ih step.sound
    exact ⟨step.trans later, fun still => (lives still).trans (live_modify keeps_disarm docket id id)⟩
  | broken _ _ closes => exact ⟨closeInternal_evolves sound closes, nofun⟩
  | @sent _ _ docket _ _ _ _ _ _ ih =>
    have step := modify_evolves sound keeps_tail id
    obtain ⟨later, lives⟩ := ih step.sound
    exact ⟨step.trans later, fun still => (lives still).trans (live_modify keeps_tail docket id id)⟩

theorem keeps_arm (event : DocketEvent) : ((event.setWrite true).updateEvents).isOpen = event.isOpen := rfl

theorem writeData_cases {script : FlushActs} (written : docket.writeData script id = some after) :
    ∃ middle going, ((docket.event id).ev.write = true ∧
        sendLoop script.onEvent script.results id (docket.touch .use id) = some (middle, going) ∨
      (docket.event id).ev.write = false ∧ going = true ∧
        middle = (docket.touch .use id).modify id fun e => (e.setWrite true).updateEvents) ∧
      (going = false ∧ after = middle ∨
        going = true ∧ middle.callback (middle.event id).writeCb script.onWrite id = some after) := by
  simp only [writeData, Option.bind_eq_bind] at written
  split at written
  · rename_i armed
    obtain ⟨⟨middle, going⟩, sent, written⟩ := Option.bind_eq_some_iff.mp written
    refine ⟨middle, going, .inl ⟨armed, sent⟩, ?_⟩
    cases going with
    | false => exact .inl ⟨rfl, (Option.some.inj written).symm⟩
    | true => exact .inr ⟨rfl, written⟩
  · rename_i disarmed
    exact ⟨_, true, .inr ⟨Bool.eq_false_of_not_eq_true disarmed, rfl, rfl⟩, .inr ⟨rfl, written⟩⟩

theorem writeData_evolves {script : FlushActs} (sound : docket.Sound)
    (written : docket.writeData script id = some after) : Evolves docket after := by
  have used := touch_evolves sound .use (by decide) id
  obtain ⟨middle, going, sent, rest⟩ := writeData_cases written
  have first : Evolves docket middle := by
    obtain ⟨-, sends⟩ | ⟨-, -, rfl⟩ := sent
    · exact used.trans ((sendLoop_sends sends).evolves used.sound).1
    · exact used.trans (modify_evolves used.sound keeps_arm id)
  obtain ⟨-, rfl⟩ | ⟨-, called⟩ := rest
  · exact first
  · exact first.trans (callback_evolves first.sound called)

theorem keeps_shaken (event : DocketEvent) :
    ({ event with sslHandshaking := false } : DocketEvent).isOpen = event.isOpen := rfl

theorem doSslHandshake_cases {handshake : HandshakeActs} {ready : Bool}
    (shaken : docket.doSslHandshake handshake id = some (after, ready)) :
    (docket.event id).ssl = true ∧ (docket.event id).sslHandshaking = true ∧
        (handshake = .pending ∧ ready = false ∧ after = docket ∨
          (∃ onEvent, handshake = .failed onEvent ∧ ready = false ∧
            docket.closeInternal onEvent id = some after) ∨
          ∃ listener, handshake = .done listener ∧ ready = true ∧
            (docket.modify id fun event => { event with sslHandshaking := false }).callback
              (docket.event id).listenerCb listener id = some after) ∨
      ((docket.event id).ssl && (docket.event id).sslHandshaking) = false ∧ ready = true ∧ after = docket := by
  by_cases shaking : (docket.event id).ssl = true ∧ (docket.event id).sslHandshaking = true
  · refine .inl ⟨shaking.1, shaking.2, ?_⟩
    cases handshake with
    | pending =>
      rw [doSslHandshake, if_pos shaking] at shaken
      cases shaken
      exact .inl ⟨rfl, rfl, rfl⟩
    | failed onEvent =>
      rw [doSslHandshake, if_pos shaking] at shaken
      obtain ⟨closed, closes, same⟩ := Option.map_eq_some_iff.mp shaken
      cases same
      exact .inr (.inl ⟨onEvent, rfl, rfl, closes⟩)
    | done listener =>
      simp only [doSslHandshake, if_pos shaking] at shaken
      obtain ⟨heard, called, same⟩ := Option.map_eq_some_iff.mp shaken
      rw [event_modify] at called
      cases same
      exact .inr (.inr ⟨listener, rfl, rfl, called⟩)
  · rw [doSslHandshake.eq_def, if_neg shaking] at shaken
    cases shaken
    exact .inr ⟨by rw [← Bool.not_eq_true, Bool.and_eq_true]; exact shaking, rfl, rfl⟩

theorem doSslHandshake_evolves {handshake : HandshakeActs} {ready : Bool} (sound : docket.Sound)
    (shaken : docket.doSslHandshake handshake id = some (after, ready)) : Evolves docket after := by
  obtain ⟨-, -, ⟨-, -, rfl⟩ | ⟨onEvent, -, -, closes⟩ | ⟨listener, -, -, called⟩⟩ | ⟨-, -, rfl⟩ :=
    doSslHandshake_cases shaken
  · exact .refl sound
  · exact closeInternal_evolves sound closes
  · have first := modify_evolves sound keeps_shaken id
    exact first.trans (callback_evolves first.sound called)
  · exact .refl sound

theorem keeps_append (len : Nat) (event : DocketEvent) :
    ({ event with inBuffer := event.inBuffer + len } : DocketEvent).isOpen = event.isOpen := rfl

theorem received_evolves {len : Nat} {onRead : List Act} (sound : docket.Sound)
    (data : docket.received len onRead id = some after) : Evolves docket after := by
  rw [received] at data
  split at data
  · cases data
    exact .refl sound
  · have first := touch_evolves sound .append (by decide) id
    have both := first.trans (modify_evolves first.sound (keeps_append len) id)
    exact both.trans (callback_evolves both.sound data)

/-- What the loop of reads may do: stop on a result, or lose or keep the event behind the
callback of one more read. -/
theorem readLoop_cases {result : ReadResult} {onRead : List Act} {rest : List (ReadResult × List Act)}
    {last : Option (Nat × ReadResult)}
    (looped : readLoop fd ((result, onRead) :: rest) id docket = some (after, last)) :
    result.len ≤ 0 ∧ after = docket.touch .use id ∧ last = some (id, result) ∨
      ¬result.len ≤ 0 ∧ ∃ middle, (docket.touch .use id).received result.len.toNat onRead id = some middle ∧
        (middle.findEvent fd = none ∧ after = middle ∧ last = none ∨
          ∃ found, middle.findEvent fd = some found ∧
            ((middle.event found).ev.read = true ∧
              readLoop fd rest found (middle.touch .use found) = some (after, last) ∨
              (middle.event found).ev.read = false ∧ after = middle.touch .use found ∧
                last = some (found, result))) := by
  simp only [readLoop, Option.bind_eq_bind] at looped
  split at looped
  · rename_i ended
    cases looped
    exact .inl ⟨ended, rfl, rfl⟩
  · rename_i data
    obtain ⟨middle, received, looped⟩ := Option.bind_eq_some_iff.mp looped
    refine .inr ⟨data, middle, received, ?_⟩
    split at looped
    · rename_i gone
      cases looped
      exact .inl ⟨gone, rfl, rfl⟩
    · rename_i found there
      refine .inr ⟨found, there, ?_⟩
      split at looped
      · rename_i reading
        exact .inl ⟨reading, looped⟩
      · rename_i paused
        cases looped
        exact .inr ⟨Bool.eq_false_of_not_eq_true paused, rfl, rfl⟩

theorem readLoop_evolves {reads : List (ReadResult × List Act)} {last : Option (Nat × ReadResult)}
    (sound : docket.Sound) (looped : readLoop fd reads id docket = some (after, last)) :
    Evolves docket after := by
  induction reads generalizing docket id with
  | nil => cases looped
  | cons read rest ih =>
    have used := touch_evolves sound .use (by decide) id
    obtain ⟨-, rfl, -⟩ | ⟨-, middle, data, ⟨-, rfl, -⟩ | ⟨found, -, ⟨-, again⟩ | ⟨-, rfl, -⟩⟩⟩ :=
      readLoop_cases looped
    · exact used
    · exact used.trans (received_evolves used.sound data)
    · have first := used.trans (received_evolves used.sound data)
      have both := first.trans (touch_evolves first.sound .use (by decide) found)
      exact both.trans (ih both.sound again)
    · have first := used.trans (received_evolves used.sound data)
      exact first.trans (touch_evolves first.sound .use (by decide) found)

theorem endOfStream_cases {final onEvent : List Act}
    (ended : endOfStream fd docket final onEvent id = some after) :
    ∃ middle, docket.callback (decide (0 < (docket.event id).inBuffer) && (docket.event id).readCb) final id =
        some middle ∧
      (middle.findEvent fd = none ∧ after = middle ∨
        ∃ found, middle.findEvent fd = some found ∧ middle.closeInternal onEvent found = some after) := by
  simp only [endOfStream, Option.bind_eq_bind] at ended
  obtain ⟨middle, called, ended⟩ := Option.bind_eq_some_iff.mp ended
  refine ⟨middle, called, ?_⟩
  split at ended
  · rename_i gone
    exact .inl ⟨gone, (Option.some.inj ended).symm⟩
  · rename_i found there
    exact .inr ⟨found, there, ended⟩

theorem endOfStream_evolves {final onEvent : List Act} (sound : docket.Sound)
    (ended : endOfStream fd docket final onEvent id = some after) : Evolves docket after := by
  obtain ⟨middle, called, ⟨-, rfl⟩ | ⟨found, -, closed⟩⟩ := endOfStream_cases ended
  · exact callback_evolves sound called
  · have first := callback_evolves sound called
    exact first.trans (closeInternal_evolves first.sound closed)

theorem keeps_setWrite (write : Bool) (event : DocketEvent) :
    (event.setWrite write).isOpen = event.isOpen := rfl

/-- The event is used for a write, up to the flag. -/
def starting (docket : Docket) (write : Bool) (id : Nat) : Docket :=
  (docket.touch .use id).modify id fun event => event.setWrite write

theorem starting_evolves (sound : docket.Sound) (write : Bool) (id : Nat) :
    Evolves docket (docket.starting write id) := by
  have used := touch_evolves sound .use (by decide) id
  exact used.trans (modify_evolves used.sound (keeps_setWrite write) id)

/-- What follows the last result of the reads. -/
def Finishes (fd : Int) (docket : Docket) (script : ReadActs) (id : Nat) (result : ReadResult)
    (after : Docket) : Prop :=
  result.More ∧ (docket.starting true id).writeData script.flush id = some after ∨
    ¬result.More ∧ endOfStream fd docket script.final script.flush.onEvent id = some after

/-- What follows the reads. -/
def Concludes (fd : Int) (docket : Docket) (script : ReadActs) (last : Option (Nat × ReadResult))
    (after : Docket) : Prop :=
  last = none ∧ after = docket ∨ ∃ found result, last = some (found, result) ∧
    Finishes fd docket script found result after

theorem onEventRead_cases {script : ReadActs} (read : docket.onEventRead script id = some after) :
    ((docket.starting false id).event id).ev.read = false ∧
        after = (docket.starting false id).modify id DocketEvent.updateEvents ∨
      ((docket.starting false id).event id).ev.read = true ∧ ∃ middle ready,
        (docket.starting false id).doSslHandshake script.handshake id = some (middle, ready) ∧
        (ready = false ∧ after = middle ∨ ready = true ∧ ∃ stopped last,
          readLoop (docket.heap id).fd script.reads id middle = some (stopped, last) ∧
          Concludes (docket.heap id).fd stopped script last after) := by
  simp only [onEventRead, Option.bind_eq_bind] at read
  split at read
  · rename_i reading
    obtain ⟨⟨middle, ready⟩, shaken, read⟩ := Option.bind_eq_some_iff.mp read
    refine .inr ⟨reading, middle, ready, shaken, ?_⟩
    cases ready with
    | false => exact .inl ⟨rfl, (Option.some.inj read).symm⟩
    | true =>
      obtain ⟨⟨stopped, last⟩, looped, read⟩ := Option.bind_eq_some_iff.mp read
      refine .inr ⟨rfl, stopped, last, looped, ?_⟩
      cases last with
      | none => exact .inl ⟨rfl, (Option.some.inj read).symm⟩
      | some pair =>
        refine .inr ⟨pair.1, pair.2, rfl, ?_⟩
        by_cases more : pair.2.More
        · exact .inl ⟨more, (if_pos more).symm.trans read⟩
        · exact .inr ⟨more, (if_neg more).symm.trans read⟩
  · rename_i paused
    exact .inl ⟨Bool.eq_false_of_not_eq_true paused, (Option.some.inj read).symm⟩

theorem finish_evolves {script : ReadActs} {result : ReadResult} (sound : docket.Sound)
    (finished : Finishes fd docket script id result after) :
    Evolves docket after := by
  obtain ⟨-, written⟩ | ⟨-, ended⟩ := finished
  · have resumed := starting_evolves sound true id
    exact resumed.trans (writeData_evolves resumed.sound written)
  · exact endOfStream_evolves sound ended

theorem concludes_evolves {script : ReadActs} {last : Option (Nat × ReadResult)} (sound : docket.Sound)
    (rest : Concludes fd docket script last after) : Evolves docket after := by
  obtain ⟨-, rfl⟩ | ⟨found, result, -, finished⟩ := rest
  · exact .refl sound
  · exact finish_evolves sound finished

theorem keeps_updateEvents (event : DocketEvent) : event.updateEvents.isOpen = event.isOpen := rfl

theorem onEventRead_evolves {script : ReadActs} (sound : docket.Sound)
    (read : docket.onEventRead script id = some after) : Evolves docket after := by
  have started := starting_evolves sound false id
  obtain ⟨-, rfl⟩ | ⟨-, middle, ready, shaken, ⟨-, rfl⟩ | ⟨-, stopped, last, looped, rest⟩⟩ :=
    onEventRead_cases read
  · exact started.trans (modify_evolves started.sound keeps_updateEvents id)
  · exact started.trans (doSslHandshake_evolves started.sound shaken)
  · have shook := started.trans (doSslHandshake_evolves started.sound shaken)
    have reads := shook.trans (readLoop_evolves shook.sound looped)
    exact reads.trans (concludes_evolves reads.sound rest)

theorem onEventWrite_evolves {handshake : HandshakeActs} {flush : FlushActs} (sound : docket.Sound)
    (written : docket.onEventWrite handshake flush id = some after) : Evolves docket after := by
  have used := touch_evolves sound .use (by decide) id
  have disarmed := used.trans (modify_evolves used.sound keeps_disarm id)
  obtain ⟨⟨middle, ready⟩, shaken, written⟩ := Option.bind_eq_some_iff.mp written
  have shook := disarmed.trans (doSslHandshake_evolves disarmed.sound shaken)
  cases ready with
  | false =>
    cases written
    exact shook
  | true =>
    have started := shook.trans (starting_evolves shook.sound true id)
    simp only [if_true] at written
    split at written
    · cases written
      exact started
    · exact started.trans (writeData_evolves started.sound written)

end Devent.Docket
