import Devent.Event.LoopHeld

/-! The handlers of utils.c, write.c and read.c do nothing to what is held but the steps they may take. -/
namespace Devent.LoopDocket
open Holdings

variable {loop middle after : LoopDocket} {id dns : Nat} {fd : Int} {act : LoopAct} {acts : List LoopAct}
  {present : Bool}

theorem closeInternal_steps {onEvent : List LoopAct} (safe : loop.held.Safe) (natural : loop.held.Natural id)
    (closed : loop.closeInternal onEvent id = some after) : Steps loop.held after.held := by
  obtain ⟨called, callback, closed⟩ := Option.bind_eq_some_iff.mp closed
  have closing := held_closing loop id
  have steps := callback_steps (closing.symm ▸ safe) callback
  rw [closing] at steps
  split at closed
  · cases closed
    exact steps
  · rename_i found there
    cases closed
    have present := found_present (steps.safe safe) natural.natural there
    have released : Steps (called.onDocket (·.touch .close found)).held _ :=
      freeEvent_steps (steps.safe safe) present.live
    exact steps.trans released

theorem sendLoop_steps {onEvent : List LoopAct} {results : List SendResult} {going : Bool} (safe : loop.held.Safe)
    (natural : loop.held.Natural id) (sent : sendLoop onEvent results id loop = some (after, going)) :
    Steps loop.held after.held := by
  induction results generalizing loop with
  | nil =>
    rw [sendLoop] at sent
    split at sent
    · cases sent
    · cases sent
      exact .refl
  | cons result rest ih =>
    rw [sendLoop] at sent
    split at sent
    · split at sent
      · split at sent
        · have same := held_modify loop id (fun e => (e.setWrite false).updateEvents) (quiet_arm _ false)
          exact steps_behind same safe fun safe => ih safe (same.symm ▸ natural) sent
        · obtain ⟨closed, closes, sent⟩ := Option.map_eq_some_iff.mp sent
          cases sent
          exact closeInternal_steps safe natural closes
      · split at sent
        · obtain ⟨closed, closes, sent⟩ := Option.map_eq_some_iff.mp sent
          cases sent
          exact closeInternal_steps safe natural closes
        · have same := held_modify loop id (fun e => { e with outBuffer := e.outBuffer.tail }) ⟨rfl, rfl, rfl, rfl⟩
          exact steps_behind same safe fun safe => ih safe (same.symm ▸ natural) sent
    · cases sent
      exact .refl

theorem writeData_steps {script : LoopFlush} (safe : loop.held.Safe) (natural : loop.held.Natural id)
    (written : loop.writeData script id = some after) : Steps loop.held after.held := by
  simp only [writeData, Option.bind_eq_bind] at written
  split at written
  · obtain ⟨⟨sent, going⟩, sending, written⟩ := Option.bind_eq_some_iff.mp written
    have steps : Steps (loop.onDocket (·.touch .use id)).held sent.held := sendLoop_steps safe natural sending
    cases going with
    | false =>
      cases written
      exact steps
    | true => exact Steps.trans steps (callback_steps (steps.safe safe) written)
  · have same : ((loop.onDocket (·.touch .use id)).modify id fun e => (e.setWrite true).updateEvents).held =
        loop.held := held_modify (loop.onDocket (·.touch .use id)) id _ (quiet_arm (loop.event id) true)
    exact steps_behind same safe fun safe => callback_steps safe written

theorem event_modify (loop : LoopDocket) (id : Nat) (f : DocketEvent → DocketEvent) :
    (loop.modify id f).event id = f (loop.event id) := Docket.event_modify loop.docket id f

/-- The end of a handshake announces the event to its listener. -/
theorem shaken_step (there : loop.Present id) (served : (loop.event id).listenerCb = true)
    (shaking : (loop.event id).ssl = true ∧ (loop.event id).sslHandshaking = true) : Step loop.held
      ((loop.modify id fun event => { event with sslHandshaking := false }).mark (.accepted id)).held := by
  have same := held_reshaken loop id (fun event => { event with sslHandshaking := false }) rfl rfl
  rw [held_mark, same, Bool.and_false]
  exact .shaken there.live served (Bool.and_eq_true_iff.mpr shaking)

theorem doSslHandshake_steps {handshake : LoopHandshake} {ready : Bool} (safe : loop.held.Safe)
    (there : loop.Present id) (shaken : loop.doSslHandshake handshake id = some (after, ready)) :
    Steps loop.held after.held := by
  by_cases shaking : (loop.event id).ssl = true ∧ (loop.event id).sslHandshaking = true
  · cases handshake with
    | pending =>
      rw [doSslHandshake, if_pos shaking] at shaken
      cases shaken
      exact .refl
    | failed onEvent =>
      rw [doSslHandshake, if_pos shaking] at shaken
      obtain ⟨closed, closes, shaken⟩ := Option.map_eq_some_iff.mp shaken
      cases shaken
      exact closeInternal_steps safe (there.natural safe) closes
    | done listener =>
      have same := held_reshaken loop id (fun event => { event with sslHandshaking := false }) rfl rfl
      rw [Bool.and_false] at same
      simp only [doSslHandshake, if_pos shaking, event_modify] at shaken
      split at shaken
      · rename_i served
        obtain ⟨called, calling, shaken⟩ := Option.map_eq_some_iff.mp shaken
        cases shaken
        have first := shaken_step there served shaking
        exact Steps.trans (.single first) (callback_steps (first.safe safe) calling)
      · rename_i unserved
        cases shaken
        rw [same]
        exact .single (.reshakes false (Bool.eq_false_of_not_eq_true unserved))
  · rw [doSslHandshake.eq_def, if_neg shaking] at shaken
    cases shaken
    exact .refl

theorem received_steps {len : Nat} {onRead : List LoopAct} (safe : loop.held.Safe)
    (received : loop.received len onRead id = some after) : Steps loop.held after.held := by
  rw [LoopDocket.received] at received
  split at received
  · cases received
    exact .refl
  · have same := held_modify (loop.onDocket (·.touch .append id)) id
      (fun event => { event with inBuffer := event.inBuffer + len }) ⟨rfl, rfl, rfl, rfl⟩
    have same : _ = loop.held := same
    exact steps_behind same safe fun safe => callback_steps safe received

/-- The event that was last read for may be gone, but its descriptor was its own. -/
theorem readLoop_steps {reads : List (ReadResult × List LoopAct)} {last : Option (Nat × ReadResult)}
    (safe : loop.held.Safe) (there : loop.held.Natural id) (natural : 0 ≤ fd)
    (looped : readLoop fd reads id loop = some (after, last)) :
    Steps loop.held after.held ∧ ∀ found result, last = some (found, result) → after.held.Natural found := by
  induction reads generalizing loop id with
  | nil => cases looped
  | cons read rest ih =>
    obtain ⟨result, onRead⟩ := read
    simp only [readLoop, Option.bind_eq_bind] at looped
    split at looped
    · cases looped
      exact ⟨.refl, fun found result last => by cases last; exact there⟩
    · obtain ⟨middle, received, looped⟩ := Option.bind_eq_some_iff.mp looped
      have steps : Steps (loop.onDocket (·.touch .use id)).held middle.held := received_steps safe received
      have safe := steps.safe safe
      split at looped
      · cases looped
        exact ⟨steps, nofun⟩
      · rename_i found entry
        have present := (found_present safe natural entry).natural safe
        split at looped
        · have touched : (middle.onDocket (·.touch .use found)).held.Safe := safe
          obtain ⟨later, last⟩ := ih touched present looped
          exact ⟨Steps.trans steps later, last⟩
        · cases looped
          exact ⟨steps, fun other result last => by cases last; exact present⟩

theorem endOfStream_steps {final onEvent : List LoopAct} (safe : loop.held.Safe) (natural : 0 ≤ fd)
    (ended : endOfStream fd loop final onEvent id = some after) : Steps loop.held after.held := by
  obtain ⟨called, calling, ended⟩ := Option.bind_eq_some_iff.mp ended
  have steps := callback_steps safe calling
  split at ended
  · cases ended
    exact steps
  · rename_i found entry
    have present := found_present (steps.safe safe) natural entry
    exact steps.trans (closeInternal_steps (steps.safe safe) (present.natural (steps.safe safe)) ended)

theorem Present.of_held (there : loop.Present id) (same : middle.held = loop.held) : middle.Present id where
  live := (congrFun (congrArg Holdings.live same) id).trans there.live
  bound := lt_of_lt_of_eq there.bound (congrFun (congrArg Holdings.fd same) id).symm

theorem onEventRead_steps {script : LoopRead} (safe : loop.held.Safe) (there : loop.Present id)
    (read : loop.onEventRead script id = some after) : Steps loop.held after.held := by
  have same : ((loop.onDocket (·.touch .use id)).modify id fun event => event.setWrite false).held = loop.held :=
    held_modify (loop.onDocket (·.touch .use id)) id _ (quiet_setWrite _ false)
  have natural := Int.le_of_lt there.bound
  have present := there.of_held same
  refine steps_behind same safe fun safe => ?_
  simp only [onEventRead, Option.bind_eq_bind] at read
  split at read
  · obtain ⟨⟨shaken, ready⟩, shaking, read⟩ := Option.bind_eq_some_iff.mp read
    have shakes := doSslHandshake_steps safe present shaking
    have known := shakes.natural (present.natural safe)
    have safe := shakes.safe safe
    cases ready with
    | false =>
      cases read
      exact shakes
    | true =>
      obtain ⟨⟨stopped, last⟩, looped, read⟩ := Option.bind_eq_some_iff.mp read
      obtain ⟨reads, known⟩ := readLoop_steps safe known natural looped
      have steps := shakes.trans reads
      cases last with
      | none =>
        cases read
        exact steps
      | some pair =>
        have known := known pair.1 pair.2 rfl
        have safe := reads.safe safe
        by_cases more : pair.2.More
        · have written := (if_pos more).symm.trans read
          have same : ((stopped.onDocket (·.touch .use pair.1)).modify pair.1 fun event => event.setWrite true).held =
              stopped.held := held_modify (stopped.onDocket (·.touch .use pair.1)) pair.1 _ (quiet_setWrite _ true)
          exact steps.trans (steps_behind same safe fun safe => writeData_steps safe (same.symm ▸ known) written)
        · exact steps.trans (endOfStream_steps safe natural ((if_neg more).symm.trans read))
  · cases read
    rw [held_modify _ id DocketEvent.updateEvents (quiet_updateEvents _)]
    exact .refl

theorem onEventWrite_steps {handshake : LoopHandshake} {flush : LoopFlush} (safe : loop.held.Safe)
    (there : loop.Present id) (written : loop.onEventWrite handshake flush id = some after) :
    Steps loop.held after.held := by
  have same : ((loop.onDocket (·.touch .use id)).modify id fun e => (e.setWrite false).updateEvents).held =
      loop.held := held_modify (loop.onDocket (·.touch .use id)) id _ (quiet_arm _ false)
  have present := there.of_held same
  refine steps_behind same safe fun safe => ?_
  obtain ⟨⟨shaken, ready⟩, shaking, written⟩ := Option.bind_eq_some_iff.mp written
  have shakes := doSslHandshake_steps safe present shaking
  have natural := shakes.natural (present.natural safe)
  cases ready with
  | false =>
    cases written
    exact shakes
  | true =>
    have same : ((shaken.onDocket (·.touch .use id)).modify id fun event => event.setWrite true).held = shaken.held :=
      held_modify (shaken.onDocket (·.touch .use id)) id _ (quiet_setWrite _ true)
    refine shakes.trans (steps_behind same (shakes.safe safe) fun safe => ?_)
    simp only [if_true] at written
    split at written
    · cases written
      exact .refl
    · exact writeData_steps safe (same.symm ▸ natural) written

end Devent.LoopDocket
