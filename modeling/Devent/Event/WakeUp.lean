import Devent.Event.SendCases
import Devent.Library.Run

/-! When pending output waits for an armed write filter. A refused send deletes the
filter, and so do two early returns; in a run without them an open event either has
its filter armed, or it has nothing queued and sends at once. -/
namespace Devent.DocketEvent

variable {P : DocketEvent → Prop} {Q : Bool → Bool → Prop} {event before middle after : DocketEvent}
  {results : List SendResult} {eventCb writeCb : Callback}

/-- Behind an enabled write nothing is queued. -/
theorem writeData_ready (accepted : allAccepted results = true)
    (keep : Callback.Keep Ready writeCb) (enabled : before.ev.write = true)
    (written : before.writeData results eventCb writeCb = some after) (opened : after.isOpen = true) :
    Ready after := by
  obtain ⟨middle, sent, called⟩ := Option.bind_eq_some_iff.mp written
  split at called
  · rename_i openMiddle
    obtain closed | ⟨-, drained⟩ | ⟨-, chunks, -, refused, -⟩ | ⟨disabled, -⟩ := sendOrArm_cases sent
    · rw [closed] at openMiddle
      cases openMiddle
    · apply (call_keeps keep called opened).2
      rw [drained]
      exact ⟨enabled, rfl⟩
    · rw [accepted] at refused
      cases refused
    · rw [enabled] at disabled
      cases disabled
  · rename_i shut
    exact absurd (Option.some.inj called ▸ opened) shut

theorem sendOrArm_armed (accepted : allAccepted results = true) :
    Callback.Keep Armed (sendOrArm results eventCb) := by
  intro before after sent
  obtain closed | ⟨-, rfl⟩ | ⟨-, chunks, -, refused, -⟩ | ⟨-, rfl⟩ := sendOrArm_cases sent
  · exact .of_closed closed
  · exact fun opened => ⟨opened, id⟩
  · rw [accepted] at refused
    cases refused
  · exact fun opened => ⟨opened, fun _ => rfl⟩

theorem write_ready (kind : WriteKind) (accepted : allAccepted results = true)
    (keep : Callback.Keep Ready writeCb) (open' : before.isOpen = true)
    (written : before.write kind results eventCb writeCb = some after) : Keeps Ready before after := by
  intro opened
  refine ⟨open', ?_⟩
  rintro ⟨enabled, -⟩
  cases kind with
  | write len =>
    simp only [write, if_pos enabled] at written
    exact writeData_ready accepted keep (by exact enabled) written opened
  | writeBuffer buffer => exact writeData_ready accepted keep (by exact enabled) written opened
  | writeBufferForce buffer =>
    obtain ⟨middle, sent, restored⟩ := Option.bind_eq_some_iff.mp written
    split at restored
    · cases restored
      have ready := writeData_ready accepted keep rfl sent opened
      exact ⟨enabled, ready.2⟩
    · cases restored

mutual

theorem perform_calm (call : EventCall) (accepted : call.unrefused = true) {before after : DocketEvent}
    (performed : perform call before = some after) :
    Keeps Armed before after ∧ Keeps Ready before after := by
  cases call with
  | write kind results onEvent onWrite =>
    rw [EventCall.unrefused, Bool.and_eq_true] at accepted
    rw [perform] at performed
    split at performed
    · rename_i opened
      constructor
      · apply write_keeps kind (fun _ _ _ => id) (sendOrArm_armed accepted.1) _ _ _ performed
        exact fun _ _ called => (performAll_calm onWrite accepted.2 called).1
      · apply write_ready kind accepted.1 _ opened performed
        exact fun _ _ called => (performAll_calm onWrite accepted.2 called).2
    · cases performed
  | setReadEnable enable =>
    have other := perform_other rfl performed
    exact ⟨Untouched.keeps Untouched.armed other, Untouched.keeps Untouched.ready other⟩
  | setCb read write event =>
    have other := perform_other rfl performed
    exact ⟨Untouched.keeps Untouched.armed other, Untouched.keeps Untouched.ready other⟩
  | read len =>
    have other := perform_other rfl performed
    exact ⟨Untouched.keeps Untouched.armed other, Untouched.keeps Untouched.ready other⟩
  | free =>
    have other := perform_other rfl performed
    exact ⟨Untouched.keeps Untouched.armed other, Untouched.keeps Untouched.ready other⟩

theorem performAll_calm (calls : List EventCall) (accepted : EventCall.allUnrefused calls = true)
    {before after : DocketEvent} (performed : performAll calls before = some after) :
    Keeps Armed before after ∧ Keeps Ready before after := by
  cases calls with
  | nil =>
    cases performed
    exact ⟨.refl before, .refl before⟩
  | cons first rest =>
    rw [EventCall.allUnrefused, Bool.and_eq_true] at accepted
    obtain ⟨middle, head, tail⟩ := Option.bind_eq_some_iff.mp performed
    obtain ⟨armed, ready⟩ := perform_calm first accepted.1 head
    obtain ⟨armedLater, readyLater⟩ := performAll_calm rest accepted.2 tail
    exact ⟨armed.trans armedLater, ready.trans readyLater⟩

end

variable {handshake : Handshake} {script : Flush}

theorem doSslHandshake_ready (open' : before.isOpen = true)
    (shaken : before.doSslHandshake handshake = some (after, true)) :
    after.isOpen = true ∧ Settled after := by
  unfold doSslHandshake at shaken
  split at shaken
  · cases handshake with
    | pending => cases shaken
    | failed onEvent =>
      obtain ⟨closed, -, shaken⟩ := Option.bind_eq_some_iff.mp shaken
      cases shaken
    | done listener =>
      obtain ⟨middle, called, shaken⟩ := Option.bind_eq_some_iff.mp shaken
      split at shaken
      · rename_i opened
        cases shaken
        have keep : Callback.Keep Settled (performAll listener) := fun _ _ called =>
          Keeps.settled fun _ => performAll_linked listener called
        exact ⟨opened, (call_keeps keep called opened).2 fun unsettled => nomatch unsettled.2⟩
      · cases shaken
  · rename_i settled
    cases shaken
    exact ⟨open', settled⟩

theorem doSslHandshake_stops (shaken : before.doSslHandshake handshake = some (after, false)) :
    after.isOpen = false ∨ (after = before ∧ handshake.isPending = true ∧ ¬Settled before) := by
  unfold doSslHandshake at shaken
  split at shaken
  · rename_i unsettled
    cases handshake with
    | pending =>
      cases shaken
      exact .inr ⟨rfl, rfl, fun settled => settled unsettled⟩
    | failed onEvent =>
      obtain ⟨closed, closes, shaken⟩ := Option.bind_eq_some_iff.mp shaken
      cases shaken
      exact .inl (closeInternal_closed closes)
    | done listener =>
      obtain ⟨middle, called, shaken⟩ := Option.bind_eq_some_iff.mp shaken
      split at shaken
      · cases shaken
      · cases shaken
  · cases shaken

theorem received_linked {len : Nat} {onRead : List EventCall}
    (read : before.received len onRead = some after) : Keeps (Linked Q) before after := by
  rw [received] at read
  split at read
  · exact Option.some.inj read ▸ .refl before
  · have keep : Callback.Keep (Linked Q) (performAll onRead) := fun _ _ => performAll_linked onRead
    have later := call_keeps keep read
    exact fun opened => later opened

theorem readLoop_linked {reads : List (ReadResult × List EventCall)} {last : Option ReadResult}
    (read : readLoop reads before = some (after, last)) : Keeps (Linked Q) before after := by
  induction reads generalizing before with
  | nil => cases read
  | cons first rest ih =>
    obtain ⟨result, onRead⟩ := first
    rw [readLoop] at read
    split at read
    · cases read
      exact .refl _
    · obtain ⟨middle, head, read⟩ := Option.bind_eq_some_iff.mp read
      have kept : Keeps (Linked Q) before middle := received_linked head
      split at read
      · split at read
        · exact kept.trans (ih read)
        · cases read
          exact kept
      · cases read
        exact kept

theorem readLoop_gone {reads : List (ReadResult × List EventCall)}
    (read : readLoop reads before = some (after, none)) : after.isOpen = false := by
  induction reads generalizing before with
  | nil => cases read
  | cons first rest ih =>
    obtain ⟨result, onRead⟩ := first
    rw [readLoop] at read
    split at read
    · cases read
    · obtain ⟨middle, -, read⟩ := Option.bind_eq_some_iff.mp read
      split at read
      · split at read
        · exact ih read
        · cases read
      · rename_i shut
        cases read
        exact Bool.eq_false_of_not_eq_true shut

theorem endOfStream_closed {onRead onEvent : List EventCall}
    (ended : before.endOfStream onRead onEvent = some after) : after.isOpen = false := by
  obtain ⟨middle, -, ended⟩ := Option.bind_eq_some_iff.mp ended
  split at ended
  · exact closeInternal_closed ended
  · rename_i shut
    exact Option.some.inj ended ▸ Bool.eq_false_of_not_eq_true shut

theorem flush_linked (flushed : before.flush script = some after) : Keeps (Linked Q) before after :=
  writeData_keeps sendOrArm_linked (fun _ _ => performAll_linked script.onWrite) _ _ flushed

/-- A flush with the bit set leaves nothing queued. -/
theorem flush_ready (accepted : script.unrefused = true) (enabled : before.ev.write = true)
    (settled : Settled before) (flushed : before.flush script = some after) (opened : after.isOpen = true) :
    Ready after ∧ Settled after := by
  rw [Flush.unrefused, Bool.and_eq_true] at accepted
  constructor
  · apply writeData_ready accepted.1 _ enabled flushed opened
    exact fun _ _ called => (performAll_calm _ accepted.2 called).2
  · exact (Keeps.settled (fun _ => flush_linked flushed) opened).2 settled

/-- Where an open event may rest between two outermost calls. -/
def Safe (event : DocketEvent) : Prop := event.isOpen = true → Armed event ∨ (Ready event ∧ Settled event)

theorem Safe.wakesUp (safe : Safe event) : WakesUp event := by
  intro opened queued
  obtain armed | ⟨ready, -⟩ := safe opened
  · exact armed
  · exact absurd ready.2 queued

theorem Safe.of_closed (closed : event.isOpen = false) : Safe event := by
  intro opened
  rw [closed] at opened
  cases opened

/-- No send of the call is refused, reading is not notified while it is disabled, and a
write notification does not leave a TLS handshake unfinished. -/
def Undisturbed (event : DocketEvent) : EventInput → Prop
  | .call call => call.unrefused = true
  | .readable _ _ _ flush => event.ev.read = true ∧ flush.unrefused = true
  | .writable handshake flush => (Settled event ∨ handshake.isPending = false) ∧ flush.unrefused = true

theorem call_safe {call : EventCall} (safe : Safe before) (accepted : call.unrefused = true)
    (performed : before.perform call = some after) : Safe after := by
  intro opened
  obtain ⟨armedKept, readyKept⟩ := perform_calm call accepted performed
  obtain ⟨openBefore, armed⟩ := armedKept opened
  obtain held | ⟨ready, settled⟩ := safe openBefore
  · exact .inl (armed held)
  · have kept := Keeps.settled fun _ => perform_linked call performed
    exact .inr ⟨(readyKept opened).2 ready, (kept opened).2 settled⟩

theorem onEventRead_safe {reads : List (ReadResult × List EventCall)} {onRead : List EventCall}
    (safe : Safe before) (open' : before.isOpen = true) (readable : before.ev.read = true)
    (accepted : script.unrefused = true)
    (read : before.onEventRead handshake reads onRead script = some after) : Safe after := by
  have enabled : (before.setWrite false).ev.read = true := readable
  simp only [onEventRead, if_pos enabled] at read
  obtain ⟨⟨ready, go⟩, shaken, read⟩ := Option.bind_eq_some_iff.mp read
  cases go with
  | false =>
    cases read
    obtain closed | ⟨rfl, -, unsettled⟩ := doSslHandshake_stops shaken
    · exact .of_closed closed
    · -- the bit is cleared but the filter is left alone
      intro opened
      obtain armed | ⟨-, settled⟩ := safe open'
      · exact .inl armed
      · exact absurd settled unsettled
  | true =>
    obtain ⟨openReady, settled⟩ := doSslHandshake_ready (by exact open') shaken
    obtain ⟨⟨final, last⟩, looped, read⟩ := Option.bind_eq_some_iff.mp read
    have kept := Keeps.settled fun _ => readLoop_linked looped
    cases last with
    | none =>
      cases read
      exact .of_closed (readLoop_gone looped)
    | some result =>
      simp only at read
      split at read
      · intro opened
        obtain ⟨openFinal, -⟩ := Keeps.settled (fun _ => flush_linked read) opened
        have still : Settled (final.setWrite true) := (kept openFinal).2 settled
        exact .inr (flush_ready accepted rfl still read opened)
      · exact .of_closed (endOfStream_closed read)

theorem onEventWrite_safe (open' : before.isOpen = true)
    (finishes : Settled before ∨ handshake.isPending = false) (accepted : script.unrefused = true)
    (written : before.onEventWrite handshake script = some after) : Safe after := by
  obtain ⟨⟨ready, go⟩, shaken, written⟩ := Option.bind_eq_some_iff.mp written
  cases go with
  | false =>
    cases written
    obtain closed | ⟨rfl, pending, unsettled⟩ := doSslHandshake_stops shaken
    · exact .of_closed closed
    · obtain settled | finished := finishes
      · exact absurd settled unsettled
      · rw [pending] at finished
        cases finished
  | true =>
    obtain ⟨openReady, settled⟩ := doSslHandshake_ready (by exact open') shaken
    intro opened
    right
    have still : Settled (ready.setWrite true) := settled
    simp only [if_true] at written
    split at written
    · rename_i empty
      cases written
      constructor
      · constructor
        · rfl
        · by_contra queued
          exact absurd empty (Nat.ne_of_gt (outLength_pos_iff.mpr queued))
      · exact still
    · exact flush_ready accepted rfl still written opened

theorem step_safe {input : EventInput} {out : Unit} (safe : Safe before)
    (undisturbed : Undisturbed before input) (taken : step before input = some (after, out)) : Safe after := by
  rw [step] at taken
  split at taken
  · rename_i opened
    obtain ⟨next, handled, same⟩ := Option.map_eq_some_iff.mp taken
    cases same
    cases input with
    | call call => exact call_safe safe undisturbed handled
    | readable handshake reads onRead flush =>
      exact onEventRead_safe safe opened undisturbed.1 undisturbed.2 handled
    | writable handshake flush => exact onEventWrite_safe opened undisturbed.1 undisturbed.2 handled
  · cases taken

/-- As `docket_accept`, `DocketEvent_create` and a finished connect leave it: both
filters registered and nothing queued. -/
structure Connected (event : DocketEvent) : Prop where
  isOpen : event.isOpen = true
  ev : event.ev = deventReadWrite
  filters : event.filters = deventReadWrite
  outBuffer : event.outBuffer = []

theorem Connected.safe (connected : Connected event) : Safe event := by
  intro opened
  left
  rw [Armed, connected.filters]
  rfl

/-- In a run of undisturbed calls, output that is left queued waits for an armed filter. -/
theorem run_wakesUp (start : DocketEvent) (connected : Connected start) (inputs : List EventInput)
    (undisturbed : Run.Along step Undisturbed start inputs) {last : DocketEvent} {outs : List Unit}
    (path : Run.run step start inputs = some (last, outs)) : WakesUp last := by
  have safe : Safe last := Run.run_along step_safe connected.safe undisturbed path
  exact safe.wakesUp

/-- A send loop that ends with the bit cleared has met a refused send. -/
theorem sendLoop_refused (enabled : before.ev.write = true)
    (sent : sendLoop eventCb results before = some after) (opened : after.isOpen = true)
    (disabled : after.ev.write = false) : ¬WakesUp after := by
  obtain closed | rfl | ⟨chunks, queued, -, rfl⟩ := sendLoop_cases enabled sent
  · rw [closed] at opened
    cases opened
  · rw [enabled] at disabled
    cases disabled
  · intro wakes
    exact nomatch wakes opened queued

theorem readDisabled_lost {reads : List (ReadResult × List EventCall)} {onRead : List EventCall}
    (open' : before.isOpen = true) (disabled : before.ev.read = false) (queued : before.outBuffer ≠ [])
    (read : before.onEventRead handshake reads onRead script = some after) : ¬WakesUp after := by
  have stop : ¬(before.setWrite false).ev.read = true := by
    rw [Bool.not_eq_true]
    exact disabled
  simp only [onEventRead, if_neg stop] at read
  cases read
  intro wakes
  exact nomatch wakes open' queued

theorem handshakePending_lost (open' : before.isOpen = true) (unsettled : ¬Settled before)
    (queued : before.outBuffer ≠ []) (written : before.onEventWrite .pending script = some after) :
    ¬WakesUp after := by
  have waits : before.ssl = true ∧ before.sslHandshaking = true := Decidable.not_not.mp unsettled
  have stays : (before.setWrite false).updateEvents.doSslHandshake .pending =
      some ((before.setWrite false).updateEvents, false) := if_pos waits
  simp only [onEventWrite, stays] at written
  cases written
  intro wakes
  exact nomatch wakes open' queued

/-- An accepted connection, with or without TLS. -/
def accepted (ssl : Bool) : DocketEvent :=
  ⟨deventReadWrite, deventReadWrite, [], 0, true, true, true, false, ssl, ssl, true, true⟩

instance (event : DocketEvent) : Decidable (Armed event) := inferInstanceAs (Decidable (_ = true))

instance (event : DocketEvent) : Decidable (Settled event) := inferInstanceAs (Decidable (¬_))

instance (event : DocketEvent) : (input : EventInput) → Decidable (Undisturbed event input)
  | .call call => inferInstanceAs (Decidable (call.unrefused = true))
  | .readable _ _ _ flush => inferInstanceAs (Decidable (event.ev.read = true ∧ flush.unrefused = true))
  | .writable handshake flush =>
    inferInstanceAs (Decidable ((Settled event ∨ handshake.isPending = false) ∧ flush.unrefused = true))

/-- The first flight of a TLS handshake arrives, then output is queued behind it. -/
def queuedBehindHandshake : List EventInput :=
  [.readable .pending [] [] ⟨[], [], []⟩, .call (.write (.write 5) [] [] [])]

theorem queued_output_wakesUp : ∃ last outs,
    Run.run step (accepted true) queuedBehindHandshake = some (last, outs) ∧
      last.isOpen = true ∧ last.outBuffer ≠ [] ∧ WakesUp last :=
  ⟨_, _, rfl, rfl, by decide,
    run_wakesUp (accepted true) ⟨rfl, rfl, rfl, rfl⟩ queuedBehindHandshake (by decide) rfl⟩

/-- One refused send leaves its byte queued with the write filter deleted. -/
theorem refused_send_lost : ¬∀ start : DocketEvent, Connected start →
    ∀ (inputs : List EventInput) (last : DocketEvent) (outs : List Unit),
      Run.run step start inputs = some (last, outs) → WakesUp last := by
  intro claim
  have armed := claim (accepted false) ⟨rfl, rfl, rfl, rfl⟩
    [.call (.write (.write 1) [⟨-1, true⟩] [] [])] _ _ rfl rfl
  exact absurd (armed (by decide)) (by decide)

end Devent.DocketEvent
