import Devent.Event.DocketEvent

/-! What the sends of a write leave of an event, and what the calls that do not write leave alone. -/
namespace Devent

/-- EAGAIN or EWOULDBLOCK. -/
def SendResult.refused (result : SendResult) : Bool := result.wr == -1 && result.again

def allAccepted (results : List SendResult) : Bool := results.all fun result => !result.refused

namespace EventCall

mutual

/-- No send is refused, in the call or in its write callbacks. A failing send is
followed by a close, so its callback may do anything. -/
def unrefused : EventCall → Bool
  | .write _ results _ onWrite => allAccepted results && allUnrefused onWrite
  | .setReadEnable _ | .setCb .. | .read _ | .free => true

def allUnrefused : List EventCall → Bool
  | [] => true
  | first :: rest => unrefused first && allUnrefused rest

end

def isWrite : EventCall → Bool
  | .write .. => true
  | _ => false

end EventCall

def Flush.unrefused (script : Flush) : Bool :=
  allAccepted script.results && EventCall.allUnrefused script.onWrite

def Handshake.isPending : Handshake → Bool
  | .pending => true
  | .done _ | .failed _ => false

namespace DocketEvent

/-- The write filter is registered. -/
def Armed (event : DocketEvent) : Prop := event.filters.write = true

/-- Nothing is queued, and the next write is sent at once. -/
def Ready (event : DocketEvent) : Prop := event.ev.write = true ∧ event.outBuffer = []

/-- No TLS handshake is left to do. -/
def Settled (event : DocketEvent) : Prop := ¬(event.ssl = true ∧ event.sslHandshaking = true)

/-- Queued output of an open event is flushed as soon as the socket is writable. -/
def WakesUp (event : DocketEvent) : Prop :=
  event.isOpen = true → event.outBuffer ≠ [] → Armed event

variable {P : DocketEvent → Prop} {event before middle after : DocketEvent}

/-- If the event is still open, it was open and a property of it still holds. -/
def Keeps (P : DocketEvent → Prop) (before after : DocketEvent) : Prop :=
  after.isOpen = true → before.isOpen = true ∧ (P before → P after)

theorem Keeps.refl (event : DocketEvent) : Keeps P event event := fun opened => ⟨opened, id⟩

theorem Keeps.trans (first : Keeps P before middle) (second : Keeps P middle after) :
    Keeps P before after := by
  intro opened
  obtain ⟨openMiddle, later⟩ := second opened
  obtain ⟨openBefore, sooner⟩ := first openMiddle
  exact ⟨openBefore, later ∘ sooner⟩

theorem Keeps.of_closed (closed : after.isOpen = false) : Keeps P before after := by
  intro opened
  rw [closed] at opened
  cases opened

def Callback.Keep (P : DocketEvent → Prop) (cb : Callback) : Prop :=
  ∀ before after, cb before = some after → Keeps P before after

theorem call_keeps {present : Bool} {cb : Callback} (keep : Callback.Keep P cb)
    (called : call present cb before = some after) : Keeps P before after := by
  cases present with
  | false =>
    cases called
    exact .refl before
  | true => exact keep _ _ called

theorem closeInternal_closed {eventCb : Callback} (closes : event.closeInternal eventCb = some after) :
    after.isOpen = false := by
  obtain ⟨called, -, closes⟩ := Option.bind_eq_some_iff.mp closes
  cases Option.some.inj closes
  split
  · rfl
  · rename_i shut
    exact Bool.eq_false_of_not_eq_true shut

variable {results : List SendResult} {eventCb writeCb : Callback}

theorem sendLoop_stop (stop : ¬(event.ev.write = true ∧ 0 < event.outLength)) :
    sendLoop eventCb results event = some event := by
  cases results with
  | nil => rw [sendLoop, if_neg stop]
  | cons result rest => rw [sendLoop, if_neg stop]

theorem sendLoop_empty (empty : event.outBuffer = []) : sendLoop eventCb results event = some event :=
  sendLoop_stop fun go => outLength_pos_iff.mp go.2 empty

/-- A send that is refused clears the bit and deletes the filter. -/
def afterRefusal (event : DocketEvent) (chunks : List Chunk) : DocketEvent :=
  (setWrite { event with outBuffer := chunks } false).updateEvents

/-- How a send loop ends: in a close, with everything sent, or at a refused send. -/
theorem sendLoop_cases (enabled : before.ev.write = true)
    (sent : sendLoop eventCb results before = some after) :
    after.isOpen = false ∨ after = { before with outBuffer := [] } ∨
      ∃ chunks, chunks ≠ [] ∧ allAccepted results = false ∧ after = before.afterRefusal chunks := by
  induction results generalizing before with
  | nil =>
    by_cases empty : before.outBuffer = []
    · rw [sendLoop_empty empty] at sent
      cases sent
      exact .inr (.inl (by rw [← empty]))
    · rw [sendLoop, if_pos ⟨enabled, outLength_pos_iff.mpr empty⟩] at sent
      cases sent
  | cons result rest ih =>
    by_cases empty : before.outBuffer = []
    · rw [sendLoop_empty empty] at sent
      cases sent
      exact .inr (.inl (by rw [← empty]))
    · rw [sendLoop, if_pos ⟨enabled, outLength_pos_iff.mpr empty⟩] at sent
      split at sent
      · rename_i minus
        split at sent
        · rename_i again
          have stop : ¬((before.setWrite false).updateEvents.ev.write = true ∧
              0 < (before.setWrite false).updateEvents.outLength) := fun both => nomatch both.1
          rw [sendLoop_stop stop] at sent
          have refused : result.refused = true := by
            rw [SendResult.refused, minus, again]
            rfl
          refine .inr (.inr ⟨before.outBuffer, empty, ?_, (Option.some.inj sent).symm⟩)
          rw [allAccepted, List.all_cons, refused]
          rfl
        · exact .inl (closeInternal_closed sent)
      · split at sent
        · exact .inl (closeInternal_closed sent)
        · obtain closed | drained | ⟨chunks, queued, refused, same⟩ := ih (by exact enabled) sent
          · exact .inl closed
          · exact .inr (.inl drained)
          · refine .inr (.inr ⟨chunks, queued, ?_, same⟩)
            rw [allAccepted, List.all_cons, ← allAccepted, refused, Bool.and_false]

/-- What a write has sent or registered before its callback. -/
theorem sendOrArm_cases (sent : before.sendOrArm results eventCb = some after) :
    after.isOpen = false ∨
      (before.ev.write = true ∧ after = { before with outBuffer := [] }) ∨
      (before.ev.write = true ∧
        ∃ chunks, chunks ≠ [] ∧ allAccepted results = false ∧ after = before.afterRefusal chunks) ∨
      (before.ev.write = false ∧ after = (before.setWrite true).updateEvents) := by
  rw [sendOrArm] at sent
  split at sent
  · rename_i enabled
    obtain closed | drained | refused := sendLoop_cases enabled sent
    · exact .inl closed
    · exact .inr (.inl ⟨enabled, drained⟩)
    · exact .inr (.inr (.inl ⟨enabled, refused⟩))
  · rename_i disabled
    exact .inr (.inr (.inr ⟨Bool.eq_false_of_not_eq_true disabled, (Option.some.inj sent).symm⟩))

/-- A property of the TLS link alone. -/
def Linked (Q : Bool → Bool → Prop) (event : DocketEvent) : Prop := Q event.ssl event.sslHandshaking

theorem Keeps.settled (kept : ∀ Q, Keeps (Linked Q) before after) : Keeps Settled before after :=
  kept fun ssl handshaking => ¬(ssl = true ∧ handshaking = true)

variable {Q : Bool → Bool → Prop}

theorem sendOrArm_linked : Callback.Keep (Linked Q) (sendOrArm results eventCb) := by
  intro before after sent
  obtain closed | ⟨-, rfl⟩ | ⟨-, chunks, -, -, rfl⟩ | ⟨-, rfl⟩ := sendOrArm_cases sent
  · exact .of_closed closed
  · exact fun opened => ⟨opened, id⟩
  · exact fun opened => ⟨opened, id⟩
  · exact fun opened => ⟨opened, id⟩

/-- A write keeps what its sends and its write callback keep. -/
theorem writeData_keeps (sends : Callback.Keep P (sendOrArm results eventCb))
    (keep : Callback.Keep P writeCb) : Callback.Keep P (writeData results eventCb writeCb) := by
  intro before after written
  obtain ⟨middle, sent, called⟩ := Option.bind_eq_some_iff.mp written
  have first := sends before middle sent
  split at called
  · exact first.trans (call_keeps keep called)
  · exact Option.some.inj called ▸ first

/-- So do the three calls, if queueing and the saved bits do not matter. -/
theorem write_keeps (kind : WriteKind)
    (blind : ∀ (event : DocketEvent) (outBuffer : List Chunk) (ev : Interest),
      P event → P { event with outBuffer := outBuffer, ev := ev })
    (sends : Callback.Keep P (sendOrArm results eventCb)) (keep : Callback.Keep P writeCb) :
    Callback.Keep P (write kind results eventCb writeCb) := by
  intro before after written
  cases kind with
  | write len =>
    have queued := blind before (before.outBuffer ++ chunksOf len) before.ev
    simp only [write] at written
    split at written
    · intro opened
      obtain ⟨openBefore, later⟩ := writeData_keeps sends keep _ _ written opened
      exact ⟨openBefore, later ∘ queued⟩
    · cases written
      exact fun opened => ⟨opened, queued⟩
  | writeBuffer buffer =>
    intro opened
    obtain ⟨openBefore, later⟩ := writeData_keeps sends keep _ _ written opened
    exact ⟨openBefore, later ∘ blind before (before.outBuffer ++ buffer) before.ev⟩
  | writeBufferForce buffer =>
    obtain ⟨middle, sent, restored⟩ := Option.bind_eq_some_iff.mp written
    split at restored
    · cases restored
      intro opened
      obtain ⟨openBefore, later⟩ := writeData_keeps sends keep _ _ sent opened
      refine ⟨openBefore, fun held => ?_⟩
      have sentHeld := later (blind before (before.outBuffer ++ buffer) { before.ev with write := true } held)
      exact blind middle middle.outBuffer before.ev sentHeld
    · cases restored

/-- Output, registrations and link are what they were. -/
structure Untouched (before after : DocketEvent) : Prop where
  opened : after.isOpen = before.isOpen
  enabled : after.ev.write = before.ev.write
  filters : after.filters = before.filters
  outBuffer : after.outBuffer = before.outBuffer
  ssl : after.ssl = before.ssl
  sslHandshaking : after.sslHandshaking = before.sslHandshaking

/-- The calls that do not write leave the output alone, or free the event. -/
theorem perform_other {call : EventCall} (other : call.isWrite = false)
    (performed : perform call before = some after) : after.isOpen = false ∨ Untouched before after := by
  cases call with
  | write kind results onEvent onWrite => cases other
  | setReadEnable enable =>
    rw [perform] at performed
    split at performed
    · exact .inr (Option.some.inj performed ▸ ⟨rfl, rfl, rfl, rfl, rfl, rfl⟩)
    · cases performed
  | setCb read write event =>
    rw [perform] at performed
    split at performed
    · exact .inr (Option.some.inj performed ▸ ⟨rfl, rfl, rfl, rfl, rfl, rfl⟩)
    · cases performed
  | read len =>
    rw [perform] at performed
    split at performed
    · exact .inr (Option.some.inj performed ▸ ⟨rfl, rfl, rfl, rfl, rfl, rfl⟩)
    · cases performed
  | free =>
    rw [perform] at performed
    split at performed
    · exact .inl (Option.some.inj performed ▸ rfl)
    · cases performed

theorem Untouched.keeps (carries : Untouched before after → P before → P after)
    (untouched : after.isOpen = false ∨ Untouched before after) : Keeps P before after := by
  obtain closed | same := untouched
  · exact .of_closed closed
  · exact fun opened => ⟨same.opened.symm.trans opened, carries same⟩

theorem Untouched.linked (same : Untouched before after) (linked : Linked Q before) : Linked Q after := by
  rw [Linked, same.ssl, same.sslHandshaking]
  exact linked

theorem Untouched.armed (same : Untouched before after) (armed : Armed before) : Armed after := by
  rw [Armed, same.filters]
  exact armed

theorem Untouched.ready (same : Untouched before after) (ready : Ready before) : Ready after := by
  rw [Ready, same.enabled, same.outBuffer]
  exact ready

mutual

theorem perform_linked (call : EventCall) {before after : DocketEvent}
    (performed : perform call before = some after) : Keeps (Linked Q) before after := by
  cases call with
  | write kind results onEvent onWrite =>
    rw [perform] at performed
    split at performed
    · exact write_keeps kind (fun _ _ _ => id) sendOrArm_linked (fun _ _ => performAll_linked onWrite) _ _
        performed
    · cases performed
  | setReadEnable enable => exact Untouched.keeps Untouched.linked (perform_other rfl performed)
  | setCb read write event => exact Untouched.keeps Untouched.linked (perform_other rfl performed)
  | read len => exact Untouched.keeps Untouched.linked (perform_other rfl performed)
  | free => exact Untouched.keeps Untouched.linked (perform_other rfl performed)

theorem performAll_linked (calls : List EventCall) {before after : DocketEvent}
    (performed : performAll calls before = some after) : Keeps (Linked Q) before after := by
  cases calls with
  | nil =>
    cases performed
    exact .refl before
  | cons first rest =>
    obtain ⟨middle, head, tail⟩ := Option.bind_eq_some_iff.mp performed
    exact (perform_linked first head).trans (performAll_linked rest tail)

end

end DocketEvent

end Devent
