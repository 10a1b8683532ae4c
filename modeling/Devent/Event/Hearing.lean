import Devent.Event.WakeUp

/-! When an event that reads is told of its data. `devent_set_read_enable` only sets the
bit, and `DocketEvent_write_buffer_force` puts a saved one back; neither registers the
read filter, which any update of the filters deletes while the bit is cleared. -/
namespace Devent

def EventCall.setsRead : EventCall → Bool
  | .setReadEnable _ => true
  | .write .. | .setCb .. | .read _ | .free => false

namespace DocketEvent

/-- The read filter is registered. -/
def Watched (event : DocketEvent) : Bool := event.filters.read

/-- The bit is not set on an event that nobody watches. -/
def Heard (event : DocketEvent) : Prop := event.ev.read = true → event.Watched = true

/-- New data of an open event that reads is notified. -/
def HearsData (event : DocketEvent) : Prop := event.isOpen = true → Heard event

/-- The event as a write finds it, its bytes queued. -/
def queued (event : DocketEvent) : WriteKind → DocketEvent
  | .write len => { event with outBuffer := event.outBuffer ++ chunksOf len }
  | .writeBuffer buffer => { event with outBuffer := event.outBuffer ++ buffer }
  | .writeBufferForce buffer => setWrite { event with outBuffer := event.outBuffer ++ buffer } true

/-- A write that only queues. -/
def onlyQueues (event : DocketEvent) : WriteKind → Bool
  | .write _ => !event.ev.write
  | .writeBuffer _ | .writeBufferForce _ => false

/-- Saved bits that go back into the event. -/
def restores : WriteKind → Bool
  | .write _ | .writeBuffer _ => false
  | .writeBufferForce _ => true

mutual

/-- Wherever a call sets the read bit, in itself or in a callback that leaves the event
open, the filter is registered. -/
def setsWatched : EventCall → DocketEvent → Bool
  | .write kind results onEvent onWrite, event =>
    let queued := event.queued kind
    let called := (queued.sendOrArm results (performAll onEvent)).all fun middle =>
      !(middle.isOpen && middle.writeCb) || allSetWatched onWrite middle
    let written := (queued.writeData results (performAll onEvent) (performAll onWrite)).all fun after =>
      !(restores kind && event.ev.read) || after.Watched
    event.onlyQueues kind || (called && written)
  | .setReadEnable enable, event => !enable || event.Watched
  | .setCb .., _ => true
  | .read _, _ => true
  | .free, _ => true

def allSetWatched : List EventCall → DocketEvent → Bool
  | [], _ => true
  | first :: rest, event =>
    setsWatched first event && (perform first event).all fun next => allSetWatched rest next

end

/-- A callback of the event, where it is set. -/
def callbackWatched (present : Bool) (calls : List EventCall) (event : DocketEvent) : Bool :=
  !present || allSetWatched calls event

def flushWatched (script : Flush) (event : DocketEvent) : Bool :=
  (event.sendOrArm script.results (performAll script.onEvent)).all fun middle =>
    callbackWatched (middle.isOpen && middle.writeCb) script.onWrite middle

def handshakeWatched (handshake : Handshake) (event : DocketEvent) : Bool :=
  match handshake with
  | .done listener => !(event.ssl && event.sslHandshaking) ||
      callbackWatched event.listenerCb listener { event with sslHandshaking := false }
  | .pending | .failed _ => true

def readsWatched : List (ReadResult × List EventCall) → DocketEvent → Bool
  | [], _ => true
  | (result, onRead) :: rest, event =>
    decide (result.len ≤ 0) ||
      (callbackWatched (!event.udp && event.readCb) onRead
          { event with inBuffer := event.inBuffer + result.len.toNat } &&
        (event.received result.len.toNat onRead).all fun next =>
          !(next.isOpen && next.ev.read) || readsWatched rest next)

/-- Whether a read notification ends in a write. -/
def lastFlushes (last : Option ReadResult) : Bool :=
  last.any fun result => decide result.More

/-- The same for an outermost call. -/
def InputWatched (event : DocketEvent) : EventInput → Bool
  | .call call => setsWatched call event
  | .readable handshake reads _ script =>
    let event := event.setWrite false
    !event.ev.read || (handshakeWatched handshake event &&
      (event.doSslHandshake handshake).all fun (event, ready) =>
        !ready || (readsWatched reads event && (readLoop reads event).all fun (event, last) =>
          !lastFlushes last || flushWatched script (event.setWrite true)))
  | .writable handshake script =>
    let event := (event.setWrite false).updateEvents
    handshakeWatched handshake event && (event.doSslHandshake handshake).all fun (event, ready) =>
      !ready || event.outLength == 0 || flushWatched script (event.setWrite true)

variable {event before middle after : DocketEvent} {results : List SendResult} {eventCb writeCb : Callback}

theorem all_some {α : Type} {x : Option α} {p : α → Bool} {a : α} (all : x.all p = true) (found : x = some a) :
    p a = true := by
  subst found
  exact all

theorem sendOrArm_heard : Callback.Keep Heard (sendOrArm results eventCb) := by
  intro before after sent
  obtain closed | ⟨-, rfl⟩ | ⟨-, chunks, -, -, rfl⟩ | ⟨-, rfl⟩ := sendOrArm_cases sent
  · exact .of_closed closed
  · exact fun opened => ⟨opened, id⟩
  · exact fun opened => ⟨opened, fun _ => id⟩
  · exact fun opened => ⟨opened, fun _ => id⟩

/-- A write, where its callback keeps the event heard. -/
theorem writeData_heard
    (keep : ∀ middle, before.sendOrArm results eventCb = some middle →
      (middle.isOpen && middle.writeCb) = true → ∀ after, writeCb middle = some after →
        Keeps Heard middle after)
    (written : before.writeData results eventCb writeCb = some after) : Keeps Heard before after := by
  obtain ⟨middle, sent, called⟩ := Option.bind_eq_some_iff.mp written
  have first := sendOrArm_heard before middle sent
  split at called
  · rename_i opened
    cases present : middle.writeCb with
    | false =>
      rw [present] at called
      cases called
      exact first
    | true =>
      rw [present] at called
      have both : (middle.isOpen && middle.writeCb) = true := by rw [opened, present]; rfl
      exact first.trans (keep middle sent both after called)
  · exact Option.some.inj called ▸ first

theorem queued_heard (kind : WriteKind) (heard : Heard before) : Heard (before.queued kind) := by
  cases kind with
  | write len => exact heard
  | writeBuffer buffer => exact heard
  | writeBufferForce buffer => exact heard

theorem queued_isOpen (event : DocketEvent) (kind : WriteKind) : (event.queued kind).isOpen = event.isOpen := by
  cases kind <;> rfl

theorem queued_keeps (kind : WriteKind) (later : Keeps Heard (before.queued kind) after) :
    Keeps Heard before after := by
  intro opened
  obtain ⟨openQueued, keeps⟩ := later opened
  exact ⟨(queued_isOpen before kind).symm.trans openQueued, fun heard => keeps (queued_heard kind heard)⟩

/-- A write that does more than queue is `devent_write_data` on the queued bytes, behind
which the saved bits may go back. -/
theorem write_cases (kind : WriteKind) (written : before.write kind results eventCb writeCb = some after) :
    (before.onlyQueues kind = true ∧ after = before.queued kind) ∨
      before.onlyQueues kind = false ∧ ∃ sent,
        (before.queued kind).writeData results eventCb writeCb = some sent ∧
        (restores kind = false ∧ after = sent ∨
          restores kind = true ∧ sent.isOpen = true ∧ after = { sent with ev := before.ev }) := by
  cases kind with
  | write len =>
    simp only [write] at written
    split at written
    · rename_i enabled
      refine .inr ⟨?_, after, written, .inl ⟨rfl, rfl⟩⟩
      rw [onlyQueues]
      exact congrArg (!·) enabled
    · rename_i disabled
      refine .inl ⟨?_, (Option.some.inj written).symm⟩
      rw [onlyQueues]
      exact congrArg (!·) (Bool.eq_false_of_not_eq_true disabled)
  | writeBuffer buffer => exact .inr ⟨rfl, after, written, .inl ⟨rfl, rfl⟩⟩
  | writeBufferForce buffer =>
    obtain ⟨sent, data, restored⟩ := Option.bind_eq_some_iff.mp written
    split at restored
    · rename_i opened
      exact .inr ⟨rfl, sent, data, .inr ⟨rfl, opened, (Option.some.inj restored).symm⟩⟩
    · cases restored

/-- The calls that neither write nor set the read bit. -/
theorem other_heard {call : EventCall} (other : call.isWrite = false) (silent : call.setsRead = false)
    (performed : perform call before = some after) : Keeps Heard before after := by
  cases call with
  | write kind results onEvent onWrite => cases other
  | setReadEnable enable => cases silent
  | setCb read write event =>
    rw [perform] at performed
    split at performed
    · cases performed
      exact fun opened => ⟨opened, id⟩
    · cases performed
  | read len =>
    rw [perform] at performed
    split at performed
    · cases performed
      exact fun opened => ⟨opened, id⟩
    · cases performed
  | free =>
    rw [perform] at performed
    split at performed
    · cases performed
      exact .of_closed rfl
    · cases performed

mutual

theorem perform_heard (call : EventCall) {before after : DocketEvent}
    (watched : setsWatched call before = true) (performed : perform call before = some after) :
    Keeps Heard before after := by
  cases call with
  | write kind results onEvent onWrite =>
    rw [perform] at performed
    split at performed
    · simp only [setsWatched, Bool.or_eq_true, Bool.and_eq_true] at watched
      obtain ⟨-, rfl⟩ | ⟨sends, sent, data, restored⟩ := write_cases kind performed
      · exact queued_keeps kind (.refl _)
      · obtain ⟨called, written⟩ := watched.resolve_left (by simp [sends])
        have kept : Keeps Heard before sent := by
          refine queued_keeps kind (writeData_heard ?_ data)
          intro middle found both after performed
          have here := all_some called found
          rw [both, Bool.not_true, Bool.false_or] at here
          exact performAll_heard onWrite here performed
        obtain ⟨-, rfl⟩ | ⟨again, opened, rfl⟩ := restored
        · exact kept
        · intro _
          refine ⟨(kept opened).1, fun _ reads => ?_⟩
          have here := all_some written data
          have both : (restores kind && before.ev.read) = true := by rw [again, Bool.true_and]; exact reads
          rwa [both, Bool.not_true, Bool.false_or] at here
    · cases performed
  | setReadEnable enable =>
    rw [perform] at performed
    split at performed
    · cases performed
      intro opened
      refine ⟨opened, fun _ reads => ?_⟩
      have set : enable = true := reads
      rw [setsWatched, set, Bool.not_true, Bool.false_or] at watched
      exact watched
    · cases performed
  | setCb read write event => exact other_heard rfl rfl performed
  | read len => exact other_heard rfl rfl performed
  | free => exact other_heard rfl rfl performed

theorem performAll_heard (calls : List EventCall) {before after : DocketEvent}
    (watched : allSetWatched calls before = true) (performed : performAll calls before = some after) :
    Keeps Heard before after := by
  cases calls with
  | nil =>
    cases performed
    exact .refl before
  | cons first rest =>
    rw [allSetWatched, Bool.and_eq_true] at watched
    obtain ⟨middle, head, tail⟩ := Option.bind_eq_some_iff.mp performed
    exact (perform_heard first watched.1 head).trans (performAll_heard rest (all_some watched.2 head) tail)

end

theorem call_heard {present : Bool} {calls : List EventCall}
    (watched : callbackWatched present calls before = true)
    (called : call present (performAll calls) before = some after) : Keeps Heard before after := by
  cases present with
  | false =>
    cases called
    exact .refl before
  | true =>
    rw [callbackWatched, Bool.not_true, Bool.false_or] at watched
    exact performAll_heard calls watched called

variable {handshake : Handshake} {script : Flush}

theorem flush_heard (watched : flushWatched script before = true) (flushed : before.flush script = some after) :
    Keeps Heard before after := by
  refine writeData_heard ?_ flushed
  intro middle sent both after performed
  have here := all_some watched sent
  rw [both] at here
  exact call_heard here performed

theorem doSslHandshake_heard {ready : Bool} (watched : handshakeWatched handshake before = true)
    (shaken : before.doSslHandshake handshake = some (after, ready)) : Keeps Heard before after := by
  unfold doSslHandshake at shaken
  split at shaken
  · rename_i shaking
    cases handshake with
    | pending =>
      cases shaken
      exact .refl before
    | failed onEvent =>
      obtain ⟨closed, closes, shaken⟩ := Option.bind_eq_some_iff.mp shaken
      cases shaken
      exact .of_closed (closeInternal_closed closes)
    | done listener =>
      obtain ⟨middle, called, shaken⟩ := Option.bind_eq_some_iff.mp shaken
      split at shaken
      · cases shaken
        have both : (before.ssl && before.sslHandshaking) = true := by rw [shaking.1, shaking.2]; rfl
        simp only [handshakeWatched] at watched
        rw [both, Bool.not_true, Bool.false_or] at watched
        have kept := call_heard watched called
        exact fun opened => kept opened
      · cases shaken
  · cases shaken
    exact .refl before

theorem readLoop_heard {reads : List (ReadResult × List EventCall)} {last : Option ReadResult}
    (watched : readsWatched reads before = true) (read : readLoop reads before = some (after, last)) :
    Keeps Heard before after := by
  induction reads generalizing before with
  | nil => cases read
  | cons first rest ih =>
    obtain ⟨result, onRead⟩ := first
    simp only [readsWatched, Bool.or_eq_true, decide_eq_true_eq, Bool.and_eq_true] at watched
    rw [readLoop] at read
    split at read
    · cases read
      exact .refl _
    · rename_i positive
      obtain ⟨called, more⟩ := watched.resolve_left positive
      obtain ⟨next, arrived, read⟩ := Option.bind_eq_some_iff.mp read
      have kept : Keeps Heard before next := by
        rw [received] at arrived
        split at arrived
        · exact Option.some.inj arrived ▸ .refl before
        · rename_i stream
          have tcp : (!before.udp && before.readCb) = before.readCb := by
            rw [Bool.eq_false_of_not_eq_true stream]
            rfl
          rw [tcp] at called
          have later := call_heard called arrived
          exact fun opened => later opened
      split at read
      · rename_i opened
        split at read
        · rename_i reads
          have here := all_some more arrived
          rw [opened, reads, Bool.and_self, Bool.not_true, Bool.false_or] at here
          exact kept.trans (ih here read)
        · cases read
          exact kept
      · cases read
        exact kept

theorem onEventRead_heard {reads : List (ReadResult × List EventCall)} {onRead : List EventCall}
    (watched : InputWatched before (.readable handshake reads onRead script) = true)
    (read : before.onEventRead handshake reads onRead script = some after) :
    after.isOpen = true → Heard before → Heard after := by
  simp only [InputWatched, Bool.or_eq_true, Bool.and_eq_true] at watched
  simp only [onEventRead] at read
  split at read
  · rename_i reading
    obtain ⟨shakes, more⟩ := watched.resolve_left (by simp [reading])
    obtain ⟨⟨ready, go⟩, shaken, read⟩ := Option.bind_eq_some_iff.mp read
    have first := doSslHandshake_heard shakes shaken
    have more := all_some more shaken
    cases go with
    | false =>
      cases read
      exact fun opened => (first opened).2
    | true =>
      simp only [Bool.not_true, Bool.false_or, Bool.and_eq_true] at more
      obtain ⟨⟨final, last⟩, looped, read⟩ := Option.bind_eq_some_iff.mp read
      have second := first.trans (readLoop_heard more.1 looped)
      have flushes := all_some more.2 looped
      cases last with
      | none =>
        cases read
        exact fun opened => (second opened).2
      | some result =>
        simp only at read
        split at read
        · rename_i goes
          simp only [lastFlushes, Option.any_some, goes, decide_true, Bool.not_true, Bool.false_or] at flushes
          have third : Keeps Heard (final.setWrite true) after := flush_heard flushes read
          intro opened
          obtain ⟨openFinal, kept⟩ := third opened
          exact fun heard => kept ((second openFinal).2 heard)
        · intro opened
          rw [endOfStream_closed read] at opened
          cases opened
  · cases read
    exact fun _ _ => id

theorem onEventWrite_heard (watched : InputWatched before (.writable handshake script) = true)
    (written : before.onEventWrite handshake script = some after) : after.isOpen = true → Heard after := by
  simp only [InputWatched, Bool.and_eq_true] at watched
  obtain ⟨⟨ready, go⟩, shaken, written⟩ := Option.bind_eq_some_iff.mp written
  have first := doSslHandshake_heard watched.1 shaken
  have more := all_some watched.2 shaken
  have updated : Heard (before.setWrite false).updateEvents := id
  cases go with
  | false =>
    cases written
    exact fun opened => (first opened).2 updated
  | true =>
    simp only [Bool.not_true, Bool.false_or, Bool.or_eq_true, beq_iff_eq] at more
    simp only [if_true] at written
    split at written
    · cases written
      exact fun opened => (first opened).2 updated
    · rename_i pending
      have flushes := more.resolve_left pending
      have second : Keeps Heard (ready.setWrite true) after := flush_heard flushes written
      intro opened
      obtain ⟨openReady, kept⟩ := second opened
      exact kept ((first openReady).2 updated)

theorem step_hears {input : EventInput} {out : Unit} (hears : HearsData before)
    (watched : InputWatched before input = true) (taken : step before input = some (after, out)) :
    HearsData after := by
  rw [step] at taken
  split at taken
  · rename_i opened
    obtain ⟨next, handled, same⟩ := Option.map_eq_some_iff.mp taken
    cases same
    cases input with
    | call call => exact fun still => (perform_heard call watched handled still).2 (hears opened)
    | readable handshake reads onRead flush =>
      exact fun still => onEventRead_heard watched handled still (hears opened)
    | writable handshake flush => exact onEventWrite_heard watched handled
  · cases taken

theorem Connected.hears (connected : Connected event) : HearsData event := by
  intro _ _
  rw [Watched, connected.filters]
  rfl

/-- In a run in which the read bit is only set while the filter is registered, an open event
that reads is told of its data. -/
theorem run_hears (start : DocketEvent) (connected : Connected start) (inputs : List EventInput)
    (watched : Run.Along step (fun event input => InputWatched event input = true) start inputs)
    {last : DocketEvent} {outs : List Unit} (path : Run.run step start inputs = some (last, outs)) :
    HearsData last :=
  Run.run_along step_hears connected.hears watched path

theorem enable_unwatched (open' : before.isOpen = true) (unwatched : before.Watched = false)
    (performed : perform (.setReadEnable true) before = some after) : ¬HearsData after := by
  rw [perform, if_pos open'] at performed
  cases performed
  intro hears
  have watched : before.Watched = true := hears open' rfl
  rw [unwatched] at watched
  cases watched

/-- So does putting a saved bit back. -/
theorem restore_unwatched {buffer : List Chunk} {sent : DocketEvent} (reads : before.ev.read = true)
    (data : (before.queued (.writeBufferForce buffer)).writeData results eventCb writeCb = some sent)
    (opened : sent.isOpen = true) (unwatched : sent.Watched = false)
    (written : before.write (.writeBufferForce buffer) results eventCb writeCb = some after) :
    ¬HearsData after := by
  obtain ⟨queues, -⟩ | ⟨-, sent', data', ⟨plain, -⟩ | ⟨-, -, rfl⟩⟩ := write_cases _ written
  · cases queues
  · cases plain
  · obtain rfl := Option.some.inj (data.symm.trans data')
    intro hears
    have watched : sent.Watched = true := hears opened reads
    rw [unwatched] at watched
    cases watched

/-- A remote leg: reading is disabled before the reply is sent and enabled behind it. -/
def pausedLeg : List EventInput := [.call (.setReadEnable false), .call (.setReadEnable true)]

theorem pausedLeg_hears : ∃ last outs, Run.run step (accepted false) pausedLeg = some (last, outs) ∧
    last.isOpen = true ∧ last.ev.read = true ∧ HearsData last :=
  ⟨_, _, rfl, rfl, rfl, run_hears (accepted false) ⟨rfl, rfl, rfl, rfl⟩ pausedLeg (by decide) rfl⟩

/-- Data that arrives in between deletes the filter. -/
theorem early_data_unheard : ¬∀ start : DocketEvent, Connected start →
    ∀ (inputs : List EventInput) (last : DocketEvent) (outs : List Unit),
      Run.run step start inputs = some (last, outs) → HearsData last := by
  intro claim
  have hears := claim (accepted false) ⟨rfl, rfl, rfl, rfl⟩
    [.call (.setReadEnable false), .readable .pending [] [] ⟨[], [], []⟩, .call (.setReadEnable true)] _ _ rfl
  exact absurd (hears rfl rfl) (by decide)

end DocketEvent
end Devent
