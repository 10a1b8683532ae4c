import Devent.Event.Identity
import Devent.Event.Tabled

/-! Writes to an event that the write may release: `devent_write_data` closes it when a send
fails, or its write callback frees it, and says nothing of it to the caller. -/
namespace Devent.Docket

/-- The chunks join the out-buffer. -/
def append (docket : Docket) (chunks : List Chunk) (id : Nat) : Docket :=
  (docket.touch .use id).modify id fun event => { event with outBuffer := event.outBuffer ++ chunks }

/-- `DocketEvent_write`. -/
def write (docket : Docket) (len : Nat) (script : FlushActs) (id : Nat) : Option Docket :=
  let docket := docket.append (chunksOf len) id
  if (docket.event id).ev.write then docket.writeData script id else some docket

/-- `DocketEvent_write_buffer`. -/
def writeBuffer (docket : Docket) (buffer : List Chunk) (script : FlushActs) (id : Nat) : Option Docket :=
  (docket.append buffer id).writeData script id

/-- `DocketEvent_write_buffer_force`, up to the return of `devent_write_data`. -/
def forced (docket : Docket) (buffer : List Chunk) (script : FlushActs) (id : Nat) : Option Docket :=
  ((docket.append buffer id).modify id fun event => event.setWrite true).writeData script id

/-- `DocketEvent_write_buffer_force`; the saved bits go into whatever the event is now. -/
def writeBufferForce (docket : Docket) (buffer : List Chunk) (script : FlushActs) (id : Nat) : Option Docket := do
  let ev := (docket.event id).ev
  let docket ← docket.forced buffer script id
  return (docket.touch .use id).modify id fun event => { event with ev := ev }

/-- Some send fails before the queue is empty or a send is refused for now. -/
def sendsFail : List SendResult → List Chunk → Bool
  | _, [] | [], _ => false
  | result :: rest, _ :: queue =>
    if result.wr = -1 then !result.again else decide (result.wr = 0) || sendsFail rest queue

variable {docket before middle after : Docket} {id : Nat} {fd : Int} {acts : List Act} {present : Bool}

/-- Every event that the call itself reads, writes or closes is allocated. -/
def Unreleased (before after : Docket) : Prop := ∀ touch, .own touch ∈ news before after → touch.live = true

theorem AboutOnly.unreleased (about : AboutOnly id before after) : Unreleased before after :=
  fun _ member => (about _ member).2

theorem unreleased_trans_iff (first : Evolves before middle) (second : Evolves middle after) :
    Unreleased before after ↔ Unreleased before middle ∧ Unreleased middle after := by
  rw [Unreleased, first.news_trans second]
  simp only [List.mem_append, or_imp, forall_and]
  rfl

theorem unreleased_touch_iff {kind : TouchKind} : Unreleased docket (docket.touch kind id) ↔ docket.live id = true := by
  have entries : news docket (docket.touch kind id) = [.own ⟨kind, id, docket.live id⟩] := news_eq rfl
  rw [Unreleased, entries]
  simp

theorem unreleased_close_iff {found : Nat} :
    Unreleased docket ((docket.touch .close found).freeEvent found) ↔ docket.live found = true := by
  have entries : news docket ((docket.touch .close found).freeEvent found) =
      [.own ⟨.close, found, docket.live found⟩] := by
    apply news_eq
    rw [log_freeEvent]
    rfl
  rw [Unreleased, entries]
  simp

/-- The event callback, where set, does not free the event. -/
def EventKeeps (docket : Docket) (onEvent : List Act) (id : Nat) : Prop :=
  (docket.event id).eventCb = true → .free id ∉ onEvent

def WriteKeeps (docket : Docket) (onWrite : List Act) (id : Nat) : Prop :=
  (docket.event id).writeCb = true → .free id ∉ onWrite

theorem notMem_ite_iff : .free id ∉ (if present then acts else []) ↔ (present = true → .free id ∉ acts) := by
  cases present <;> simp

/-- What the event callback of a close leaves. Under 0 the table still has the event, freed or not. -/
structure Warned (docket : Docket) (onEvent : List Act) (id : Nat) (middle : Docket) : Prop where
  evolves : Evolves docket middle
  tabled : middle.Tabled
  unreleased : Unreleased docket middle
  keeps : middle.live id = true ↔ docket.EventKeeps onEvent id
  fd : middle.live id = true → (middle.heap id).fd = (docket.heap id).fd
  registered : middle.live id = true → 0 ≤ (docket.heap id).fd → middle.findEvent (docket.heap id).fd = some id
  zero : (docket.heap id).fd = 0 → middle.findEvent (docket.heap id).fd = some id

theorem called_warned {onEvent : List Act} (tabled : docket.Tabled) (known : id < docket.next)
    (live : docket.live id = true)
    (called : (docket.closing id).callback (docket.event id).eventCb onEvent id = some middle) :
    Warned docket onEvent id middle := by
  have closing := closing_evolves tabled.sound id
  have tabled' : (docket.closing id).Tabled := tabled.congr rfl rfl rfl
    (fd_modify (docket.touch .use id) id _) (live_closing docket id)
  have acted := callback_acted tabled' called
  have alive : (docket.closing id).live id = true := (live_closing docket id id).trans live
  have both := closing.trans acted.evolves
  have fd (still : middle.live id = true) : (middle.heap id).fd = (docket.heap id).fd :=
    (acted.fd id known still).2.trans (fd_modify (docket.touch .use id) id _ id)
  refine ⟨both, acted.tabled, ?_, (acted.live id known alive).trans notMem_ite_iff, fd, fun still natural => ?_,
    fun null => ?_⟩
  · refine (unreleased_trans_iff closing acted.evolves).mpr ⟨?_, ?_⟩
    · exact (aboutOnly_closing tabled.sound live).unreleased
    · exact (aboutOnly_callback closing.sound alive called).unreleased
  · have known' : id < middle.next := Nat.lt_of_lt_of_le known both.next
    exact fd still ▸ (acted.tabled.sound.registered id known' still (by rw [fd still]; exact natural)).1
  · have registered := (tabled.sound.registered id known live (by omega)).1
    rw [null] at registered ⊢
    exact acted.zero id registered

/-- What `devent_close_internal` leaves of an event, by its descriptor. Under 0 the table
still has the event that the callback freed. -/
theorem closeInternal_spec {onEvent : List Act} (tabled : docket.Tabled) (known : id < docket.next)
    (live : docket.live id = true) (closed : docket.closeInternal onEvent id = some after) :
    after.Tabled ∧
      (Unreleased docket after ↔ ((docket.heap id).fd = 0 → docket.EventKeeps onEvent id)) ∧
      (after.live id = true ↔ (docket.heap id).fd < 0 ∧ docket.EventKeeps onEvent id) ∧
      (after.live id = true → (after.heap id).fd = (docket.heap id).fd) := by
  obtain ⟨middle, called, rest⟩ := closeInternal_cases closed
  have warned := called_warned tabled known live called
  obtain ⟨none, rfl⟩ | ⟨found, entry, rfl⟩ := rest
  · have nonzero : (docket.heap id).fd ≠ 0 := by
      intro null
      rw [warned.zero null] at none
      cases none
    refine ⟨warned.tabled, iff_of_true warned.unreleased fun null => absurd null nonzero, ?_, warned.fd⟩
    rw [warned.keeps]
    refine ⟨fun kept => ⟨?_, kept⟩, And.right⟩
    by_contra natural
    rw [warned.registered (warned.keeps.mpr kept) (by omega)] at none
    cases none
  · have natural := (warned.tabled.natural _ found entry).1
    have bound := warned.tabled.sound.known _ found entry
    have closes : Evolves middle ((middle.touch .close found).freeEvent found) :=
      close_evolves warned.tabled.sound bound
    have gone : ((middle.touch .close found).freeEvent found).live id = false := by
      rw [live_freeEvent]
      by_cases still : middle.live id = true
      · rw [warned.registered still natural] at entry
        rw [if_pos (Option.some.inj entry)]
      · have dead : (middle.touch .close found).live id = false := Bool.eq_false_of_not_eq_true still
        rw [dead, ite_self]
    have touched : (middle.touch .close found).Tabled :=
      warned.tabled.congr rfl rfl rfl (fun _ => rfl) fun _ => rfl
    refine ⟨touched.freeEvent bound, ?_, ?_, fun live' => ?_⟩
    · rw [unreleased_trans_iff warned.evolves closes, unreleased_close_iff, and_iff_right warned.unreleased]
      by_cases null : (docket.heap id).fd = 0
      · rw [warned.zero null] at entry
        obtain rfl := Option.some.inj entry
        rw [warned.keeps]
        exact ⟨fun kept _ => kept, fun kept => kept null⟩
      · refine iff_of_true ?_ fun zero => absurd zero null
        by_contra dead
        exact null (warned.tabled.stale _ found entry (Bool.eq_false_of_not_eq_true dead))
    · rw [gone]
      exact iff_of_false (by decide) fun both => absurd both.1 (by omega)
    · rw [gone] at live'
      cases live'

/-- The same events and table, and the same callbacks of one event. -/
structure Alike (id : Nat) (before after : Docket) : Prop where
  evolves : Evolves before after
  log : after.log = before.log
  next : after.next = before.next
  tabled : after.Tabled
  fd : (after.heap id).fd = (before.heap id).fd
  live : after.live id = before.live id
  eventCb : (after.event id).eventCb = (before.event id).eventCb
  writeCb : (after.event id).writeCb = (before.event id).writeCb

theorem Alike.refl (id : Nat) (tabled : docket.Tabled) : Alike id docket docket :=
  ⟨.refl tabled.sound, rfl, rfl, tabled, rfl, rfl, rfl, rfl⟩

theorem Alike.trans (first : Alike id before middle) (second : Alike id middle after) : Alike id before after :=
  ⟨first.evolves.trans second.evolves, second.log.trans first.log, second.next.trans first.next, second.tabled,
    second.fd.trans first.fd, second.live.trans first.live, second.eventCb.trans first.eventCb,
    second.writeCb.trans first.writeCb⟩

/-- A change of fields other than the callbacks. -/
theorem modify_alike (tabled : docket.Tabled) {f : DocketEvent → DocketEvent}
    (keeps : ∀ event, (f event).isOpen = event.isOpen) (eventCb : ∀ event, (f event).eventCb = event.eventCb)
    (writeCb : ∀ event, (f event).writeCb = event.writeCb) (id : Nat) : Alike id docket (docket.modify id f) where
  evolves := modify_evolves tabled.sound keeps id
  log := rfl
  next := rfl
  tabled := tabled.congr rfl rfl rfl (fd_modify docket id f) (live_modify keeps docket id)
  fd := fd_modify docket id f id
  live := live_modify keeps docket id id
  eventCb := by rw [event_modify, eventCb]
  writeCb := by rw [event_modify, writeCb]

theorem Alike.unreleased_iff (alike : Alike id before middle) (later : Evolves middle after) :
    Unreleased before after ↔ Unreleased middle after := by
  rw [unreleased_trans_iff alike.evolves later]
  refine and_iff_right fun touch member => ?_
  rw [news, alike.log, List.drop_length] at member
  cases member

/-- What the loop of `devent_write_data` comes to: all callbacks are behind it. -/
theorem Sends.outcome {onEvent : List Act} {results : List SendResult} {going : Bool}
    (rounds : Sends onEvent id results docket after going) (tabled : docket.Tabled)
    (enabled : (docket.event id).ev.write = true) :
    sendsFail results (docket.event id).outBuffer = false ∧ going = true ∧ Alike id docket after ∨
      sendsFail results (docket.event id).outBuffer = true ∧ going = false ∧
        ∃ middle, Alike id docket middle ∧ middle.closeInternal onEvent id = some after := by
  induction rounds with
  | @done results docket stops =>
    have empty : (docket.event id).outBuffer = [] := by
      by_contra filled
      exact stops ⟨enabled, DocketEvent.outLength_pos_iff.mpr filled⟩
    refine .inl ⟨?_, rfl, .refl id tabled⟩
    rw [empty]
    cases results <;> rfl
  | @refused result rest docket after going sends failed again later ih =>
    have disarmed := modify_alike (f := fun e => (e.setWrite false).updateEvents) tabled
      keeps_disarm (fun _ => rfl) (fun _ => rfl) id
    obtain ⟨chunk, chunks, queue⟩ := List.exists_cons_of_ne_nil (DocketEvent.outLength_pos_iff.mp sends.2)
    -- with the bit cleared the next round is the last
    have ended : going = true ∧ after = docket.modify id fun e => (e.setWrite false).updateEvents := by
      cases later with
      | done => exact ⟨rfl, rfl⟩
      | refused sends | broken sends | sent sends =>
        rw [event_modify] at sends
        cases sends.1
    obtain ⟨rfl, rfl⟩ := ended
    refine .inl ⟨?_, rfl, disarmed⟩
    rw [queue, sendsFail, if_pos failed, again]
    rfl
  | @broken result rest docket after sends broken closes =>
    obtain ⟨chunk, chunks, queue⟩ := List.exists_cons_of_ne_nil (DocketEvent.outLength_pos_iff.mp sends.2)
    refine .inr ⟨?_, rfl, docket, .refl id tabled, closes⟩
    rw [queue, sendsFail]
    obtain ⟨failed, broken⟩ | nothing := broken
    · rw [if_pos failed, Bool.eq_false_of_not_eq_true broken]
      rfl
    · rw [nothing]
      rfl
  | @sent result rest docket after going sends accepted something later ih =>
    have dropped := modify_alike (f := fun e => { e with outBuffer := e.outBuffer.tail }) tabled
      keeps_tail (fun _ => rfl) (fun _ => rfl) id
    obtain ⟨chunk, chunks, queue⟩ := List.exists_cons_of_ne_nil (DocketEvent.outLength_pos_iff.mp sends.2)
    have behind := ih dropped.tabled (by rw [event_modify]; exact enabled)
    rw [event_modify, queue, List.tail_cons] at behind
    rw [queue, sendsFail, if_neg accepted, decide_eq_false something, Bool.false_or]
    obtain ⟨drained, going, alike⟩ | ⟨fails, gone, middle, alike, closes⟩ := behind
    · exact .inl ⟨drained, going, dropped.trans alike⟩
    · exact .inr ⟨fails, gone, middle, dropped.trans alike, closes⟩

/-- `devent_write_data` sends, and a send fails. -/
def flushFails (docket : Docket) (script : FlushActs) (id : Nat) : Bool :=
  (docket.event id).ev.write && sendsFail script.results (docket.event id).outBuffer

/-- What one `devent_write_data` leaves of its event. -/
structure Written (docket : Docket) (script : FlushActs) (id : Nat) (after : Docket) : Prop where
  tabled : after.Tabled
  evolves : Evolves docket after
  unreleased : Unreleased docket after ↔ (docket.flushFails script id = true → (docket.heap id).fd = 0 →
    docket.EventKeeps script.onEvent id)
  live : after.live id = true ↔ if docket.flushFails script id then
      (docket.heap id).fd < 0 ∧ docket.EventKeeps script.onEvent id
    else docket.WriteKeeps script.onWrite id
  fd : after.live id = true → (after.heap id).fd = (docket.heap id).fd

/-- A use of an event that is allocated. -/
theorem used (tabled : docket.Tabled) (live : docket.live id = true) :
    (docket.touch .use id).Tabled ∧ Evolves docket (docket.touch .use id) ∧
      ∀ {after}, Evolves (docket.touch .use id) after →
        (Unreleased docket after ↔ Unreleased (docket.touch .use id) after) := by
  have touched := touch_evolves tabled.sound .use (by decide) id
  refine ⟨tabled.congr rfl rfl rfl (fun _ => rfl) fun _ => rfl, touched, fun later => ?_⟩
  rw [unreleased_trans_iff touched later]
  exact and_iff_right (unreleased_touch_iff.mpr live)

/-- The write callback behind sends that have not failed. -/
theorem called_written {script : FlushActs} (tabled : docket.Tabled) (known : id < docket.next)
    (live : docket.live id = true) (passed : docket.flushFails script id = false)
    (alike : Alike id (docket.touch .use id) middle)
    (called : middle.callback (middle.event id).writeCb script.onWrite id = some after) :
    Written docket script id after := by
  obtain ⟨-, touched, unreleased⟩ := used tabled live
  have acted := callback_acted alike.tabled called
  have alive : middle.live id = true := alike.live.trans live
  have bound : id < middle.next := alike.next ▸ known
  have quiet : Unreleased docket after := by
    rw [unreleased (alike.evolves.trans acted.evolves), alike.unreleased_iff acted.evolves]
    exact (aboutOnly_callback alike.tabled.sound alive called).unreleased
  refine ⟨acted.tabled, (touched.trans alike.evolves).trans acted.evolves, ?_, ?_, ?_⟩
  · rw [passed]
    exact iff_of_true quiet nofun
  · rw [acted.live id bound alive, notMem_ite_iff, alike.writeCb, passed]
    rfl
  · exact fun still => (acted.fd id bound still).2.trans alike.fd

theorem writeData_spec {script : FlushActs} (tabled : docket.Tabled) (known : id < docket.next)
    (live : docket.live id = true) (written : docket.writeData script id = some after) :
    Written docket script id after := by
  obtain ⟨tabled', touched, unreleased⟩ := used tabled live
  obtain ⟨middle, going, sent, rest⟩ := writeData_cases written
  obtain ⟨sends, sent⟩ | ⟨idle, rfl, rfl⟩ := sent
  · obtain ⟨passed, rfl, alike⟩ | ⟨fails, rfl, started, alike, closes⟩ :=
      (sendLoop_sends sent).outcome tabled' sends
    · have passed' : docket.flushFails script id = false := by
        rw [flushFails, sends]
        exact passed
      obtain ⟨stopped, -⟩ | ⟨-, called⟩ := rest
      · cases stopped
      · exact called_written tabled known live passed' alike called
    · have fails' : docket.flushFails script id = true := by
        rw [flushFails, sends]
        exact fails
      obtain ⟨-, rfl⟩ | ⟨stopped, -⟩ := rest
      · obtain ⟨tabled'', clean, lives, fd⟩ :=
          closeInternal_spec alike.tabled (alike.next ▸ known) (alike.live.trans live) closes
        have later := closeInternal_evolves alike.tabled.sound closes
        have same : started.EventKeeps script.onEvent id ↔ docket.EventKeeps script.onEvent id := by
          rw [EventKeeps, EventKeeps, alike.eventCb]
          rfl
        have fds : (started.heap id).fd = (docket.heap id).fd := alike.fd
        refine ⟨tabled'', (touched.trans alike.evolves).trans later, ?_, ?_, fun still => (fd still).trans fds⟩
        · rw [unreleased (alike.evolves.trans later), alike.unreleased_iff later, clean, fds, same]
          exact ⟨fun kept _ => kept, fun kept => kept fails'⟩
        · rw [lives, fds, same, if_pos fails']
      · cases stopped
  · have passed : docket.flushFails script id = false := by
      rw [flushFails, idle, Bool.false_and]
    obtain ⟨stopped, -⟩ | ⟨-, called⟩ := rest
    · cases stopped
    · have armed := modify_alike tabled' keeps_arm (fun _ => rfl) (fun _ => rfl) id
      exact called_written tabled known live passed armed called

/-- A send fails on the way through the queue with the new chunks. -/
def fails (docket : Docket) (chunks : List Chunk) (script : FlushActs) (id : Nat) : Bool :=
  sendsFail script.results ((docket.event id).outBuffer ++ chunks)

/-- A write that uses no released event: it sends nothing, no send fails, or the event is
not under descriptor 0 with a callback that frees it. -/
def WriteClean (docket : Docket) (chunks : List Chunk) (script : FlushActs) (id : Nat) : Prop :=
  (docket.event id).ev.write = true → docket.fails chunks script id = true → (docket.heap id).fd = 0 →
    docket.EventKeeps script.onEvent id

/-- A write that leaves the event allocated. -/
def WriteLeaves (docket : Docket) (len : Nat) (script : FlushActs) (id : Nat) : Prop :=
  (docket.event id).ev.write = true →
    if docket.fails (chunksOf len) script id then (docket.heap id).fd < 0 ∧ docket.EventKeeps script.onEvent id
    else docket.WriteKeeps script.onWrite id

/-- The event is registered, no send fails, and its write callback does not free it. -/
def ForceSafe (docket : Docket) (buffer : List Chunk) (script : FlushActs) (id : Nat) : Prop :=
  docket.Registered id ∧ docket.fails buffer script id = false ∧ docket.WriteKeeps script.onWrite id

theorem WriteLeaves.clean {len : Nat} {script : FlushActs} (leaves : docket.WriteLeaves len script id) :
    docket.WriteClean (chunksOf len) script id := by
  intro armed failing null
  have kept := leaves armed
  rw [if_pos failing] at kept
  omega

theorem append_alike (tabled : docket.Tabled) (live : docket.live id = true) (chunks : List Chunk) :
    Alike id (docket.touch .use id) (docket.append chunks id) :=
  modify_alike (f := fun event => { event with outBuffer := event.outBuffer ++ chunks }) (used tabled live).1
    (fun _ => rfl) (fun _ => rfl) (fun _ => rfl) id

theorem event_append (docket : Docket) (chunks : List Chunk) (id : Nat) : (docket.append chunks id).event id =
    { docket.event id with outBuffer := (docket.event id).outBuffer ++ chunks } := event_modify _ id _

/-- A write behind some change of the out-buffer and the bits. -/
theorem flushed_spec {script : FlushActs} {started : Docket} (tabled : docket.Tabled) (known : id < docket.next)
    (live : docket.live id = true) (alike : Alike id (docket.touch .use id) started)
    (written : started.writeData script id = some after) :
    after.Tabled ∧ Evolves docket after ∧
      (Unreleased docket after ↔ (started.flushFails script id = true → (docket.heap id).fd = 0 →
        docket.EventKeeps script.onEvent id)) ∧
      (after.live id = true ↔ if started.flushFails script id then
        (docket.heap id).fd < 0 ∧ docket.EventKeeps script.onEvent id else docket.WriteKeeps script.onWrite id) ∧
      (after.live id = true → (after.heap id).fd = (docket.heap id).fd) := by
  obtain ⟨-, touched, unreleased⟩ := used tabled live
  have spec := writeData_spec alike.tabled (alike.next ▸ known) (alike.live.trans live) written
  have fds : (started.heap id).fd = (docket.heap id).fd := alike.fd
  have eventKeeps : started.EventKeeps script.onEvent id ↔ docket.EventKeeps script.onEvent id := by
    rw [EventKeeps, EventKeeps, alike.eventCb]
    rfl
  have writeKeeps : started.WriteKeeps script.onWrite id ↔ docket.WriteKeeps script.onWrite id := by
    rw [WriteKeeps, WriteKeeps, alike.writeCb]
    rfl
  refine ⟨spec.tabled, (touched.trans alike.evolves).trans spec.evolves, ?_, ?_,
    fun still => (spec.fd still).trans fds⟩
  · rw [unreleased (alike.evolves.trans spec.evolves), alike.unreleased_iff spec.evolves, spec.unreleased, fds,
      eventKeeps]
  · rw [spec.live, fds, eventKeeps, writeKeeps]

theorem write_spec {len : Nat} {script : FlushActs} (tabled : docket.Tabled) (known : id < docket.next)
    (live : docket.live id = true) (written : docket.write len script id = some after) :
    after.Tabled ∧ Evolves docket after ∧
      (Unreleased docket after ↔ docket.WriteClean (chunksOf len) script id) ∧
      (after.live id = true ↔ docket.WriteLeaves len script id) := by
  have alike := append_alike tabled live (chunksOf len)
  have event := event_append docket (chunksOf len) id
  rw [WriteClean, WriteLeaves]
  simp only [write] at written
  split at written
  · rename_i sends
    have armed : (docket.event id).ev.write = true := by
      rw [event] at sends
      exact sends
    have failing : (docket.append (chunksOf len) id).flushFails script id = docket.fails (chunksOf len) script id := by
      rw [flushFails, sends, event]
      rfl
    obtain ⟨tabled', evolves, clean, lives, -⟩ := flushed_spec tabled known live alike written
    refine ⟨tabled', evolves, ?_, ?_⟩
    · rw [clean, failing]
      exact ⟨fun kept _ => kept, fun kept => kept armed⟩
    · rw [lives, failing]
      exact ⟨fun kept _ => kept, fun kept => kept armed⟩
  · rename_i idle
    have disarmed : ¬(docket.event id).ev.write = true := by
      rw [event] at idle
      exact idle
    cases written
    obtain ⟨-, touched, unreleased⟩ := used tabled live
    refine ⟨alike.tabled, touched.trans alike.evolves, ?_, ?_⟩
    · refine iff_of_true ?_ fun armed => absurd armed disarmed
      exact (unreleased alike.evolves).mpr (aboutOnly_modify id _ id _).unreleased
    · exact iff_of_true (alike.live.trans live) fun armed => absurd armed disarmed

theorem writeBuffer_unreleased_iff {buffer : List Chunk} {script : FlushActs} (tabled : docket.Tabled)
    (known : id < docket.next) (live : docket.live id = true)
    (written : docket.writeBuffer buffer script id = some after) :
    Unreleased docket after ↔ docket.WriteClean buffer script id := by
  obtain ⟨-, -, clean, -⟩ := flushed_spec tabled known live (append_alike tabled live buffer) written
  rw [clean, flushFails, event_append, Bool.and_eq_true, and_imp]
  rfl

theorem forced_spec {buffer : List Chunk} {script : FlushActs} (tabled : docket.Tabled)
    (known : id < docket.next) (live : docket.live id = true)
    (written : docket.forced buffer script id = some after) :
    after.Tabled ∧ Evolves docket after ∧
      (Unreleased docket after ↔ (docket.fails buffer script id = true → (docket.heap id).fd = 0 →
        docket.EventKeeps script.onEvent id)) ∧
      (after.live id = true ↔ if docket.fails buffer script id then
        (docket.heap id).fd < 0 ∧ docket.EventKeeps script.onEvent id else docket.WriteKeeps script.onWrite id) ∧
      (after.live id = true → (after.heap id).fd = (docket.heap id).fd) := by
  have alike := append_alike tabled live buffer
  have armed := modify_alike (f := fun event => event.setWrite true) alike.tabled (fun _ => rfl) (fun _ => rfl)
    (fun _ => rfl) id
  have failing : ((docket.append buffer id).modify id fun event => event.setWrite true).flushFails script id =
      docket.fails buffer script id := by
    rw [flushFails, event_modify, event_append]
    rfl
  have spec := flushed_spec tabled known live (alike.trans armed) written
  rw [failing] at spec
  exact spec

/-- Forcing a buffer out restores the bits of an event that is still registered. -/
def RestoresRegistered (docket : Docket) (buffer : List Chunk) (script : FlushActs) (id : Nat) : Prop :=
  ∀ middle, docket.forced buffer script id = some middle → middle.Registered id

theorem writeBufferForce_iff {buffer : List Chunk} {script : FlushActs} (tabled : docket.Tabled)
    (known : id < docket.next) (live : docket.live id = true)
    (written : docket.writeBufferForce buffer script id = some after) :
    Unreleased docket after ∧ docket.RestoresRegistered buffer script id ↔ docket.ForceSafe buffer script id := by
  obtain ⟨middle, forced, same⟩ := Option.bind_eq_some_iff.mp written
  cases same
  obtain ⟨tabled', evolves, clean, lives, fd⟩ := forced_spec tabled known live forced
  have known' : id < middle.next := Nat.lt_of_lt_of_le known evolves.next
  have registered : docket.RestoresRegistered buffer script id ↔ middle.Registered id := by
    rw [RestoresRegistered, forced]
    simp
  have touched := touch_evolves tabled'.sound .use (by decide) id
  have restored := modify_evolves (f := fun event => { event with ev := (docket.event id).ev }) touched.sound
    (fun _ => rfl) id
  have uses : Unreleased docket ((middle.touch .use id).modify id fun event =>
      { event with ev := (docket.event id).ev }) ↔ Unreleased docket middle ∧ middle.live id = true := by
    rw [unreleased_trans_iff evolves (touched.trans restored), unreleased_trans_iff touched restored,
      unreleased_touch_iff]
    exact and_congr_right fun _ => and_iff_left (aboutOnly_modify id _ id _).unreleased
  rw [uses, registered, ForceSafe]
  cases failing : docket.fails buffer script id with
  | true =>
    rw [failing] at lives
    refine iff_of_false ?_ (by simp)
    rintro ⟨⟨-, still⟩, there⟩
    have natural := (tabled'.registered_iff known' still).mp there
    have unowned := (lives.mp still).1
    rw [fd still] at natural
    omega
  | false =>
    rw [failing] at lives clean
    constructor
    · rintro ⟨⟨-, still⟩, there⟩
      have natural := (tabled'.registered_iff known' still).mp there
      rw [fd still] at natural
      exact ⟨(tabled.registered_iff known live).mpr natural, rfl, lives.mp still⟩
    · rintro ⟨there, -, keeps⟩
      have still := lives.mpr keeps
      have natural := (tabled.registered_iff known live).mp there
      refine ⟨⟨clean.mpr nofun, still⟩, (tabled'.registered_iff known' still).mpr ?_⟩
      rw [fd still]
      exact natural

theorem append_evolves (sound : docket.Sound) (chunks : List Chunk) (id : Nat) :
    Evolves (docket.touch .use id) (docket.append chunks id) :=
  modify_evolves (f := fun event => { event with outBuffer := event.outBuffer ++ chunks })
    (touch_evolves sound .use (by decide) id).sound (fun _ => rfl) id

theorem writeBufferForce_evolves {buffer : List Chunk} {script : FlushActs} (sound : docket.Sound)
    (written : docket.writeBufferForce buffer script id = some after) : Evolves docket after := by
  obtain ⟨middle, forced, same⟩ := Option.bind_eq_some_iff.mp written
  cases same
  have appended := (touch_evolves sound .use (by decide) id).trans (append_evolves sound buffer id)
  have armed := modify_evolves (f := fun event => event.setWrite true) appended.sound (fun _ => rfl) id
  have evolves := (appended.trans armed).trans (writeData_evolves armed.sound forced)
  have touched := touch_evolves evolves.sound .use (by decide) id
  exact evolves.trans (touched.trans (modify_evolves (f := fun event => { event with ev := (docket.event id).ev })
    touched.sound (fun _ => rfl) id))

/-- `Docket_new` has an empty table. -/
theorem opened_tabled : opened.Tabled where
  sound := opened_sound
  natural := nofun
  owned := nofun
  stale := nofun

end Devent.Docket
