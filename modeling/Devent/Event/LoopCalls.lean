import Devent.Event.LoopHandlers

/-! A handler of the loop is the handler of its docket, with the calls of the callbacks that concern events. -/
namespace Devent

def LoopAct.base : LoopAct → List Act
  | .free id => [.free id]
  | .create fd event _ => [.create fd event]
  | .connectHostname _ event _ => [.connectHostname event]
  | .set id event => [.set id event]
  | .createListener _ _ _ => []

def baseActs (acts : List LoopAct) : List Act := acts.flatMap LoopAct.base

def LoopFlush.base (script : LoopFlush) : FlushActs :=
  ⟨script.results, baseActs script.onEvent, baseActs script.onWrite⟩

def LoopHandshake.base : LoopHandshake → HandshakeActs
  | .done listener => .done (baseActs listener)
  | .pending => .pending
  | .failed onEvent => .failed (baseActs onEvent)

def LoopRead.base (script : LoopRead) : ReadActs :=
  ⟨script.handshake.base, script.reads.map fun read => (read.1, baseActs read.2), baseActs script.final,
    script.flush.base⟩

namespace LoopDocket
open Holdings
variable {loop middle after : LoopDocket} {id dns : Nat} {fd : Int} {act : LoopAct} {acts : List LoopAct}
  {present : Bool}

/-- No event has the descriptor of a DNS event. -/
theorem freeDnsEvent_docket (closed : loop.docket.openFds (loop.dnsHeap dns).dnsFd = false) :
    (loop.freeDnsEvent dns).docket = loop.docket := by
  have same : Function.update loop.docket.openFds (loop.dnsHeap dns).dnsFd false = loop.docket.openFds := by
    rw [← closed, Function.update_eq_self]
  have shut : { loop.docket with openFds := Function.update loop.docket.openFds (loop.dnsHeap dns).dnsFd false } =
      loop.docket := congrArg (fun openFds => { loop.docket with openFds := openFds }) same
  simp only [freeDnsEvent]
  split <;> split
  · exact shut
  · rfl
  · exact shut
  · rfl

theorem linked_closed (safe : loop.held.Safe) (linked : loop.held.Linked dns id) :
    loop.docket.openFds (loop.dnsHeap dns).dnsFd = false := safe.owned.apart _ linked.opened

theorem dropDnsEvent_docket (safe : loop.held.Safe) (live : loop.docket.live id = true) :
    (loop.dropDnsEvent id).docket = loop.docket := by
  rw [dropDnsEvent]
  split
  · rename_i dns back
    exact freeDnsEvent_docket (linked_closed safe (safe.lookedUp.back live back))
  · rfl

theorem freeEvent_docket (safe : loop.held.Safe) (live : loop.docket.live id = true) :
    (loop.freeEvent id).docket = loop.docket.freeEvent id :=
  congrArg (Docket.freeEvent · id) (dropDnsEvent_docket safe live)

theorem perform_docket (safe : loop.held.Safe) (performed : loop.perform act = some after) :
    loop.docket.performAll act.base = some after.docket := by
  cases act with
  | free id =>
    simp only [perform] at performed
    split at performed
    · rename_i allowed
      cases performed
      simp only [LoopAct.base, Docket.performAll, List.foldlM_cons, List.foldlM_nil, Docket.perform, if_pos allowed,
        onDocket, freeEvent_docket safe allowed.2]
      rfl
    · cases performed
  | create fd event connected =>
    simp only [perform] at performed
    split at performed
    · rename_i allowed
      obtain ⟨opened, opens, performed⟩ := Option.bind_eq_some_iff.mp performed
      obtain ⟨positive, closed, -, rfl⟩ := opens_some opens
      cases performed
      have fits : 0 ≤ fd ∧ loop.docket.openFds fd = false ∧ event.isOpen = true :=
        ⟨Int.le_of_lt positive, closed, allowed.1⟩
      simp only [LoopAct.base, Docket.performAll, List.foldlM_cons, List.foldlM_nil, Docket.perform, if_pos fits]
      rfl
    · cases performed
  | connectHostname dnsFd event ssl =>
    simp only [perform] at performed
    split at performed
    · rename_i allowed
      simp only [LoopAct.base, Docket.performAll, List.foldlM_cons, List.foldlM_nil, Docket.perform, if_pos allowed.1]
      cases dnsFd with
      | none =>
        cases performed
        rfl
      | some dnsFd =>
        obtain ⟨opened, opens, performed⟩ := Option.bind_eq_some_iff.mp performed
        obtain ⟨-, -, -, rfl⟩ := opens_some opens
        cases performed
        rfl
    · cases performed
  | set id event =>
    simp only [perform] at performed
    split at performed
    · rename_i allowed
      obtain ⟨known, live, opened, -⟩ := allowed
      cases performed
      have fits : id < loop.docket.next ∧ loop.docket.live id = true ∧ event.isOpen = true :=
        ⟨known, live, opened⟩
      simp only [LoopAct.base, Docket.performAll, List.foldlM_cons, List.foldlM_nil, Docket.perform, if_pos fits]
      rfl
    · cases performed
  | createListener fd listening ssl =>
    obtain ⟨opened, opens, performed⟩ := Option.bind_eq_some_iff.mp performed
    obtain ⟨-, -, -, rfl⟩ := opens_some opens
    split at performed <;> cases performed <;> rfl

theorem performAll_docket (safe : loop.held.Safe) (performed : loop.performAll acts = some after) :
    loop.docket.performAll (baseActs acts) = some after.docket := by
  induction acts generalizing loop with
  | nil =>
    cases performed
    rfl
  | cons act rest ih =>
    rw [performAll, List.foldlM_cons] at performed
    obtain ⟨middle, first, performed⟩ := Option.bind_eq_some_iff.mp performed
    have later := ih ((perform_steps safe first).safe safe) performed
    have one : loop.docket.performAll act.base = some middle.docket := perform_docket safe first
    rw [Docket.performAll, baseActs, List.flatMap_cons, List.foldlM_append]
    exact Option.bind_eq_some_iff.mpr ⟨middle.docket, one, later⟩

theorem callback_docket (safe : loop.held.Safe) (called : loop.callback present acts id = some after) :
    loop.docket.callback present (baseActs acts) id = some after.docket := by
  rw [callback] at called
  rw [Docket.callback]
  split at called
  · rename_i set
    have performed : (loop.onDocket (·.touch .call id)).docket.performAll (baseActs acts) = some after.docket :=
      performAll_docket safe called
    rw [if_pos set]
    exact performed
  · rename_i unset
    cases called
    rw [if_neg unset]

theorem closeInternal_docket {onEvent : List LoopAct} (safe : loop.held.Safe) (natural : loop.held.Natural id)
    (closed : loop.closeInternal onEvent id = some after) :
    loop.docket.closeInternal (baseActs onEvent) id = some after.docket := by
  obtain ⟨called, callback, closed⟩ := Option.bind_eq_some_iff.mp closed
  have safe : (loop.onDocket (·.closing id)).held.Safe := (held_closing loop id).symm ▸ safe
  have calls : (loop.docket.closing id).callback (loop.docket.event id).eventCb (baseActs onEvent) id =
    some called.docket := callback_docket safe callback
  have safe := (callback_steps safe callback).safe safe
  apply Option.bind_eq_some_iff.mpr
  refine ⟨called.docket, calls, ?_⟩
  split at closed
  · rename_i missing
    have missing : called.docket.findEvent (loop.docket.heap id).fd = none := missing
    rw [← Option.some.inj closed]
    simp only [missing]
    rfl
  · rename_i found there
    have present := found_present safe natural.natural there
    have there : called.docket.findEvent (loop.docket.heap id).fd = some found := there
    have freed : ((called.onDocket (·.touch .close found)).freeEvent found).docket =
        (called.docket.touch .close found).freeEvent found := freeEvent_docket safe present.live
    rw [← Option.some.inj closed, freed]
    simp only [there]
    rfl

theorem sendLoop_docket {onEvent : List LoopAct} {results : List SendResult} {going : Bool} (safe : loop.held.Safe)
    (natural : loop.held.Natural id) (sent : sendLoop onEvent results id loop = some (after, going)) :
    Docket.sendLoop (baseActs onEvent) results id loop.docket = some (after.docket, going) := by
  induction results generalizing loop with
  | nil =>
    rw [sendLoop] at sent
    rw [Docket.sendLoop]
    split at sent
    · cases sent
    · rename_i idle
      cases sent
      exact if_neg idle
  | cons result rest ih =>
    rw [sendLoop] at sent
    rw [Docket.sendLoop]
    split at sent
    · rename_i sending
      refine (if_pos sending).trans ?_
      split at sent
      · split at sent
        · rename_i failed again
          have same := held_modify loop id (fun e => (e.setWrite false).updateEvents) (quiet_arm _ false)
          rw [if_pos failed, if_pos again]
          exact ih (same.symm ▸ safe) (same.symm ▸ natural) sent
        · rename_i failed broken
          obtain ⟨closed, closes, sent⟩ := Option.map_eq_some_iff.mp sent
          cases sent
          rw [if_pos failed, if_neg broken, closeInternal_docket safe natural closes]
          rfl
      · split at sent
        · rename_i going empty
          obtain ⟨closed, closes, sent⟩ := Option.map_eq_some_iff.mp sent
          cases sent
          rw [if_neg going, if_pos empty, closeInternal_docket safe natural closes]
          rfl
        · rename_i going filled
          have same := held_modify loop id (fun e => { e with outBuffer := e.outBuffer.tail }) ⟨rfl, rfl, rfl, rfl⟩
          rw [if_neg going, if_neg filled]
          exact ih (same.symm ▸ safe) (same.symm ▸ natural) sent
    · rename_i idle
      cases sent
      exact if_neg idle

theorem writeData_docket {script : LoopFlush} (safe : loop.held.Safe) (natural : loop.held.Natural id)
    (written : loop.writeData script id = some after) :
    loop.docket.writeData script.base id = some after.docket := by
  simp only [writeData, Option.bind_eq_bind] at written
  simp only [Docket.writeData, Option.bind_eq_bind]
  split at written
  · rename_i armed
    obtain ⟨⟨sent, going⟩, sending, written⟩ := Option.bind_eq_some_iff.mp written
    have steps : Steps (loop.onDocket (·.touch .use id)).held sent.held := sendLoop_steps safe natural sending
    have used : (loop.onDocket (·.touch .use id)).held.Safe := safe
    have sends : Docket.sendLoop (baseActs script.onEvent) script.results id (loop.docket.touch .use id) =
        some (sent.docket, going) := sendLoop_docket used natural sending
    refine (if_pos armed).trans (Option.bind_eq_some_iff.mpr ⟨(sent.docket, going), sends, ?_⟩)
    cases going with
    | false =>
      cases written
      rfl
    | true => exact callback_docket (steps.safe safe) written
  · rename_i disarmed
    have same : ((loop.onDocket (·.touch .use id)).modify id fun e => (e.setWrite true).updateEvents).held =
        loop.held := held_modify (loop.onDocket (·.touch .use id)) id _ (quiet_arm (loop.event id) true)
    exact (if_neg disarmed).trans (callback_docket (same.symm ▸ safe) written)

theorem doSslHandshake_docket {handshake : LoopHandshake} {ready : Bool} (safe : loop.held.Safe)
    (there : loop.Present id) (shaken : loop.doSslHandshake handshake id = some (after, ready)) :
    loop.docket.doSslHandshake handshake.base id = some (after.docket, ready) := by
  by_cases shaking : (loop.event id).ssl = true ∧ (loop.event id).sslHandshaking = true
  · have shaking' : (loop.docket.event id).ssl = true ∧ (loop.docket.event id).sslHandshaking = true := shaking
    cases handshake with
    | pending =>
      rw [doSslHandshake, if_pos shaking] at shaken
      cases shaken
      rw [LoopHandshake.base, Docket.doSslHandshake, if_pos shaking']
    | failed onEvent =>
      rw [doSslHandshake, if_pos shaking] at shaken
      obtain ⟨closed, closes, shaken⟩ := Option.map_eq_some_iff.mp shaken
      cases shaken
      rw [LoopHandshake.base, Docket.doSslHandshake, if_pos shaking',
        closeInternal_docket safe (there.natural safe) closes]
      rfl
    | done listener =>
      simp only [doSslHandshake, if_pos shaking, event_modify] at shaken
      simp only [LoopHandshake.base, Docket.doSslHandshake, if_pos shaking', Docket.event_modify]
      split at shaken
      · rename_i served
        obtain ⟨called, calling, shaken⟩ := Option.map_eq_some_iff.mp shaken
        have announced := (shaken_step there served shaking).safe safe
        have calls : (loop.docket.modify id fun event => { event with sslHandshaking := false }).callback true
            (baseActs listener) id = some called.docket := callback_docket announced calling
        have served : (loop.docket.event id).listenerCb = true := served
        cases shaken
        rw [served, calls]
        rfl
      · rename_i unserved
        cases shaken
        have unserved : (loop.docket.event id).listenerCb = false := Bool.eq_false_of_not_eq_true unserved
        rw [unserved]
        rfl
  · have idle : ¬((loop.docket.event id).ssl = true ∧ (loop.docket.event id).sslHandshaking = true) := shaking
    rw [doSslHandshake.eq_def, if_neg shaking] at shaken
    cases shaken
    rw [Docket.doSslHandshake.eq_def, if_neg idle]

theorem received_docket {len : Nat} {onRead : List LoopAct} (safe : loop.held.Safe)
    (received : loop.received len onRead id = some after) :
    loop.docket.received len (baseActs onRead) id = some after.docket := by
  rw [LoopDocket.received] at received
  rw [Docket.received]
  split at received
  · rename_i udp
    cases received
    exact if_pos udp
  · rename_i stream
    have same := held_modify (loop.onDocket (·.touch .append id)) id
      (fun event => { event with inBuffer := event.inBuffer + len }) ⟨rfl, rfl, rfl, rfl⟩
    have same : _ = loop.held := same
    exact (if_neg stream).trans (callback_docket (same.symm ▸ safe) received)

theorem readLoop_docket {reads : List (ReadResult × List LoopAct)} {last : Option (Nat × ReadResult)}
    (safe : loop.held.Safe) (looped : readLoop fd reads id loop = some (after, last)) :
    Docket.readLoop fd (reads.map fun read => (read.1, baseActs read.2)) id loop.docket =
      some (after.docket, last) := by
  induction reads generalizing loop id with
  | nil => cases looped
  | cons read rest ih =>
    obtain ⟨result, onRead⟩ := read
    simp only [readLoop, Option.bind_eq_bind] at looped
    simp only [List.map_cons, Docket.readLoop, Option.bind_eq_bind]
    split at looped
    · rename_i ended
      cases looped
      exact if_pos ended
    · rename_i data
      obtain ⟨middle, received, looped⟩ := Option.bind_eq_some_iff.mp looped
      have used : (loop.onDocket (·.touch .use id)).held.Safe := safe
      have receives : (loop.docket.touch .use id).received result.len.toNat (baseActs onRead) id =
          some middle.docket := received_docket used received
      have safe := (received_steps used received).safe used
      refine (if_neg data).trans (Option.bind_eq_some_iff.mpr ⟨middle.docket, receives, ?_⟩)
      cases entry : middle.docket.findEvent fd with
      | none =>
        rw [entry] at looped
        cases looped
        rfl
      | some found =>
        rw [entry] at looped
        simp only at looped
        split at looped
        · rename_i reading
          have touched : (middle.onDocket (·.touch .use found)).held.Safe := safe
          exact (if_pos reading).trans (ih touched looped)
        · rename_i paused
          cases looped
          exact if_neg paused

theorem endOfStream_docket {final onEvent : List LoopAct} (safe : loop.held.Safe) (natural : 0 ≤ fd)
    (ended : endOfStream fd loop final onEvent id = some after) :
    Docket.endOfStream fd loop.docket (baseActs final) (baseActs onEvent) id = some after.docket := by
  obtain ⟨called, calling, ended⟩ := Option.bind_eq_some_iff.mp ended
  have safe' := (callback_steps safe calling).safe safe
  refine Option.bind_eq_some_iff.mpr ⟨called.docket, callback_docket safe calling, ?_⟩
  cases entry : called.docket.findEvent fd with
  | none =>
    rw [entry] at ended
    rw [← Option.some.inj ended]
    rfl
  | some found =>
    rw [entry] at ended
    have present := found_present safe' natural entry
    exact closeInternal_docket safe' (present.natural safe') ended

/-- A read of the loop is the read of its docket. -/
theorem onEventRead_docket {script : LoopRead} (safe : loop.held.Safe) (there : loop.Present id)
    (read : loop.onEventRead script id = some after) : loop.docket.onEventRead script.base id = some after.docket := by
  have same : ((loop.onDocket (·.touch .use id)).modify id fun event => event.setWrite false).held = loop.held :=
    held_modify (loop.onDocket (·.touch .use id)) id _ (quiet_setWrite _ false)
  have natural := Int.le_of_lt there.bound
  have present := there.of_held same
  have safe := same.symm ▸ safe
  simp only [onEventRead, Option.bind_eq_bind] at read
  simp only [Docket.onEventRead, Option.bind_eq_bind]
  split at read
  · rename_i reading
    obtain ⟨⟨shaken, ready⟩, shaking, read⟩ := Option.bind_eq_some_iff.mp read
    have shakes := doSslHandshake_steps safe present shaking
    have known := shakes.natural (present.natural safe)
    have safe' := shakes.safe safe
    refine (if_pos reading).trans (Option.bind_eq_some_iff.mpr ⟨(shaken.docket, ready),
      doSslHandshake_docket safe present shaking, ?_⟩)
    cases ready with
    | false =>
      cases read
      rfl
    | true =>
      obtain ⟨⟨stopped, last⟩, looped, read⟩ := Option.bind_eq_some_iff.mp read
      obtain ⟨reads, known⟩ := readLoop_steps safe' known natural looped
      refine Option.bind_eq_some_iff.mpr ⟨(stopped.docket, last), readLoop_docket safe' looped, ?_⟩
      cases last with
      | none =>
        cases read
        rfl
      | some pair =>
        have known := known pair.1 pair.2 rfl
        have safe := reads.safe safe'
        by_cases more : pair.2.More
        · have written := (if_pos more).symm.trans read
          have same : ((stopped.onDocket (·.touch .use pair.1)).modify pair.1 fun event => event.setWrite true).held =
              stopped.held := held_modify (stopped.onDocket (·.touch .use pair.1)) pair.1 _ (quiet_setWrite _ true)
          exact (if_pos more).trans (writeData_docket (same.symm ▸ safe) (same.symm ▸ known) written)
        · exact (if_neg more).trans (endOfStream_docket safe natural ((if_neg more).symm.trans read))
  · rename_i paused
    cases read
    exact if_neg paused

/-- A write of the loop is the write of its docket. -/
theorem onEventWrite_docket {handshake : LoopHandshake} {flush : LoopFlush} (safe : loop.held.Safe)
    (there : loop.Present id) (written : loop.onEventWrite handshake flush id = some after) :
    loop.docket.onEventWrite handshake.base flush.base id = some after.docket := by
  have same : ((loop.onDocket (·.touch .use id)).modify id fun e => (e.setWrite false).updateEvents).held =
      loop.held := held_modify (loop.onDocket (·.touch .use id)) id _ (quiet_arm _ false)
  have present := there.of_held same
  have safe := same.symm ▸ safe
  obtain ⟨⟨shaken, ready⟩, shaking, written⟩ := Option.bind_eq_some_iff.mp written
  have shakes := doSslHandshake_steps safe present shaking
  have natural := shakes.natural (present.natural safe)
  refine Option.bind_eq_some_iff.mpr ⟨(shaken.docket, ready), doSslHandshake_docket safe present shaking, ?_⟩
  cases ready with
  | false =>
    cases written
    rfl
  | true =>
    have same : ((shaken.onDocket (·.touch .use id)).modify id fun event => event.setWrite true).held = shaken.held :=
      held_modify (shaken.onDocket (·.touch .use id)) id _ (quiet_setWrite _ true)
    simp only [if_true] at written ⊢
    split at written
    · rename_i sent
      cases written
      exact if_pos sent
    · rename_i unsent
      have safe := shakes.safe safe
      exact (if_neg unsent).trans (writeData_docket (same.symm ▸ safe) (same.symm ▸ natural) written)

end LoopDocket
end Devent
