import Devent.Event.HoldingsSafe
import Devent.Event.Evolution

/-! What a docket of the loop holds, and that the calls of a callback do nothing to it but the steps they may take. -/
namespace Devent.LoopDocket
open Holdings

/-- Who holds what in a docket. -/
def held (loop : LoopDocket) : Holdings where
  next := loop.docket.next
  live := loop.docket.live
  fd := loop.fd
  connected := loop.connected
  served id := (loop.event id).listenerCb
  shaking id := (loop.event id).ssl && (loop.event id).sslHandshaking
  events := loop.docket.events
  openFds := loop.docket.openFds
  otherFds := loop.otherFds
  dnsEvent := loop.dnsEvent
  dnsHeap := loop.dnsHeap
  nextDns := loop.nextDns
  dnsEvents := loop.dnsEvents
  marks := loop.marks

variable {loop middle after : LoopDocket} {id dns : Nat} {fd : Int} {act : LoopAct} {acts : List LoopAct}
  {present : Bool}

/-- The change is no more than what a call from a callback may change. -/
def Quiet (before after : DocketEvent) : Prop := after.isOpen = before.isOpen ∧ SameTls before after

theorem held_mark (loop : LoopDocket) (mark : Mark) : (loop.mark mark).held = loop.held.marked [mark] := rfl

/-- What is read off an updated heap. -/
theorem read_update {α : Type} (read : EventCell → α) (heap : Nat → EventCell) (id : Nat) (cell : EventCell) :
    (fun other => read (Function.update heap id cell other)) =
      Function.update (fun other => read (heap other)) id (read cell) := Function.comp_update read heap id cell

theorem read_modify {α : Type} (read : EventCell → α) (loop : LoopDocket) (id : Nat)
    (f : DocketEvent → DocketEvent) (same : read ⟨loop.fd id, f (loop.event id)⟩ = read (loop.docket.heap id)) :
    (fun other => read ((loop.modify id f).docket.heap other)) = fun other => read (loop.docket.heap other) := by
  have updated := read_update read loop.docket.heap id ⟨loop.fd id, f (loop.event id)⟩
  rw [same] at updated
  exact updated.trans (Function.update_eq_self id _)

theorem held_modify (loop : LoopDocket) (id : Nat) (f : DocketEvent → DocketEvent)
    (quiet : Quiet (loop.event id) (f (loop.event id))) :
    (loop.modify id f).held = loop.held := by
  obtain ⟨live, ssl, shaking, served⟩ := quiet
  have lives := read_modify (fun cell => cell.event.isOpen) loop id f live
  have fds := read_modify EventCell.fd loop id f rfl
  have serveds := read_modify (fun cell => cell.event.listenerCb) loop id f served
  have shakings := read_modify (fun cell => cell.event.ssl && cell.event.sslHandshaking) loop id f
    (congrArg₂ (· && ·) ssl shaking)
  exact Holdings.ext rfl lives fds rfl serveds shakings rfl rfl rfl rfl rfl rfl rfl rfl

theorem held_closing (loop : LoopDocket) (id : Nat) : (loop.onDocket (·.closing id)).held = loop.held :=
  held_modify loop id (fun event => { event with ev := deventNone }) ⟨rfl, rfl, rfl, rfl⟩

/-- A change of the listener or of the pending handshake of an event. -/
theorem held_modified (loop : LoopDocket) (id : Nat) (f : DocketEvent → DocketEvent)
    (live : (f (loop.event id)).isOpen = (loop.event id).isOpen) :
    (loop.modify id f).held = { loop.held with
      served := Function.update loop.held.served id (f (loop.event id)).listenerCb
      shaking := Function.update loop.held.shaking id
        ((f (loop.event id)).ssl && (f (loop.event id)).sslHandshaking) } := by
  have lives := read_modify (fun cell => cell.event.isOpen) loop id f live
  have fds := read_modify EventCell.fd loop id f rfl
  have serveds := read_update (fun cell => cell.event.listenerCb) loop.docket.heap id
    ⟨loop.fd id, f (loop.event id)⟩
  have shakings := read_update (fun cell => cell.event.ssl && cell.event.sslHandshaking) loop.docket.heap id
    ⟨loop.fd id, f (loop.event id)⟩
  exact Holdings.ext rfl lives fds rfl serveds shakings rfl rfl rfl rfl rfl rfl rfl rfl

theorem held_reshaken (loop : LoopDocket) (id : Nat) (f : DocketEvent → DocketEvent)
    (live : (f (loop.event id)).isOpen = (loop.event id).isOpen)
    (served : (f (loop.event id)).listenerCb = (loop.event id).listenerCb) :
    (loop.modify id f).held = { loop.held with
      shaking := Function.update loop.held.shaking id
        ((f (loop.event id)).ssl && (f (loop.event id)).sslHandshaking) } := by
  have same : Function.update loop.held.served id (f (loop.event id)).listenerCb = loop.held.served := by
    rw [served]
    exact Function.update_eq_self id _
  rw [held_modified loop id f live, same]

theorem held_newEvent {event : DocketEvent} {connected : Bool} (opened : event.isOpen = true) :
    (loop.newEvent fd event connected).held =
      loop.held.allocated fd connected event.listenerCb (event.ssl && event.sslHandshaking) := by
  have lives := read_update (fun cell => cell.event.isOpen) loop.docket.heap loop.docket.next ⟨fd, event⟩
  rw [opened] at lives
  have fds := read_update EventCell.fd loop.docket.heap loop.docket.next ⟨fd, event⟩
  have serveds := read_update (fun cell => cell.event.listenerCb) loop.docket.heap loop.docket.next ⟨fd, event⟩
  have shakings := read_update (fun cell => cell.event.ssl && cell.event.sslHandshaking) loop.docket.heap
    loop.docket.next ⟨fd, event⟩
  exact Holdings.ext rfl lives fds rfl serveds shakings rfl rfl rfl rfl rfl rfl rfl rfl

theorem held_addEvent (loop : LoopDocket) (fd : Int) (id : Nat) :
    (loop.addEvent fd id).held = loop.held.entered fd id := rfl

theorem held_freeDnsEvent (positive : 0 < (loop.dnsHeap dns).dnsFd) (event : (loop.dnsHeap dns).event = some id) :
    (loop.freeDnsEvent dns).held = loop.held.detached dns id := by
  have positive : (loop.dnsHeap dns).dnsFd ≠ 0 := Int.ne_of_gt positive
  simp only [freeDnsEvent, if_pos positive]
  split
  · rename_i found
    obtain rfl := Option.some.inj (found.symm.trans event)
    rfl
  · rename_i missing
    cases missing.symm.trans event

theorem held_released (loop : LoopDocket) (id : Nat) :
    (loop.onDocket (·.freeEvent id)).held = loop.held.released id := by
  have cases (α : Type) (read : EventCell → α) : (fun other => read ((loop.docket.freeEvent id).heap other)) =
      Function.update (fun other => read (loop.docket.heap other)) id
        (read ⟨min (loop.fd id) 0, (loop.event id).free⟩) := by
    rw [Docket.freeEvent]
    split
    · rename_i positive
      have least : min (loop.fd id) 0 = 0 := min_eq_right (Int.le_of_lt positive)
      rw [least]
      exact read_update read loop.docket.heap id _
    · rename_i unbound
      have least : min (loop.fd id) 0 = loop.fd id := min_eq_left (Int.not_lt.mp unbound)
      rw [least]
      exact read_update read loop.docket.heap id _
  have lives := cases Bool fun cell => cell.event.isOpen
  have fds := cases Int EventCell.fd
  have serveds := (cases Bool fun cell => cell.event.listenerCb).trans (Function.update_eq_self id _)
  have shakings := (cases Bool fun cell => cell.event.ssl && cell.event.sslHandshaking).trans
    (Function.update_eq_self id _)
  have next : (loop.docket.freeEvent id).next = loop.docket.next := Docket.next_freeEvent loop.docket id
  have events : (loop.docket.freeEvent id).events = if 0 < loop.fd id then
      Function.update loop.docket.events (loop.fd id) none else loop.docket.events := by
    rw [Docket.freeEvent]
    exact apply_ite Docket.events _ _ _
  have openFds : (loop.docket.freeEvent id).openFds = if 0 < loop.fd id then
      Function.update loop.docket.openFds (loop.fd id) false else loop.docket.openFds := by
    rw [Docket.freeEvent]
    exact apply_ite Docket.openFds _ _ _
  exact Holdings.ext next lives fds rfl serveds shakings events openFds rfl rfl rfl rfl rfl rfl

theorem opens_some (opened : loop.opens fd = some after) : 0 < fd ∧ loop.docket.openFds fd = false ∧
    loop.otherFds fd = false ∧ after = { loop with otherFds := Function.update loop.otherFds fd true } := by
  rw [opens] at opened
  split at opened
  · rename_i closed
    obtain ⟨positive, closed⟩ := closed
    rw [isOpen, Bool.or_eq_false_iff] at closed
    exact ⟨positive, closed.1, closed.2, (Option.some.inj opened).symm⟩
  · cases opened

/-- What the kernel hands out is nobody's. -/
theorem opens_spare (safe : loop.held.Safe) (opened : loop.opens fd = some after) :
    Steps loop.held after.held ∧ after.held.Spare fd := by
  obtain ⟨positive, closed, unopened, rfl⟩ := opens_some opened
  refine ⟨.single (.opens positive closed unopened), positive, Function.update_self _ _ _, ?_⟩
  cases entry : loop.dnsEvents fd with
  | none => exact entry
  | some dns =>
    obtain ⟨live, same⟩ := safe.lookedUp.entry fd dns entry
    obtain ⟨id, linked⟩ := safe.lookedUp.linked dns live
    have taken : loop.otherFds (loop.dnsHeap dns).dnsFd = true := linked.opened
    have same : (loop.dnsHeap dns).dnsFd = fd := same
    rw [same, unopened] at taken
    cases taken

theorem adopts_steps {event : DocketEvent} {connected : Bool} (spare : loop.held.Spare fd)
    (opened : event.isOpen = true) (unserved : event.listenerCb = false) :
    Steps loop.held ((loop.newEvent fd event connected).addEvent fd loop.docket.next).held := by
  rw [held_addEvent, held_newEvent opened, unserved]
  exact .single (.adopts connected _ spare)

theorem create_steps {event : DocketEvent} {connected : Bool} (safe : loop.held.Safe) (opened : event.isOpen = true)
    (unserved : event.listenerCb = false) (created : loop.create fd event connected = some after) :
    Steps loop.held after.held := by
  obtain ⟨middle, opens, created⟩ := Option.bind_eq_some_iff.mp created
  obtain ⟨steps, spare⟩ := opens_spare safe opens
  obtain ⟨-, -, -, rfl⟩ := opens_some opens
  cases created
  exact steps.trans (adopts_steps spare opened unserved)

theorem createListener_steps {listening ssl : Bool} (safe : loop.held.Safe)
    (created : loop.createListener fd listening ssl = some after) : Steps loop.held after.held := by
  obtain ⟨middle, opens, created⟩ := Option.bind_eq_some_iff.mp created
  obtain ⟨steps, -⟩ := opens_spare safe opens
  split at created <;> cases created <;> exact steps

theorem connectHostname_steps {dnsFd : Option Int} {event : DocketEvent} {ssl : Bool} (safe : loop.held.Safe)
    (opened : event.isOpen = true) (unserved : event.listenerCb = false)
    (connecting : loop.connectHostname dnsFd event ssl = some after) : Steps loop.held after.held := by
  have allocates : Steps loop.held (loop.newEvent (-1) event false).held := by
    rw [held_newEvent opened, unserved]
    exact .single (.allocates _)
  cases dnsFd with
  | none =>
    cases connecting
    exact allocates
  | some dnsFd =>
    obtain ⟨middle, opens, connecting⟩ := Option.bind_eq_some_iff.mp connecting
    have fresh := (allocates.safe safe).silent
    obtain ⟨steps, spare⟩ := opens_spare (allocates.safe safe) opens
    obtain ⟨-, -, -, rfl⟩ := opens_some opens
    cases connecting
    have live : (loop.newEvent (-1) event false).held.live loop.docket.next = true := by
      rw [held_newEvent opened]
      exact Function.update_self _ _ _
    have unbound : (loop.newEvent (-1) event false).held.fd loop.docket.next = -1 := by
      rw [held_newEvent opened]
      exact Function.update_self _ _ _
    have silent : (loop.newEvent (-1) event false).held.announcements loop.docket.next = 0 := safe.silent.1
    refine (allocates.trans steps).tail (.attaches ssl spare live unbound ?_ ?_ silent)
    · exact Function.update_self _ _ _
    · exact Function.update_self _ _ _

theorem freeEvent_steps (safe : loop.held.Safe) (live : loop.docket.live id = true) :
    Steps loop.held (loop.freeEvent id).held := by
  rw [freeEvent, held_released]
  cases back : loop.dnsEvent id with
  | none =>
    rw [dropDnsEvent, back]
    exact .single (.releases live back)
  | some dns =>
    have linked := safe.lookedUp.back live back
    rw [dropDnsEvent, back, held_freeDnsEvent linked.positive linked.event]
    refine (Relation.ReflTransGen.single (.detaches linked)).tail (.releases live ?_)
    exact Function.update_self _ _ _

theorem perform_steps (safe : loop.held.Safe) (performed : loop.perform act = some after) :
    Steps loop.held after.held := by
  cases act with
  | free id =>
    simp only [perform] at performed
    split at performed
    · rename_i allowed
      cases performed
      exact freeEvent_steps safe allowed.2
    · cases performed
  | create fd event connected =>
    simp only [perform] at performed
    split at performed
    · rename_i allowed
      exact create_steps safe allowed.1 allowed.2 performed
    · cases performed
  | connectHostname dnsFd event ssl =>
    simp only [perform] at performed
    split at performed
    · rename_i allowed
      exact connectHostname_steps safe allowed.1 allowed.2 performed
    · cases performed
  | set id event =>
    simp only [perform] at performed
    split at performed
    · rename_i allowed
      obtain ⟨-, live, opened, same⟩ := allowed
      cases performed
      rw [held_modify loop id _ ⟨opened.trans live.symm, same⟩]
      exact .refl
    · cases performed
  | createListener fd listening ssl => exact createListener_steps safe performed

theorem performAll_steps (safe : loop.held.Safe) (performed : loop.performAll acts = some after) :
    Steps loop.held after.held := by
  induction acts generalizing loop with
  | nil =>
    cases performed
    exact .refl
  | cons act rest ih =>
    rw [performAll, List.foldlM_cons] at performed
    obtain ⟨middle, first, performed⟩ := Option.bind_eq_some_iff.mp performed
    have steps := perform_steps safe first
    exact steps.trans (ih (steps.safe safe) performed)

theorem callback_steps (safe : loop.held.Safe) (called : loop.callback present acts id = some after) :
    Steps loop.held after.held := by
  rw [callback] at called
  split at called
  · have steps : Steps (loop.onDocket (·.touch .call id)).held after.held := performAll_steps safe called
    exact steps
  · cases called
    exact .refl

/-- The event is allocated, on a descriptor of its own. -/
structure Present (loop : LoopDocket) (id : Nat) : Prop where
  live : loop.docket.live id = true
  bound : 0 < loop.fd id

theorem Present.natural (there : loop.Present id) (safe : loop.held.Safe) : loop.held.Natural id :=
  ⟨safe.owned.fresh id there.live, Int.le_of_lt there.bound⟩

/-- An entry of the table, but for what stands under -1. -/
theorem found_present (safe : loop.held.Safe) (natural : 0 ≤ fd) {found : Nat}
    (there : loop.docket.findEvent fd = some found) : loop.Present found := by
  rcases Int.lt_or_eq_of_le natural with positive | rfl
  · obtain ⟨live, same⟩ := safe.owned.entry fd found positive there
    have same : loop.fd found = fd := same
    exact ⟨live, same.symm ▸ positive⟩
  · have none : loop.docket.events 0 = none := safe.owned.zero
    cases none.symm.trans there

theorem quiet_setWrite (event : DocketEvent) (write : Bool) : Quiet event (event.setWrite write) :=
  ⟨rfl, rfl, rfl, rfl⟩

theorem quiet_updateEvents (event : DocketEvent) : Quiet event event.updateEvents := ⟨rfl, rfl, rfl, rfl⟩

theorem Quiet.trans {first second third : DocketEvent} (one : Quiet first second) (two : Quiet second third) :
    Quiet first third :=
  ⟨two.1.trans one.1, two.2.1.trans one.2.1, two.2.2.1.trans one.2.2.1, two.2.2.2.trans one.2.2.2⟩

theorem quiet_arm (event : DocketEvent) (write : Bool) : Quiet event (event.setWrite write).updateEvents :=
  (quiet_setWrite event write).trans (quiet_updateEvents _)

/-- A call behind quiet changes. -/
theorem steps_behind (same : middle.held = loop.held) (safe : loop.held.Safe)
    (steps : middle.held.Safe → Steps middle.held after.held) : Steps loop.held after.held :=
  same ▸ steps (same.symm ▸ safe)

end Devent.LoopDocket
