import Devent.Event.LoopHeld

/-! The handlers of accept.c and dns.c do nothing to what is held but the steps they may take. -/
namespace Devent.LoopDocket
open Holdings

variable {loop middle after : LoopDocket} {id dns : Nat} {fd : Int} {act : LoopAct} {acts : List LoopAct}
  {present : Bool}

/-- The event of a connection, before the listener of it is looked up. -/
def welcomed (loop : LoopDocket) (fd : Int) : LoopDocket :=
  ((loop.newEvent fd blankEvent.updateEvents true).addEvent fd loop.docket.next).mark (.accepting loop.docket.next)

theorem held_welcomed (loop : LoopDocket) (fd : Int) : (loop.welcomed fd).held =
    (loop.held.adopted fd true false false).marked [.accepting loop.docket.next] := by
  rw [welcomed, held_mark, held_addEvent, held_newEvent rfl]
  rfl

theorem welcomed_tls (spare : loop.held.Spare fd) : Steps loop.held
    ((loop.welcomed fd).modify loop.docket.next fun event =>
      { event with ssl := true, sslHandshaking := true, listenerCb := true }).held := by
  have same : ((loop.welcomed fd).modify loop.docket.next fun event =>
      { event with ssl := true, sslHandshaking := true, listenerCb := true }).held =
      (loop.held.adopted fd true true true).marked [.accepting loop.docket.next] := by
    have next : loop.held.next = loop.docket.next := rfl
    rw [held_modified _ _ _ rfl, held_welcomed]
    simp only [adopted, allocated, entered, marked, next, Function.update_idem]
    rfl
  rw [same]
  exact .single (.acceptsTls spare)

theorem welcomed_plain (spare : loop.held.Spare fd) :
    Step loop.held ((loop.welcomed fd).mark (.accepted loop.docket.next)).held := by
  have same : ((loop.welcomed fd).mark (.accepted loop.docket.next)).held =
      (loop.held.adopted fd true false false).marked [.accepting loop.docket.next, .accepted loop.docket.next] := by
    rw [held_mark, held_welcomed]
    simp only [marked, List.append_assoc, List.cons_append, List.nil_append]
  rw [same]
  exact .accepts spare

theorem accept_steps {script : LoopAccept} (safe : loop.held.Safe) (listening : (loop.listeners fd).isSome = true)
    (accepted : loop.accept fd script = some after) : Steps loop.held after.held := by
  rw [accept] at accepted
  split at accepted
  · cases accepted
    exact .refl
  · obtain ⟨middle, opened, accepted⟩ := Option.bind_eq_some_iff.mp accepted
    obtain ⟨steps, spare⟩ := opens_spare safe opened
    have listeners : middle.listeners = loop.listeners := by
      obtain ⟨-, -, -, rfl⟩ := opens_some opened
      rfl
    split at accepted
    · cases accepted
      exact steps
    · simp only at accepted
      split at accepted
      · rename_i missing
        have missing : middle.listeners fd = none := missing
        rw [listeners] at missing
        rw [missing] at listening
        cases listening
      · cases accepted
        exact steps.trans (welcomed_tls spare)
      · have welcomes := steps.tail (welcomed_plain spare)
        exact Steps.trans welcomes (callback_steps (Steps.safe welcomes safe) accepted)

theorem entry_linked (safe : loop.held.Safe) (entry : loop.dnsEvents fd = some dns) :
    ∃ id, loop.held.Linked dns id :=
  safe.lookedUp.linked dns (safe.lookedUp.entry fd dns entry).1

theorem uses_steps (loop : LoopDocket) {use : Bool} (valid : use = true) :
    Steps loop.held (loop.mark (.uses use)).held := by
  rw [held_mark, valid]
  exact .single .uses

theorem dnsValid_linked (linked : loop.held.Linked dns id) (safe : loop.held.Safe) : loop.dnsValid dns = true := by
  have allocated : (loop.dnsHeap dns).live = true := (safe.lookedUp.entry _ dns linked.entry).1
  have event : (loop.dnsHeap dns).event = some id := linked.event
  have live : loop.docket.live id = true := linked.live
  rw [dnsValid, allocated, event, Option.any_some, live]
  rfl

theorem detaches_steps (linked : loop.held.Linked dns id) : Steps loop.held (loop.freeDnsEvent dns).held := by
  rw [held_freeDnsEvent linked.positive linked.event]
  exact .single (.detaches linked)

/-- The event callback that tells of a failed lookup comes behind the DNS event. -/
theorem untold_steps (safe : loop.held.Safe) (linked : loop.held.Linked dns id) :
    Steps loop.held ((loop.freeDnsEvent dns).mark (.failed id)).held := by
  refine (detaches_steps linked).tail ?_
  rw [held_mark, held_freeDnsEvent linked.positive linked.event]
  exact .fails linked.live linked.unbound linked.unconnected (Function.update_self _ _ _) (safe.unanswered linked)

theorem failLookup_steps {onEvent : List LoopAct} (safe : loop.held.Safe) (linked : loop.held.Linked dns id)
    (failed : loop.failLookup dns onEvent = some after) : Steps loop.held after.held := by
  have event : (loop.dnsHeap dns).event = some id := linked.event
  simp only [failLookup, event] at failed
  split at failed
  · have steps := untold_steps safe linked
    exact steps.trans (callback_steps (steps.safe safe) failed)
  · cases failed
    exact detaches_steps linked

theorem dnsWrite_steps {script : LoopQuery} (safe : loop.held.Safe) (linked : loop.held.Linked dns id)
    (written : loop.dnsWrite dns script = some after) : Steps loop.held after.held := by
  have used := uses_steps loop (dnsValid_linked linked safe)
  have linked' : (loop.mark (.uses (loop.dnsValid dns))).held.Linked dns id :=
    linked.of_undisturbed ⟨rfl, le_refl _, rfl, fun opened => opened, fun live => live, rfl, rfl, rfl⟩
  simp only [dnsWrite] at written
  split at written
  · exact used.trans (failLookup_steps (used.safe safe) linked' written)
  all_goals
    cases written
    exact used

variable {ssl sslNew : Bool} {lookup : Lookup}

/-- `DocketEvent_connect_internal` once it has its event. -/
def armed (loop : LoopDocket) (id : Nat) (ssl sslNew : Bool) (lookup : Lookup) : LoopDocket :=
  let loop := loop.modify id fun event => { event with ev := deventReadWrite }
  if lookup.registered = false then loop
  else
    let loop := loop.modify id DocketEvent.updateEvents
    if ssl then loop.modify id fun event => { event with ssl := sslNew, sslHandshaking := true } else loop

/-- Only the pending handshake of the event changes. -/
structure Shaken (before : LoopDocket) (id : Nat) (after : LoopDocket) : Prop where
  held : ∃ shaking, after.held = { before.held with shaking := Function.update before.held.shaking id shaking }
  dnsHeap : after.dnsHeap = before.dnsHeap

theorem Shaken.of_held (same : after.held = loop.held) : Shaken loop id after where
  held := by
    refine ⟨loop.held.shaking id, ?_⟩
    rw [same, Function.update_eq_self]
  dnsHeap := congrArg Holdings.dnsHeap same

theorem armed_shaken (loop : LoopDocket) (id : Nat) (ssl sslNew : Bool) (lookup : Lookup) :
    Shaken loop id (loop.armed id ssl sslNew lookup) := by
  have first := held_modify loop id (fun event => { event with ev := deventReadWrite }) ⟨rfl, rfl, rfl, rfl⟩
  simp only [armed]
  split
  · exact .of_held first
  · have second := (held_modify _ id DocketEvent.updateEvents (quiet_updateEvents _)).trans first
    split
    · refine ⟨⟨sslNew && true, ?_⟩, rfl⟩
      rw [held_reshaken _ id _ rfl rfl, second]
    · exact .of_held second

theorem connectFd_eq (loop : LoopDocket) (ssl sslNew : Bool) (fd : Int) (lookup : Lookup) :
    loop.connectFd ssl sslNew fd lookup = if lookup.nonblocking = false then loop
      else if lookup.connection = .refused then loop.close fd
      else (loop.ensureEvent fd).1.armed (loop.ensureEvent fd).2 ssl sslNew lookup := rfl

/-- Under a descriptor of an event, unless the connection is refused at once. -/
theorem connectFd_found (there : loop.docket.findEvent fd = some id)
    (going : lookup.nonblocking = true → lookup.connection ≠ .refused) :
    Shaken loop id (loop.connectFd ssl sslNew fd lookup) := by
  rw [connectFd_eq]
  split
  · exact .of_held rfl
  · rename_i nonblocking
    rw [if_neg (going (Bool.eq_true_of_not_eq_false nonblocking)), ensureEvent, there]
    exact armed_shaken loop id ssl sslNew lookup

theorem connectFd_fresh (safe : loop.held.Safe) (spare : loop.held.Spare fd) :
    Steps loop.held (loop.connectFd ssl sslNew fd lookup).held ∧
      (loop.connectFd ssl sslNew fd lookup).dnsHeap = loop.dnsHeap := by
  have missing : loop.docket.findEvent fd = none := safe.owned.unentered spare
  rw [connectFd_eq]
  split
  · exact ⟨.refl, rfl⟩
  · split
    · exact ⟨.single (.shuts missing spare.unheld), rfl⟩
    · rw [ensureEvent, missing]
      have adopts : Steps loop.held ((loop.newEvent fd blankEvent false).addEvent fd loop.docket.next).held :=
        adopts_steps spare rfl rfl
      obtain ⟨⟨shaking, same⟩, dnsHeap⟩ := armed_shaken
        ((loop.newEvent fd blankEvent false).addEvent fd loop.docket.next) loop.docket.next ssl sslNew lookup
      refine ⟨adopts.tail ?_, dnsHeap⟩
      rw [same]
      apply Step.reshakes
      rw [held_addEvent, held_newEvent rfl]
      exact Function.update_self _ _ _

/-- The event has got no descriptor, and its entry stands under -1. -/
def strayed (loop : LoopDocket) (id : Nat) : LoopDocket :=
  loop.onDocket fun docket => { docket with events := Function.update docket.events (-1) (some id) }

/-- The event gets its descriptor. -/
def given (loop : LoopDocket) (id : Nat) (fd : Int) : LoopDocket :=
  (loop.onDocket fun docket => docket.store id { docket.heap id with fd := fd }).addEvent fd id

theorem held_bound (loop : LoopDocket) (id : Nat) (fd : Int) :
    (loop.given id fd).held = loop.held.bound id fd := by
  have keeps (α : Type) (read : EventCell → α) (same : read ⟨fd, loop.event id⟩ = read (loop.docket.heap id)) :
      (fun other => read (Function.update loop.docket.heap id ⟨fd, loop.event id⟩ other)) =
        fun other => read (loop.docket.heap other) := by
    rw [read_update, same, Function.update_eq_self id]
  have lives := keeps Bool (fun cell => cell.event.isOpen) rfl
  have serveds := keeps Bool (fun cell => cell.event.listenerCb) rfl
  have shakings := keeps Bool (fun cell => cell.event.ssl && cell.event.sslHandshaking) rfl
  have fds := read_update EventCell.fd loop.docket.heap id ⟨fd, loop.event id⟩
  exact Holdings.ext rfl lives fds rfl serveds shakings rfl rfl rfl rfl rfl rfl rfl rfl

/-- The DNS event goes behind the new descriptor as it would before it. -/
theorem bound_detached {held : Holdings} (different : fd ≠ (held.dnsHeap dns).dnsFd) :
    (held.bound id fd).detached dns id = (held.detached dns id).bound id fd := by
  simp only [bound, entered, detached, shut, Holdings.mk.injEq, true_and, and_true]
  exact ⟨Function.update_comm different _ _ _, Function.update_comm different _ _ _⟩

/-- The event gets no descriptor; one that is connected all the same is left to another event. -/
theorem connectInternal_unbound (safe : loop.held.Safe)
    (connected : loop.connectInternal ssl sslNew (-1) lookup = some after) :
    Steps loop.held after.held ∧ after.dnsHeap = loop.dnsHeap := by
  rw [connectInternal, if_pos rfl] at connected
  split at connected
  · cases connected
    exact ⟨.refl, rfl⟩
  · obtain ⟨middle, opened, connected⟩ := Option.map_eq_some_iff.mp connected
    obtain ⟨steps, spare⟩ := opens_spare safe opened
    obtain ⟨-, -, -, same⟩ := opens_some opened
    have dnsHeap : middle.dnsHeap = loop.dnsHeap := by rw [same]
    obtain ⟨later, kept⟩ := connectFd_fresh (steps.safe safe) spare
    rw [← connected]
    exact ⟨steps.trans later, kept.trans dnsHeap⟩

/-- A DNS event is still linked behind steps that leave it. -/
theorem linked_behind (safe : after.held.Safe) (linked : loop.held.Linked dns id) (lookedUp : loop.held.LookedUp)
    (kept : after.dnsHeap = loop.dnsHeap) : after.held.Linked dns id := by
  have allocated : (loop.dnsHeap dns).live = true := (lookedUp.entry _ dns linked.entry).1
  rw [← kept] at allocated
  obtain ⟨other, there⟩ := safe.lookedUp.linked dns allocated
  have event : (after.dnsHeap dns).event = some other := there.event
  rw [kept] at event
  obtain rfl := Option.some.inj (linked.event.symm.trans event)
  exact there

/-- The event gets a descriptor of its own, and the connection is begun on it. -/
theorem bound_steps (safe : loop.held.Safe) (linked : loop.held.Linked dns id) (spare : loop.held.Spare fd)
    (bound : middle.held = loop.held.bound id fd) (shaken : Shaken middle id after) :
    Steps loop.held (after.freeDnsEvent dns).held := by
  have dnsHeap : after.dnsHeap = loop.dnsHeap := shaken.dnsHeap.trans (congrArg Holdings.dnsHeap bound)
  have positive : 0 < (after.dnsHeap dns).dnsFd := dnsHeap ▸ linked.positive
  have event : (after.dnsHeap dns).event = some id := dnsHeap ▸ linked.event
  have different : fd ≠ (loop.held.dnsHeap dns).dnsFd := Ne.symm (linked.apart spare.unheld)
  obtain ⟨shaking, same⟩ := shaken.held
  have reached : (after.freeDnsEvent dns).held = { (loop.held.detached dns id).bound id fd with
      shaking := Function.update ((loop.held.detached dns id).bound id fd).shaking id shaking } := by
    rw [held_freeDnsEvent positive event, same, bound, ← bound_detached different]
    rfl
  rw [reached]
  have silent : (loop.held.detached dns id).announcements id = 0 := safe.unanswered linked
  have kept : (loop.held.detached dns id).Spare fd :=
    ⟨spare.positive, (Function.update_of_ne different _ _).trans spare.opened,
      (Function.update_of_ne different _ _).trans spare.unheld⟩
  have unserved : loop.held.served id = false := by
    cases served : loop.held.served id with
    | false => rfl
    | true => exact absurd ((safe.told id).served linked.live served) (by rw [linked.unconnected]; exact nofun)
  have detaches : Step loop.held _ := .detaches linked
  have binds : Step (loop.held.detached dns id) _ :=
    .binds kept linked.live linked.unbound linked.unconnected (Function.update_self _ _ _) silent
  exact ((Relation.ReflTransGen.single detaches).tail binds).tail (.reshakes shaking unserved)

/-- No connection for a descriptor of the event fails at once. -/
def Orderly (script : LoopReply) : Prop :=
  script.lookup.socket.isSome = true → script.lookup.nonblocking = true → script.lookup.connection ≠ .refused

/-- What a reply comes to: nothing without a server, a failed lookup, or a connection that is begun on a
descriptor of the event or on none of it. -/
inductive Replied (loop : LoopDocket) (dns id : Nat) (script : LoopReply) : LoopDocket → Prop
  | unserved : Replied loop dns id script loop
  | fails {after : LoopDocket} : loop.failLookup dns script.onEvent = some after → Replied loop dns id script after
  | strays {ssl : Bool} {connected : LoopDocket} :
      (loop.strayed id).connectInternal ssl script.sslNew (-1) script.lookup = some connected →
      Replied loop dns id script (connected.freeDnsEvent dns)
  | binds {ssl : Bool} {fd : Int} {opened : LoopDocket} : script.lookup.socket = some fd →
      loop.opens fd = some opened → Replied loop dns id script
        (((opened.given id fd).connectFd ssl script.sslNew fd script.lookup).freeDnsEvent dns)

theorem dnsRead_replied {script : LoopReply} (linked : loop.held.Linked dns id)
    (read : loop.dnsRead dns script = some after) :
    Replied (loop.mark (.uses (loop.dnsValid dns))) dns id script after := by
  have event : ((loop.mark (.uses (loop.dnsValid dns))).dnsHeap dns).event = some id := linked.event
  have unbound : (loop.mark (.uses (loop.dnsValid dns))).fd id = -1 := linked.unbound
  rw [dnsRead] at read
  generalize loop.mark (.uses (loop.dnsValid dns)) = loop at *
  split at read
  · cases read
    exact .unserved
  · split at read
    · exact .fails read
    · simp only [event, Option.bind_eq_bind] at read
      obtain ⟨given, giving, read⟩ := Option.bind_eq_some_iff.mp read
      obtain ⟨connected, connecting, read⟩ := Option.bind_eq_some_iff.mp read
      cases read
      rw [giveSocket.eq_def, if_pos unbound] at giving
      rcases socket : script.lookup.socket with _ | fd
      · rw [socket] at giving
        cases giving
        have still : (loop.strayed id).fd id = -1 := unbound
        have connecting : (loop.strayed id).connectInternal _ _ ((loop.strayed id).fd id) _ = _ := connecting
        rw [still] at connecting
        exact .strays connecting
      · rw [socket] at giving
        obtain ⟨opened, opens, rfl⟩ := Option.map_eq_some_iff.mp giving
        have own : (opened.given id fd).fd id = fd := by
          have fds := congrFun (congrArg Holdings.fd (held_bound opened id fd)) id
          exact fds.trans (Function.update_self _ _ _)
        obtain ⟨positive, -, -, -⟩ := opens_some opens
        have set : fd ≠ -1 := by omega
        have connecting : (opened.given id fd).connectInternal _ _ ((opened.given id fd).fd id) _ = _ := connecting
        rw [own, connectInternal, if_neg set] at connecting
        rw [← Option.some.inj connecting]
        exact .binds socket opens

/-- The event is found under the descriptor that it has got. -/
theorem findEvent_given (loop : LoopDocket) (id : Nat) (fd : Int) :
    (loop.given id fd).docket.findEvent fd = some id := Function.update_self _ _ _

theorem Replied.steps {script : LoopReply} (replied : Replied loop dns id script after) (safe : loop.held.Safe)
    (linked : loop.held.Linked dns id) (orderly : Orderly script) : Steps loop.held after.held := by
  cases replied with
  | unserved => exact .refl
  | fails failed => exact failLookup_steps safe linked failed
  | strays connecting =>
    have strays : Steps loop.held (loop.strayed id).held := .single (.strays id)
    obtain ⟨connects, kept⟩ := connectInternal_unbound (strays.safe safe) connecting
    have steps := strays.trans connects
    exact steps.trans (detaches_steps (linked_behind (steps.safe safe) linked safe.lookedUp kept))
  | binds socket opens =>
    obtain ⟨steps, spare⟩ := opens_spare safe opens
    obtain ⟨-, -, -, same⟩ := opens_some opens
    have linked := linked_behind (steps.safe safe) linked safe.lookedUp (by rw [same])
    have going := orderly (Option.isSome_of_eq_some socket)
    refine steps.trans (bound_steps (steps.safe safe) linked spare (held_bound _ id _) ?_)
    exact connectFd_found (findEvent_given _ id _) going

theorem Linked.marked (linked : loop.held.Linked dns id) (mark : Mark) : (loop.mark mark).held.Linked dns id :=
  linked.of_undisturbed ⟨rfl, le_refl _, rfl, fun opened => opened, fun live => live, rfl, rfl, rfl⟩

theorem dnsRead_steps {script : LoopReply} (safe : loop.held.Safe) (linked : loop.held.Linked dns id)
    (orderly : Orderly script) (read : loop.dnsRead dns script = some after) : Steps loop.held after.held := by
  have used := uses_steps loop (dnsValid_linked linked safe)
  have replied := dnsRead_replied linked read
  exact used.trans (replied.steps (used.safe safe) (Linked.marked linked _) orderly)

end Devent.LoopDocket
