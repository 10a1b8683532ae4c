import Devent.Event.Identity
import Devent.Event.LoopCalls
import Devent.Event.LoopProofs

/-! A run of the loop is a run of its docket, so what holds of a docket holds in every run of the loop. -/
namespace Devent

namespace Docket

/-- What the loop does with its docket: the acts of callbacks, their calls, the notifications of events, a
looked-up event that gets its descriptor or does not, and the close of a descriptor that no event has. -/
inductive Move (before : Docket) : Docket → Prop
  | act (act) {after} : before.perform act = some after → Move before after
  | calls (id) : Move before (before.touch .call id)
  | reads {script id after} : before.onEventRead script id = some after → Move before after
  | writes {handshake flush id after} : before.onEventWrite handshake flush id = some after → Move before after
  | binds {fd id} : before.openFds fd = false → id < before.next → before.live id = true →
      (before.heap id).fd = -1 →
      Move before ((before.store id { before.heap id with fd := fd }).addEvent fd id)
  | strays {id} : id < before.next →
      Move before { before with events := Function.update before.events (-1) (some id) }
  | shuts {fd} : before.events fd = none →
      Move before { before with openFds := Function.update before.openFds fd false }

def Moves : Docket → Docket → Prop := Relation.ReflTransGen Move

variable {docket before middle after : Docket} {id : Nat} {fd : Int} {acts : List Act} {present : Bool}

theorem Moves.trans (first : Moves before middle) (second : Moves middle after) : Moves before after :=
  Relation.ReflTransGen.trans first second

/-- The tables change, and nothing is noted. -/
theorem silent_evolves (sound : after.Sound) (log : after.log = before.log) (next : after.next = before.next)
    (lives : ∀ id, after.live id = before.live id) : Evolves before after := by
  have none : news before after = [] := news_eq (by rw [log, List.append_nil])
  refine ⟨by rw [none, log, List.append_nil], Nat.le_of_eq next.symm, sound, fun id => ?_⟩
  have created : ¬(before.next ≤ id ∧ id < after.next) := by omega
  rw [none, List.countP_nil, if_neg created, Nat.zero_add, Nat.add_zero, count, count, next, lives]

theorem live_binds (docket : Docket) (id other : Nat) (fd : Int) :
    ((docket.store id { docket.heap id with fd := fd }).addEvent fd id).live other = docket.live other := by
  simp only [live, event, addEvent, store, Function.update_apply]
  split
  · rename_i same
    rw [same]
  · rfl

theorem binds_sound (sound : docket.Sound) (closed : docket.openFds fd = false) (known : id < docket.next)
    (live : docket.live id = true) :
    ((docket.store id { docket.heap id with fd := fd }).addEvent fd id).Sound := by
  refine ⟨fun other found entry => ?_, fun other bound => ?_, fun other bound => ?_⟩
  · simp only [addEvent, store, Function.update_apply] at entry
    split at entry
    · cases entry
      exact known
    · exact sound.known other found entry
  · rw [live_binds]
    intro alive nonneg
    simp only [addEvent, store, Function.update_apply] at nonneg ⊢
    by_cases same : other = id
    · simp only [same, if_true, and_self]
    · simp only [if_neg same] at nonneg ⊢
      obtain ⟨found, taken⟩ := sound.registered other bound alive nonneg
      have apart : (docket.heap other).fd ≠ fd := by
        intro clash
        rw [clash, closed] at taken
        cases taken
      simp only [if_neg apart]
      exact ⟨found, taken⟩
  · rw [live_binds]
    intro dead
    have different : other ≠ id := by
      rintro rfl
      cases dead.symm.trans live
    simp only [addEvent, store, Function.update_apply, if_neg different]
    exact sound.released other bound dead

theorem strays_sound (sound : docket.Sound) (known : id < docket.next) :
    Sound { docket with events := Function.update docket.events (-1) (some id) } := by
  refine ⟨fun fd found entry => ?_, fun other bound alive nonneg => ?_, sound.released⟩
  · simp only [Function.update_apply] at entry
    split at entry
    · cases entry
      exact known
    · exact sound.known fd found entry
  · have natural : 0 ≤ (docket.heap other).fd := nonneg
    have different : (docket.heap other).fd ≠ -1 := by omega
    obtain ⟨found, taken⟩ := sound.registered other bound alive natural
    exact ⟨(Function.update_of_ne different _ _).trans found, taken⟩

theorem shuts_sound (sound : docket.Sound) (missing : docket.events fd = none) :
    Sound { docket with openFds := Function.update docket.openFds fd false } := by
  refine ⟨sound.known, fun other bound alive nonneg => ?_, sound.released⟩
  obtain ⟨found, taken⟩ := sound.registered other bound alive nonneg
  have different : (docket.heap other).fd ≠ fd := by
    rintro rfl
    cases missing.symm.trans found
  exact ⟨found, (Function.update_of_ne different _ _).trans taken⟩

theorem Move.evolves (move : Move before after) (sound : before.Sound) : Evolves before after := by
  cases move with
  | act act performed => exact perform_evolves sound performed
  | calls id => exact touch_evolves sound .call (by decide) id
  | reads read => exact onEventRead_evolves sound read
  | writes written => exact onEventWrite_evolves sound written
  | binds closed known live unbound =>
    exact silent_evolves (binds_sound sound closed known live) rfl rfl fun other => live_binds before _ other _
  | strays known => exact silent_evolves (strays_sound sound known) rfl rfl fun _ => rfl
  | shuts missing => exact silent_evolves (shuts_sound sound missing) rfl rfl fun _ => rfl

theorem Moves.evolves (moves : Moves before after) (sound : before.Sound) : Evolves before after := by
  induction moves with
  | refl => exact .refl sound
  | tail _ move ih => exact ih.trans (move.evolves ih.sound)

theorem performAll_moves (performed : before.performAll acts = some after) : Moves before after := by
  induction acts generalizing before with
  | nil =>
    cases performed
    exact .refl
  | cons act rest ih =>
    rw [performAll, List.foldlM_cons] at performed
    obtain ⟨middle, first, performed⟩ := Option.bind_eq_some_iff.mp performed
    exact .head (.act act first) (ih performed)

theorem callback_moves (called : before.callback present acts id = some after) : Moves before after := by
  rw [callback] at called
  split at called
  · exact .head (.calls id) (performAll_moves called)
  · cases called
    exact .refl

/-- A change of the fields of an event, as a callback may make it. -/
theorem modify_moves {f : DocketEvent → DocketEvent} (keeps : ∀ event, (f event).isOpen = event.isOpen)
    (known : id < docket.next) (live : docket.live id = true) : Moves docket (docket.modify id f) :=
  .single (.act (.set id (f (docket.event id))) (if_pos ⟨known, live, (keeps _).trans live⟩))

/-- An event is created on a descriptor that the kernel hands out. -/
theorem created_moves {event : DocketEvent} (positive : 0 < fd) (closed : docket.openFds fd = false)
    (opened : event.isOpen = true) : Moves docket ((docket.newEvent fd event).addEvent fd docket.next) :=
  .single (.act (.create fd event) (if_pos ⟨Int.le_of_lt positive, closed, opened⟩))

end Docket

namespace LoopDocket
open Holdings Docket
variable {loop middle after : LoopDocket} {id dns : Nat} {fd : Int} {ssl sslNew : Bool} {lookup : Lookup}

theorem callback_docketMoves {acts : List LoopAct} {present : Bool} (safe : loop.held.Safe)
    (called : loop.callback present acts id = some after) : Moves loop.docket after.docket :=
  callback_moves (callback_docket safe called)

/-- The kernel hands out a descriptor, and the docket does not know yet. -/
theorem opens_docket (opened : loop.opens fd = some after) :
    after.docket = loop.docket ∧ 0 < fd ∧ after.docket.openFds fd = false := by
  obtain ⟨positive, closed, -, rfl⟩ := opens_some opened
  exact ⟨rfl, positive, closed⟩

theorem accept_moves {script : LoopAccept} (safe : loop.held.Safe) (accepted : loop.accept fd script = some after) :
    Moves loop.docket after.docket := by
  rw [accept] at accepted
  split at accepted
  · cases accepted
    exact .refl
  · rename_i remoteFd handed
    obtain ⟨middle, opened, accepted⟩ := Option.bind_eq_some_iff.mp accepted
    obtain ⟨steps, spare⟩ := opens_spare safe opened
    obtain ⟨same, positive, closed⟩ := opens_docket opened
    rw [← same]
    split at accepted
    · cases accepted
      exact .refl
    · have created : Moves middle.docket (middle.welcomed remoteFd).docket := created_moves positive closed rfl
      have live : (middle.welcomed remoteFd).docket.live middle.docket.next = true :=
        (live_newEvent middle.docket remoteFd blankEvent.updateEvents middle.docket.next).trans (if_pos rfl)
      simp only at accepted
      split at accepted
      · cases accepted
        exact created
      · cases accepted
        have secured : Moves (middle.welcomed remoteFd).docket ((middle.welcomed remoteFd).docket.modify
            middle.docket.next fun event => { event with ssl := true, sslHandshaking := true, listenerCb := true }) :=
          modify_moves (fun _ => rfl) (Nat.lt_succ_self _) live
        exact created.trans secured
      · have accepts := (welcomed_plain spare).safe (steps.safe safe)
        have called := callback_docketMoves accepts accepted
        exact created.trans called

theorem freeDnsEvent_linked (safe : loop.held.Safe) (linked : loop.held.Linked dns id) :
    (loop.freeDnsEvent dns).docket = loop.docket :=
  freeDnsEvent_docket (linked_closed safe linked)

theorem failLookup_moves {onEvent : List LoopAct} (safe : loop.held.Safe) (linked : loop.held.Linked dns id)
    (failed : loop.failLookup dns onEvent = some after) : Moves loop.docket after.docket := by
  have event : (loop.dnsHeap dns).event = some id := linked.event
  have same := freeDnsEvent_linked safe linked
  simp only [failLookup, event] at failed
  split at failed
  · have moves := callback_docketMoves ((untold_steps safe linked).safe safe) failed
    exact same ▸ moves
  · cases failed
    exact same ▸ .refl

theorem armed_moves (known : id < loop.docket.next) (live : loop.docket.live id = true) :
    Moves loop.docket (loop.armed id ssl sslNew lookup).docket := by
  have keeps (f : DocketEvent → DocketEvent) (opens : ∀ event, (f event).isOpen = event.isOpen) (docket : Docket)
      (moves : Moves loop.docket docket ∧ id < docket.next ∧ docket.live id = true) :
      Moves loop.docket (docket.modify id f) ∧ id < (docket.modify id f).next ∧
        (docket.modify id f).live id = true := by
    obtain ⟨moves, known, live⟩ := moves
    exact ⟨moves.trans (modify_moves opens known live), known, (live_modify opens docket id id).trans live⟩
  have first := keeps (fun event => { event with ev := deventReadWrite }) (fun _ => rfl) loop.docket
    ⟨.refl, known, live⟩
  simp only [armed]
  split
  · exact first.1
  · have second := keeps DocketEvent.updateEvents (fun _ => rfl) _ first
    split
    · exact (keeps (fun event => { event with ssl := sslNew, sslHandshaking := true }) (fun _ => rfl) _ second).1
    · exact second.1

theorem connectFd_moves_found (known : id < loop.docket.next) (live : loop.docket.live id = true)
    (there : loop.docket.findEvent fd = some id)
    (going : lookup.nonblocking = true → lookup.connection ≠ .refused) :
    Moves loop.docket (loop.connectFd ssl sslNew fd lookup).docket := by
  rw [connectFd_eq]
  split
  · exact .refl
  · rename_i nonblocking
    rw [if_neg (going (Bool.eq_true_of_not_eq_false nonblocking)), ensureEvent, there]
    exact armed_moves known live

theorem connectFd_moves_fresh (positive : 0 < fd) (closed : loop.docket.openFds fd = false)
    (missing : loop.docket.findEvent fd = none) :
    Moves loop.docket (loop.connectFd ssl sslNew fd lookup).docket := by
  rw [connectFd_eq]
  split
  · exact .refl
  · split
    · exact .single (.shuts missing)
    · rw [ensureEvent, missing]
      have created : Moves loop.docket ((loop.newEvent fd blankEvent false).addEvent fd loop.docket.next).docket :=
        created_moves positive closed rfl
      have live : ((loop.newEvent fd blankEvent false).addEvent fd loop.docket.next).docket.live loop.docket.next =
        true := (live_newEvent loop.docket fd blankEvent loop.docket.next).trans (if_pos rfl)
      exact created.trans (armed_moves (Nat.lt_succ_self _) live)

theorem connectInternal_moves (safe : loop.held.Safe)
    (connected : loop.connectInternal ssl sslNew (-1) lookup = some after) :
    Moves loop.docket after.docket := by
  rw [connectInternal, if_pos rfl] at connected
  split at connected
  · cases connected
    exact .refl
  · obtain ⟨middle, opened, rfl⟩ := Option.map_eq_some_iff.mp connected
    obtain ⟨steps, spare⟩ := opens_spare safe opened
    obtain ⟨same, positive, closed⟩ := opens_docket opened
    have missing : middle.docket.findEvent _ = none := (steps.safe safe).owned.unentered spare
    rw [← same]
    exact connectFd_moves_fresh positive closed missing

/-- The DNS event goes without a change of the docket, behind a connection on another descriptor. -/
theorem freeDnsEvent_bound (safe : loop.held.Safe) (linked : loop.held.Linked dns id) (spare : loop.held.Spare fd)
    (shaken : Shaken (loop.given id fd) id after) : (after.freeDnsEvent dns).docket = after.docket := by
  obtain ⟨⟨shaking, same⟩, dnsHeap⟩ := shaken
  have openFds : after.docket.openFds = Function.update loop.docket.openFds fd true :=
    congrArg Holdings.openFds same
  have different : (loop.dnsHeap dns).dnsFd ≠ fd := linked.apart spare.unheld
  apply freeDnsEvent_docket
  rw [openFds, dnsHeap]
  exact (Function.update_of_ne different _ _).trans (linked_closed safe linked)

theorem Replied.moves {script : LoopReply} (replied : Replied loop dns id script after) (safe : loop.held.Safe)
    (linked : loop.held.Linked dns id) (orderly : Orderly script) : Moves loop.docket after.docket := by
  have live : loop.docket.live id = true := linked.live
  have known : id < loop.docket.next := safe.owned.fresh id live
  cases replied with
  | unserved => exact .refl
  | fails failed => exact failLookup_moves safe linked failed
  | strays connecting =>
    have strays : Steps loop.held (loop.strayed id).held := .single (.strays id)
    obtain ⟨connects, kept⟩ := connectInternal_unbound (strays.safe safe) connecting
    have steps := strays.trans connects
    have linked := linked_behind (steps.safe safe) linked safe.lookedUp kept
    rw [freeDnsEvent_linked (steps.safe safe) linked]
    exact .head (.strays known) (connectInternal_moves (strays.safe safe) connecting)
  | @binds ssl fd opened socket opens =>
    obtain ⟨steps, spare⟩ := opens_spare safe opens
    obtain ⟨same, -, closed⟩ := opens_docket opens
    have linked := linked_behind (steps.safe safe) linked safe.lookedUp (by rw [(opens_some opens).2.2.2])
    have going := orderly (Option.isSome_of_eq_some socket)
    have found := findEvent_given opened id fd
    have known : id < opened.docket.next := same ▸ known
    have live : opened.docket.live id = true := same ▸ live
    rw [freeDnsEvent_bound (steps.safe safe) linked spare (connectFd_found found going), ← same]
    have binds : Move opened.docket (opened.given id fd).docket :=
      .binds closed known live linked.unbound
    have alive : (opened.given id fd).docket.live id = true := (live_binds _ id id fd).trans live
    exact .head binds (connectFd_moves_found known alive found going)

theorem dnsRead_moves {script : LoopReply} (safe : loop.held.Safe) (linked : loop.held.Linked dns id)
    (orderly : Orderly script) (read : loop.dnsRead dns script = some after) : Moves loop.docket after.docket := by
  have used := uses_steps loop (dnsValid_linked linked safe)
  have replied := dnsRead_replied linked read
  exact replied.moves (used.safe safe) (Linked.marked linked _) orderly

theorem dnsWrite_moves {script : LoopQuery} (safe : loop.held.Safe) (linked : loop.held.Linked dns id)
    (written : loop.dnsWrite dns script = some after) : Moves loop.docket after.docket := by
  have used := uses_steps loop (dnsValid_linked linked safe)
  simp only [dnsWrite] at written
  split at written
  · have failed := failLookup_moves (used.safe safe) (Linked.marked linked _) written
    exact failed
  all_goals
    cases written
    exact .refl

theorem tellConnected_moves {onConnect : List LoopAct} (safe : loop.held.Safe) (there : loop.Present id)
    (told : loop.tellConnected onConnect id = some after) : Moves loop.docket after.docket := by
  rw [tellConnected] at told
  split at told
  · cases told
    exact .refl
  · rename_i unconnected
    simp only at told
    split at told
    · have connects : Step loop.held
          ({ loop with connected := Function.update loop.connected id true }.mark (.connected id)).held :=
        .connects true there.live there.bound (Bool.eq_false_of_not_eq_true unconnected)
      have called := callback_docketMoves (connects.safe safe) told
      exact called
    · cases told
      exact .refl

theorem writable_moves {script : LoopWrite} (safe : loop.held.Safe) (positive : 0 < fd)
    (entry : loop.docket.findEvent fd = some id) (written : loop.writable script fd id = some after) :
    Moves loop.docket after.docket := by
  have there := found_present safe (Int.le_of_lt positive) entry
  have used := uses_steps loop there.live
  obtain ⟨middle, told, written⟩ := Option.bind_eq_some_iff.mp written
  have present : (loop.mark (.uses (loop.docket.live id))).Present id := ⟨there.live, there.bound⟩
  have tells := tellConnected_moves (used.safe safe) present told
  have safe := (used.trans (tellConnected_steps (used.safe safe) present told)).safe safe
  split at written
  · cases written
    exact tells
  · rename_i found entry
    have there := found_present safe (Int.le_of_lt positive) entry
    have present : (middle.mark (.uses (middle.docket.live found))).Present found := ⟨there.live, there.bound⟩
    have again := (uses_steps middle there.live).safe safe
    have writes := onEventWrite_docket again present written
    exact tells.tail (.writes writes)

/-- A read notification of an event is the read of it in the docket. -/
theorem notify_read {notification : Notification} (safe : loop.held.Safe) (read : notification.filter = .read)
    (unlistened : loop.listeners notification.fd = none) (unlooked : loop.dnsEvents notification.fd = none)
    (entry : loop.docket.findEvent notification.fd = some id) (notified : loop.notify notification = some after) :
    loop.Present id ∧ loop.docket.onEventRead notification.read.base id = some after.docket := by
  simp only [notify, read, unlistened, unlooked, entry] at notified
  split at notified
  · cases notified
  · rename_i above
    have there := found_present safe (Int.le_of_lt (Int.not_le.mp above)) entry
    have used := uses_steps loop there.live
    have present : (loop.mark (.uses (loop.docket.live id))).Present id := ⟨there.live, there.bound⟩
    have reads := onEventRead_docket (used.safe safe) present notified
    exact ⟨there, reads⟩

theorem notify_moves {notification : Notification} (safe : loop.held.Safe) (orderly : Orderly notification.reply)
    (notified : loop.notify notification = some after) : Moves loop.docket after.docket := by
  have behind := notified
  simp only [notify] at notified
  split at notified
  · cases notified
  · rename_i above
    have positive : 0 < notification.fd := Int.not_le.mp above
    cases filter : notification.filter with
    | read =>
      simp only [filter] at notified
      split at notified
      · exact accept_moves safe notified
      · rename_i unlistened
        split at notified
        · rename_i dns entry
          obtain ⟨id, linked⟩ := entry_linked safe entry
          exact dnsRead_moves safe linked orderly notified
        · rename_i id unlooked entry
          have unlistened := Option.not_isSome_iff_eq_none.mp unlistened
          exact .single (.reads (notify_read safe filter unlistened unlooked entry behind).2)
        · cases notified
          exact .refl
    | write =>
      simp only [filter] at notified
      split at notified
      · rename_i dns entry
        obtain ⟨id, linked⟩ := entry_linked safe entry
        exact dnsWrite_moves safe linked notified
      · rename_i id _ entry
        exact writable_moves safe positive entry notified
      · rename_i unheld missing
        cases notified
        exact .single (.shuts missing)

theorem kqueueLoop_moves {notifications : List Notification} (safe : loop.held.Safe)
    (orderly : ∀ notification ∈ notifications, Orderly notification.reply)
    (looped : loop.kqueueLoop notifications = some after) : Moves loop.docket after.docket := by
  induction notifications generalizing loop with
  | nil =>
    cases looped
    exact .refl
  | cons notification rest ih =>
    rw [kqueueLoop, List.foldlM_cons] at looped
    obtain ⟨middle, notified, looped⟩ := Option.bind_eq_some_iff.mp looped
    have orderlyNow := orderly notification List.mem_cons_self
    have moves := notify_moves safe orderlyNow notified
    have safe := (notify_steps safe orderlyNow notified).safe safe
    exact moves.trans (ih safe (fun other later => orderly other (List.mem_cons_of_mem _ later)) looped)

/-- A run of the loop is a run of its docket. -/
theorem run_moves {setup : List LoopAct} {notifications : List Notification}
    (orderly : ∀ notification ∈ notifications, Orderly notification.reply)
    (ran : run setup notifications = some loop) : Moves new.docket loop.docket := by
  obtain ⟨middle, performed, looped⟩ := Option.bind_eq_some_iff.mp ran
  have sets := (performAll_steps new_safe performed).safe new_safe
  exact (performAll_moves (performAll_docket new_safe performed)).trans (kqueueLoop_moves sets orderly looped)

theorem new_sound : new.docket.Sound where
  known := nofun
  registered := nofun
  released := nofun

/-- Every event of a run is still allocated, or it has been freed once. -/
theorem run_frees_once {setup : List LoopAct} {notifications : List Notification}
    (orderly : ∀ notification ∈ notifications, Orderly notification.reply)
    (ran : run setup notifications = some loop) (known : id < loop.docket.next) :
    loop.docket.log.countP (Entry.frees id) + loop.docket.count id = 1 := by
  have evolves := (run_moves orderly ran).evolves new_sound
  have balance := evolves.balance id
  have fresh : new.docket.count id = 0 := if_neg fun both => absurd both.1 (Nat.not_lt_zero id)
  have all : loop.docket.log = news new.docket loop.docket := evolves.log
  rw [fresh, if_pos ⟨Nat.zero_le id, known⟩, ← all] at balance
  exact balance

/-- Wherever a run of the loop has come to, a read keeps to its event exactly when every callback behind which
it looks its descriptor up again leaves that to the event or to nobody. -/
theorem run_read_identity_iff {setup : List LoopAct} {notifications : List Notification} {notification : Notification}
    (orderly : ∀ notification ∈ notifications, Orderly notification.reply)
    (ran : run setup notifications = some loop) (read : notification.filter = .read)
    (unlistened : loop.listeners notification.fd = none) (unlooked : loop.dnsEvents notification.fd = none)
    (entry : loop.docket.findEvent notification.fd = some id) (notified : loop.notify notification = some after) :
    Identity id loop.docket after.docket ↔ loop.docket.readKeeps notification.read.base id = true := by
  have safe := (run_steps orderly ran).safe new_safe
  have sound := ((run_moves orderly ran).evolves new_sound).sound
  obtain ⟨there, reads⟩ := notify_read safe read unlistened unlooked entry notified
  have known : id < loop.docket.next := safe.owned.fresh id there.live
  rw [(onEventRead_evolves sound reads).identity_iff known]
  exact onEventRead_about_iff sound there.live reads

end LoopDocket
end Devent
