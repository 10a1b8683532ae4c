import Devent.Event.LoopHandlers
import Devent.Event.LoopLookups

/-! The loop does nothing to what is held but the steps it may take. -/
namespace Devent.LoopDocket
open Holdings

variable {loop middle after : LoopDocket} {id dns : Nat} {fd : Int} {act : LoopAct} {acts : List LoopAct}
  {present : Bool}

theorem tellConnected_steps {onConnect : List LoopAct} (safe : loop.held.Safe) (there : loop.Present id)
    (told : loop.tellConnected onConnect id = some after) : Steps loop.held after.held := by
  rw [tellConnected] at told
  split at told
  · cases told
    exact .refl
  · rename_i unconnected
    have unconnected := Bool.eq_false_of_not_eq_true unconnected
    simp only at told
    split at told
    · have first : Step loop.held
          ({ loop with connected := Function.update loop.connected id true }.mark (.connected id)).held :=
        .connects true there.live there.bound unconnected
      exact Steps.trans (.single first) (callback_steps (first.safe safe) told)
    · cases told
      have first : Step loop.held _ := .connects false there.live there.bound unconnected
      simp only [marked, Bool.false_eq_true, if_false, List.append_nil] at first
      exact .single first

theorem writable_steps {script : LoopWrite} (safe : loop.held.Safe) (positive : 0 < fd)
    (entry : loop.docket.findEvent fd = some id) (written : loop.writable script fd id = some after) :
    Steps loop.held after.held := by
  have there := found_present safe (Int.le_of_lt positive) entry
  have used := uses_steps loop there.live
  obtain ⟨middle, told, written⟩ := Option.bind_eq_some_iff.mp written
  have present : (loop.mark (.uses (loop.docket.live id))).Present id := ⟨there.live, there.bound⟩
  have tells := used.trans (tellConnected_steps (used.safe safe) present told)
  split at written
  · cases written
    exact tells
  · rename_i found entry
    have safe := tells.safe safe
    have there := found_present safe (Int.le_of_lt positive) entry
    have again := uses_steps middle there.live
    have present : (middle.mark (.uses (middle.docket.live found))).Present found := ⟨there.live, there.bound⟩
    exact tells.trans (again.trans (onEventWrite_steps (again.safe safe) present written))

theorem notify_steps {notification : Notification} (safe : loop.held.Safe) (orderly : Orderly notification.reply)
    (notified : loop.notify notification = some after) : Steps loop.held after.held := by
  simp only [notify] at notified
  split at notified
  · cases notified
  · rename_i above
    have positive : 0 < notification.fd := Int.not_le.mp above
    cases filter : notification.filter with
    | read =>
      simp only [filter] at notified
      split at notified
      · rename_i listening
        exact accept_steps safe listening notified
      · split at notified
        · rename_i dns entry
          obtain ⟨id, linked⟩ := entry_linked safe entry
          exact dnsRead_steps safe linked orderly notified
        · rename_i id _ entry
          have there := found_present safe (Int.le_of_lt positive) entry
          have used := uses_steps loop there.live
          have present : (loop.mark (.uses (loop.docket.live id))).Present id := ⟨there.live, there.bound⟩
          exact used.trans (onEventRead_steps (used.safe safe) present notified)
        · cases notified
          exact .refl
    | write =>
      simp only [filter] at notified
      split at notified
      · rename_i dns entry
        obtain ⟨id, linked⟩ := entry_linked safe entry
        exact dnsWrite_steps safe linked notified
      · rename_i id _ entry
        exact writable_steps safe positive entry notified
      · rename_i unheld missing
        cases notified
        exact .single (.shuts missing unheld)

theorem kqueueLoop_steps {notifications : List Notification} (safe : loop.held.Safe)
    (orderly : ∀ notification ∈ notifications, Orderly notification.reply)
    (looped : loop.kqueueLoop notifications = some after) : Steps loop.held after.held := by
  induction notifications generalizing loop with
  | nil =>
    cases looped
    exact .refl
  | cons notification rest ih =>
    rw [kqueueLoop, List.foldlM_cons] at looped
    obtain ⟨middle, notified, looped⟩ := Option.bind_eq_some_iff.mp looped
    have steps := notify_steps safe (orderly notification List.mem_cons_self) notified
    exact steps.trans (ih (steps.safe safe) (fun other later => orderly other (List.mem_cons_of_mem _ later)) looped)

theorem new_safe : new.held.Safe where
  owned := ⟨nofun, nofun, nofun, rfl, nofun⟩
  lookedUp := ⟨nofun, nofun, nofun⟩
  told _ := ⟨Nat.zero_le _, fun _ => rfl, fun _ => ⟨rfl, nofun⟩, nofun, nofun⟩
  valid := nofun

theorem run_steps {setup : List LoopAct} {notifications : List Notification}
    (orderly : ∀ notification ∈ notifications, Orderly notification.reply)
    (ran : run setup notifications = some loop) : Steps new.held loop.held := by
  obtain ⟨middle, performed, looped⟩ := Option.bind_eq_some_iff.mp ran
  have sets := performAll_steps new_safe performed
  exact sets.trans (kqueueLoop_steps (sets.safe new_safe) orderly looped)

/-- In every run of the loop, whatever the notifications and the callbacks, descriptors, events and DNS
events have one holder each, and every event is announced as it should be. -/
theorem loop_safe (setup : List LoopAct) (notifications : List Notification) (loop : LoopDocket)
    (orderly : ∀ notification ∈ notifications, Orderly notification.reply)
    (ran : run setup notifications = some loop) : loop.held.Safe :=
  (run_steps orderly ran).safe new_safe

/-- A notification without answers. -/
def unanswered (filter : Filter) (fd : Int) : Notification where
  filter := filter
  fd := fd
  accept := ⟨none, true, []⟩
  query := ⟨.sent, []⟩
  reply := ⟨false, ⟨-1, false, false, none, none, true, .established, true⟩, false, []⟩
  read := ⟨.pending, [], [], ⟨[], [], []⟩⟩
  write := ⟨[], .pending, ⟨[], [], []⟩⟩

/-- A listener under 3, one with TLS under 4, and a host that is looked up under 5. -/
def listening : List LoopAct :=
  [.createListener 3 true false, .createListener 4 true true,
    .connectHostname (some 5) { blankEvent with eventCb := true } false]

/-- The answer of the DNS server, and a connection that is begun under 8. -/
def answered (connection : Connection) : Notification :=
  { unanswered .read 5 with reply := ⟨true, ⟨45, true, true, some 8, none, true, connection, true⟩, false, []⟩ }

/-- Both listeners accept, the host is connected, and the TLS event, once it is announced, has the other one
freed, of which a notification is still to come. -/
def busy : List Notification :=
  [unanswered .write 5, { unanswered .read 3 with accept := ⟨some 6, true, []⟩ },
    { unanswered .read 4 with accept := ⟨some 7, true, []⟩ }, answered (.inProgress true), unanswered .write 8,
    { unanswered .write 7 with write := ⟨[], .done [.free 1], ⟨[], [], []⟩⟩ }, unanswered .write 6]

theorem busy_safe : ∃ loop, run listening busy = some loop ∧ loop.held.Safe := by
  have defined : (run listening busy).isSome = true := by decide +kernel
  obtain ⟨loop, ran⟩ := Option.isSome_iff_exists.mp defined
  refine ⟨loop, ran, loop_safe listening busy loop ?_ ran⟩
  intro notification member
  simp only [busy, List.mem_cons, List.not_mem_nil, or_false] at member
  rcases member with rfl | rfl | rfl | rfl | rfl | rfl | rfl <;> exact fun _ _ => nofun

example : (run listening busy).map marks = some [.uses true, .accepting 1, .accepted 1, .accepting 2, .uses true,
    .uses true, .connected 0, .uses true, .uses true, .uses true, .accepted 2] := by decide +kernel

/-- A connection that fails at once leaves its event under a descriptor that is closed. -/
theorem refused_unsafe : ∃ loop, run listening [answered .refused] = some loop ∧ ¬loop.held.Safe := by
  have defined : (run listening [answered .refused]).isSome = true := by decide +kernel
  obtain ⟨loop, ran⟩ := Option.isSome_iff_exists.mp defined
  refine ⟨loop, ran, fun safe => ?_⟩
  have state : (run listening [answered .refused]).map (fun loop =>
      (loop.docket.live 0, loop.fd 0, loop.docket.openFds 8)) = some (true, 8, false) := by decide +kernel
  rw [ran, Option.map_some, Option.some.injEq, Prod.mk.injEq, Prod.mk.injEq] at state
  obtain ⟨live, fd, closed⟩ := state
  have positive : 0 < loop.fd 0 := by omega
  have opened : loop.docket.openFds (loop.fd 0) = true := (safe.owned.own 0 live positive).2
  rw [fd, closed] at opened
  cases opened

end Devent.LoopDocket
