import Devent.Event.Docket
import Mathlib.Data.List.Basic

/-! How a docket evolves under the acts of a callback: its table agrees with the kernel, and every
event that is allocated or created is still allocated or freed once. -/
namespace Devent

/-- The event is freed, by the call or by a callback. -/
def Entry.frees (id : Nat) : Entry → Bool
  | .own touch => touch.kind == .close && touch.event == id && touch.live
  | .freed other => other == id

namespace Docket

variable {docket before middle after : Docket} {id : Nat} {fd : Int} {acts : List Act} {present : Bool}

/-- The table and the kernel agree about every event that is allocated. -/
structure Sound (docket : Docket) : Prop where
  known : ∀ fd id, docket.events fd = some id → id < docket.next
  registered : ∀ id, id < docket.next → docket.live id = true → 0 ≤ (docket.heap id).fd →
    docket.events (docket.heap id).fd = some id ∧ docket.openFds (docket.heap id).fd = true
  released : ∀ id, id < docket.next → docket.live id = false → (docket.heap id).fd ≤ 0

/-- The entries of a call. -/
def news (before after : Docket) : List Entry := after.log.drop before.log.length

/-- One if the event is allocated. -/
def count (docket : Docket) (id : Nat) : Nat := if id < docket.next ∧ docket.live id = true then 1 else 0

/-- The log and the heap grow, and every event that is allocated or was created is still
allocated or has been freed once. -/
structure Evolves (before after : Docket) : Prop where
  log : after.log = before.log ++ news before after
  next : before.next ≤ after.next
  sound : after.Sound
  balance : ∀ id, (news before after).countP (Entry.frees id) + after.count id =
    before.count id + if before.next ≤ id ∧ id < after.next then 1 else 0

theorem news_eq {entries : List Entry} (grown : after.log = before.log ++ entries) :
    news before after = entries := by
  rw [news, grown, List.drop_left]

theorem Evolves.refl (sound : docket.Sound) : Evolves docket docket := by
  have none : news docket docket = [] := news_eq (List.append_nil _).symm
  refine ⟨by rw [none, List.append_nil], Nat.le_refl _, sound, fun id => ?_⟩
  rw [none, if_neg (by omega), List.countP_nil, Nat.zero_add, Nat.add_zero]

theorem Evolves.news_trans (first : Evolves before middle) (second : Evolves middle after) :
    news before after = news before middle ++ news middle after := by
  apply news_eq
  rw [← List.append_assoc, ← first.log]
  exact second.log

theorem Evolves.trans (first : Evolves before middle) (second : Evolves middle after) :
    Evolves before after := by
  have both := first.news_trans second
  have forward := first.next
  have onward := second.next
  refine ⟨?_, Nat.le_trans forward onward, second.sound, fun id => ?_⟩
  · rw [both, ← List.append_assoc, ← first.log]
    exact second.log
  · have one := first.balance id
    have two := second.balance id
    rw [both, List.countP_append]
    have split : (if before.next ≤ id ∧ id < after.next then 1 else 0) =
        (if before.next ≤ id ∧ id < middle.next then 1 else 0) +
          (if middle.next ≤ id ∧ id < after.next then 1 else 0) := by
      split_ifs <;> omega
    omega

/-- Fields change, and something is noted that frees nothing. -/
theorem evolves_of_cells {entries : List Entry} (sound : before.Sound) (log : after.log = before.log ++ entries)
    (quiet : ∀ id, entries.countP (Entry.frees id) = 0) (next : after.next = before.next)
    (events : after.events = before.events) (openFds : after.openFds = before.openFds)
    (fds : ∀ id, (after.heap id).fd = (before.heap id).fd) (lives : ∀ id, after.live id = before.live id) :
    Evolves before after := by
  refine ⟨by rw [news_eq log]; exact log, Nat.le_of_eq next.symm, ⟨?_, ?_, ?_⟩, fun id => ?_⟩
  · intro fd id
    rw [events, next]
    exact sound.known fd id
  · intro id
    rw [events, openFds, next, fds, lives]
    exact sound.registered id
  · intro id
    rw [next, fds, lives]
    exact sound.released id
  · have created : ¬(before.next ≤ id ∧ id < after.next) := by omega
    rw [news_eq log, quiet, if_neg created, Nat.zero_add, Nat.add_zero, count, count, next, lives]

theorem heap_modify (docket : Docket) (id : Nat) (f : DocketEvent → DocketEvent) (other : Nat) :
    (docket.modify id f).heap other =
      if other = id then { docket.heap id with event := f (docket.event id) } else docket.heap other := by
  simp only [modify, store, Function.update_apply]

theorem fd_modify (docket : Docket) (id : Nat) (f : DocketEvent → DocketEvent) (other : Nat) :
    ((docket.modify id f).heap other).fd = (docket.heap other).fd := by
  rw [heap_modify]
  split
  · rename_i same
    rw [same]
  · rfl

theorem event_modify (docket : Docket) (id : Nat) (f : DocketEvent → DocketEvent) :
    (docket.modify id f).event id = f (docket.event id) := by
  rw [event, heap_modify, if_pos rfl]

/-- A change of fields that allocates and frees nothing. -/
theorem live_modify {f : DocketEvent → DocketEvent} (keeps : ∀ event, (f event).isOpen = event.isOpen)
    (docket : Docket) (id other : Nat) : (docket.modify id f).live other = docket.live other := by
  simp only [live, event, heap_modify]
  split
  · rename_i same
    rw [same]
    exact keeps _
  · rfl

theorem touch_evolves (sound : docket.Sound) (kind : TouchKind) (kept : kind ≠ .close) (id : Nat) :
    Evolves docket (docket.touch kind id) := by
  refine evolves_of_cells sound rfl (fun other => ?_) rfl rfl rfl (fun _ => rfl) fun _ => rfl
  have quiet : ¬Entry.frees other (.own ⟨kind, id, docket.live id⟩) = true := by
    simp only [Entry.frees, Bool.and_eq_true, beq_iff_eq]
    exact fun frees => kept frees.1.1
  rw [List.countP_cons_of_neg quiet, List.countP_nil]

theorem modify_evolves (sound : docket.Sound) {f : DocketEvent → DocketEvent}
    (keeps : ∀ event, (f event).isOpen = event.isOpen) (id : Nat) : Evolves docket (docket.modify id f) :=
  evolves_of_cells sound (List.append_nil _).symm (fun _ => rfl) rfl rfl rfl (fd_modify docket id f)
    (live_modify keeps docket id)

theorem next_freeEvent (docket : Docket) (id : Nat) : (docket.freeEvent id).next = docket.next := by
  rw [freeEvent]
  split <;> rfl

theorem log_freeEvent (docket : Docket) (id : Nat) : (docket.freeEvent id).log = docket.log := by
  rw [freeEvent]
  split <;> rfl

theorem live_freeEvent (docket : Docket) (id other : Nat) :
    (docket.freeEvent id).live other = if other = id then false else docket.live other := by
  simp only [freeEvent]
  split
  all_goals
    simp only [live, event, store, Function.update_apply]
    split <;> rfl

theorem fd_freeEvent (docket : Docket) (id other : Nat) : ((docket.freeEvent id).heap other).fd =
    if other = id then min (docket.heap id).fd 0 else (docket.heap other).fd := by
  simp only [freeEvent]
  split
  · rename_i positive
    simp only [store, Function.update_apply, min_eq_right (Int.le_of_lt positive)]
    split <;> rfl
  · rename_i unowned
    simp only [store, Function.update_apply, min_eq_left (Int.not_lt.mp unowned)]
    split <;> rfl

/-- An event that is known is freed from the heap and, by its descriptor, from the table. -/
theorem freeEvent_sound (sound : docket.Sound) (known : id < docket.next) : (docket.freeEvent id).Sound := by
  constructor
  · intro fd other found
    rw [next_freeEvent]
    simp only [freeEvent] at found
    split at found
    · simp only [Function.update_apply] at found
      split at found
      · cases found
      · exact sound.known fd other found
    · exact sound.known fd other found
  · intro other bound
    rw [next_freeEvent] at bound
    rw [live_freeEvent, fd_freeEvent]
    split
    · intro dead
      cases dead
    · rename_i different
      intro live nonneg
      obtain ⟨found, opened⟩ := sound.registered other bound live nonneg
      simp only [freeEvent]
      split
      · rename_i positive
        have apart : (docket.heap other).fd ≠ (docket.heap id).fd := by
          intro same
          cases alive : docket.live id with
          | false =>
            have released := sound.released id known alive
            omega
          | true =>
            obtain ⟨found', -⟩ := sound.registered id known alive (Int.le_of_lt positive)
            rw [same, found'] at found
            exact different (Option.some.inj found).symm
        simp only [store, Function.update_apply, if_neg apart]
        exact ⟨found, opened⟩
      · exact ⟨found, opened⟩
  · intro other bound
    rw [next_freeEvent] at bound
    rw [live_freeEvent, fd_freeEvent]
    split
    · intro _
      omega
    · exact sound.released other bound

theorem count_freeEvent (docket : Docket) (id other : Nat) :
    (docket.freeEvent id).count other = if other = id then 0 else docket.count other := by
  simp only [count, next_freeEvent, live_freeEvent]
  split_ifs <;> simp_all

/-- A free that is noted as one, where the event was allocated. -/
theorem noted_evolves (sound : docket.Sound) (known : id < docket.next) {entry : Entry}
    (frees : ∀ other, Entry.frees other entry = (other == id && docket.live id)) :
    Evolves docket ((docket.freeEvent id).record entry) := by
  have next : ((docket.freeEvent id).record entry).next = docket.next := next_freeEvent docket id
  have log : ((docket.freeEvent id).record entry).log = docket.log ++ [entry] := by
    simp only [record, log_freeEvent]
  have freed := freeEvent_sound sound known
  refine ⟨by rw [news_eq log, log], Nat.le_of_eq next.symm,
    ⟨freed.known, freed.registered, freed.released⟩, fun other => ?_⟩
  have created : ¬(docket.next ≤ other ∧ other < ((docket.freeEvent id).record entry).next) := by omega
  have counted : ((docket.freeEvent id).record entry).count other = (docket.freeEvent id).count other := rfl
  rw [news_eq log, counted, count_freeEvent, if_neg created, List.countP_singleton, frees]
  by_cases same : other = id
  · subst same
    simp only [beq_self_eq_true, Bool.true_and, if_true, count, known, true_and, Nat.add_zero]
  · rw [beq_eq_false_iff_ne.mpr same, Bool.false_and, if_neg same, if_neg Bool.false_ne_true, Nat.zero_add,
      Nat.add_zero]

theorem close_eq (docket : Docket) (id : Nat) : (docket.touch .close id).freeEvent id =
    (docket.freeEvent id).record (.own ⟨.close, id, docket.live id⟩) := by
  have heap : (docket.touch .close id).heap = docket.heap := rfl
  simp only [freeEvent, heap]
  split <;> rfl

/-- The free that ends a close. -/
theorem close_evolves (sound : docket.Sound) (known : id < docket.next) :
    Evolves docket ((docket.touch .close id).freeEvent id) := by
  rw [close_eq]
  refine noted_evolves sound known fun other => ?_
  simp only [Entry.frees, beq_self_eq_true, Bool.true_and, BEq.comm (a := id)]

/-- A callback frees an event that is allocated. -/
theorem freed_evolves (sound : docket.Sound) (known : id < docket.next) (live : docket.live id = true) :
    Evolves docket ((docket.freeEvent id).record (.freed id)) := by
  refine noted_evolves sound known fun other => ?_
  simp only [Entry.frees, live, Bool.and_true, BEq.comm (a := id)]

/-- One event more. -/
theorem created_evolves (sound : after.Sound) (log : after.log = before.log)
    (next : after.next = before.next + 1) (alive : after.live before.next = true)
    (lives : ∀ id, id ≠ before.next → after.live id = before.live id) :
    Evolves before after := by
  have none : news before after = [] := news_eq (by rw [log, List.append_nil])
  refine ⟨by rw [none, log, List.append_nil], by omega, sound, fun id => ?_⟩
  rw [none, List.countP_nil, Nat.zero_add]
  by_cases fresh : id = before.next
  · subst fresh
    rw [count, count, if_pos ⟨by omega, alive⟩, if_neg (by omega), if_pos (by omega)]
  · have elsewhere : ¬(before.next ≤ id ∧ id < after.next) := by omega
    rw [if_neg elsewhere, Nat.add_zero, count, count, lives id fresh]
    have same : id < after.next ↔ id < before.next := by omega
    simp only [same]

theorem live_newEvent (docket : Docket) (fd : Int) (event : DocketEvent) (id : Nat) :
    (docket.newEvent fd event).live id = if id = docket.next then event.isOpen else docket.live id := by
  simp only [newEvent, live, Docket.event, store, Function.update_apply]
  split <;> rfl

theorem fd_newEvent (docket : Docket) (fd : Int) (event : DocketEvent) (id : Nat) :
    ((docket.newEvent fd event).heap id).fd = if id = docket.next then fd else (docket.heap id).fd := by
  simp only [newEvent, store, Function.update_apply]
  split <;> rfl

theorem newEvent_released (sound : docket.Sound) {event : DocketEvent} (opened : event.isOpen = true)
    (fd : Int) (bound : id < docket.next + 1) (dead : (docket.newEvent fd event).live id = false) :
    ((docket.newEvent fd event).heap id).fd ≤ 0 := by
  rw [live_newEvent] at dead
  rw [fd_newEvent]
  split at dead
  · rw [opened] at dead
    cases dead
  · rename_i old
    rw [if_neg old]
    exact sound.released id (Nat.lt_of_le_of_ne (Nat.le_of_lt_succ bound) old) dead

theorem newEvent_sound (sound : docket.Sound) {event : DocketEvent} (opened : event.isOpen = true)
    (unowned : fd < 0) : (docket.newEvent fd event).Sound := by
  refine ⟨fun fd id found => Nat.lt_succ_of_lt (sound.known fd id found), fun id bound => ?_,
    fun id => newEvent_released sound opened fd⟩
  rw [live_newEvent, fd_newEvent]
  split
  · intro _ nonneg
    omega
  · rename_i old
    exact sound.registered id (Nat.lt_of_le_of_ne (Nat.le_of_lt_succ bound) old)

theorem addEvent_sound (sound : docket.Sound) {event : DocketEvent} (opened : event.isOpen = true)
    (closed : docket.openFds fd = false) : ((docket.newEvent fd event).addEvent fd docket.next).Sound := by
  refine ⟨fun other id found => ?_, fun id bound => ?_, fun id => newEvent_released sound opened fd⟩
  · simp only [addEvent, Function.update_apply] at found
    split at found
    · cases found
      exact Nat.lt_succ_self _
    · exact Nat.lt_succ_of_lt (sound.known other id found)
  · have lives : ((docket.newEvent fd event).addEvent fd docket.next).live id = _ :=
      live_newEvent docket fd event id
    have fds : (((docket.newEvent fd event).addEvent fd docket.next).heap id).fd = _ :=
      fd_newEvent docket fd event id
    rw [lives, fds]
    split
    · rename_i fresh
      intro _ _
      subst fresh
      simp only [addEvent, Function.update_self, and_self]
    · rename_i old
      intro live nonneg
      obtain ⟨found, taken⟩ :=
        sound.registered id (Nat.lt_of_le_of_ne (Nat.le_of_lt_succ bound) old) live nonneg
      have apart : (docket.heap id).fd ≠ fd := by
        intro same
        rw [same, closed] at taken
        cases taken
      simp only [addEvent, Function.update_apply, if_neg apart]
      exact ⟨found, taken⟩

theorem perform_evolves {act : Act} (sound : before.Sound) (performed : perform before act = some after) :
    Evolves before after := by
  cases act with
  | free id =>
    simp only [perform] at performed
    split at performed
    · rename_i allowed
      cases performed
      exact freed_evolves sound allowed.1 allowed.2
    · cases performed
  | create fd event =>
    simp only [perform] at performed
    split at performed
    · rename_i allowed
      cases performed
      refine created_evolves (addEvent_sound sound allowed.2.2 allowed.2.1) rfl rfl ?_ fun id old => ?_
      · exact (live_newEvent before fd event before.next).trans ((if_pos rfl).trans allowed.2.2)
      · exact (live_newEvent before fd event id).trans (if_neg old)
    · cases performed
  | connectHostname event =>
    simp only [perform] at performed
    split at performed
    · rename_i opened
      cases performed
      refine created_evolves (newEvent_sound sound opened (by decide)) rfl rfl ?_ fun id old => ?_
      · exact (live_newEvent before (-1) event before.next).trans ((if_pos rfl).trans opened)
      · exact (live_newEvent before (-1) event id).trans (if_neg old)
    · cases performed
  | set id event =>
    simp only [perform] at performed
    split at performed
    · rename_i allowed
      cases performed
      refine evolves_of_cells sound (List.append_nil _).symm (fun _ => rfl) rfl rfl rfl
        (fd_modify before id _) fun other => ?_
      simp only [live, Docket.event, heap_modify]
      split
      · rename_i same
        rw [same, allowed.2.2]
        exact allowed.2.1.symm
      · rfl
    · cases performed

theorem performAll_evolves (sound : before.Sound) (performed : before.performAll acts = some after) :
    Evolves before after := by
  induction acts generalizing before with
  | nil =>
    cases performed
    exact .refl sound
  | cons act rest ih =>
    rw [performAll, List.foldlM_cons] at performed
    obtain ⟨middle, first, rest⟩ := Option.bind_eq_some_iff.mp performed
    have one := perform_evolves sound first
    exact one.trans (ih one.sound rest)

theorem callback_evolves (sound : before.Sound) (called : before.callback present acts id = some after) :
    Evolves before after := by
  rw [callback] at called
  split at called
  · have touched := touch_evolves sound .call (by decide) id
    exact touched.trans (performAll_evolves touched.sound called)
  · cases called
    exact .refl sound

end Docket

end Devent
