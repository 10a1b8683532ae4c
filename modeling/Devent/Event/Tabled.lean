import Devent.Event.Evolution

/-! The table of a docket in order: its entries are allocated events, and what the acts of a callback
leave of one. -/
namespace Devent.Docket

variable {docket before middle after : Docket} {id : Nat} {fd : Int} {acts : List Act} {present : Bool}

/-- The event is allocated, and the table has it under its descriptor. -/
def Registered (docket : Docket) (id : Nat) : Prop :=
  docket.live id = true ∧ docket.findEvent (docket.heap id).fd = some id

/-- An entry of the table is an allocated event with an open descriptor, except that a freed
event stays in the table under 0. -/
structure Tabled (docket : Docket) : Prop where
  sound : docket.Sound
  natural : ∀ fd id, docket.events fd = some id → 0 ≤ fd ∧ docket.openFds fd = true
  owned : ∀ fd id, docket.events fd = some id → docket.live id = true → (docket.heap id).fd = fd
  stale : ∀ fd id, docket.events fd = some id → docket.live id = false → fd = 0

theorem Tabled.registered_iff (tabled : docket.Tabled) (known : id < docket.next)
    (live : docket.live id = true) : docket.Registered id ↔ 0 ≤ (docket.heap id).fd := by
  constructor
  · rintro ⟨-, there⟩
    exact (tabled.natural _ _ there).1
  · exact fun natural => ⟨live, (tabled.sound.registered id known live natural).1⟩

/-- Changes of fields keep the table. -/
theorem Tabled.congr (tabled : before.Tabled) (next : after.next = before.next)
    (events : after.events = before.events) (openFds : after.openFds = before.openFds)
    (fds : ∀ id, (after.heap id).fd = (before.heap id).fd) (lives : ∀ id, after.live id = before.live id) :
    after.Tabled := by
  constructor
  · have log : (({ after with log := before.log } : Docket)).log = before.log ++ [] := (List.append_nil _).symm
    have same : Evolves before { after with log := before.log } :=
      evolves_of_cells tabled.sound log (fun _ => rfl) next events openFds fds lives
    exact ⟨same.sound.known, same.sound.registered, same.sound.released⟩
  · intro fd id found
    rw [openFds]
    exact tabled.natural fd id (events ▸ found)
  · intro fd id found live
    rw [fds]
    exact tabled.owned fd id (events ▸ found) (lives id ▸ live)
  · intro fd id found dead
    exact tabled.stale fd id (events ▸ found) (lives id ▸ dead)

theorem found_freeEvent {other : Nat} (found : (docket.freeEvent id).events fd = some other) :
    docket.events fd = some other ∧ (docket.freeEvent id).openFds fd = docket.openFds fd ∧
      ¬(0 < fd ∧ fd = (docket.heap id).fd) := by
  simp only [freeEvent] at found ⊢
  split at found
  · rename_i positive
    simp only [Function.update_apply] at found ⊢
    split at found
    · cases found
    · rename_i apart
      rw [if_pos positive]
      simp only [Function.update_of_ne apart]
      exact ⟨found, rfl, fun both => apart both.2⟩
  · rename_i unowned
    rw [if_neg unowned]
    refine ⟨found, rfl, ?_⟩
    rintro ⟨positive, rfl⟩
    exact unowned positive

theorem Tabled.freeEvent (tabled : docket.Tabled) (known : id < docket.next) : (docket.freeEvent id).Tabled := by
  refine ⟨freeEvent_sound tabled.sound known, fun fd other found => ?_, fun fd other found live => ?_,
    fun fd other found dead => ?_⟩
  · obtain ⟨there, openFds, -⟩ := found_freeEvent found
    rw [openFds]
    exact tabled.natural fd other there
  · rw [live_freeEvent] at live
    split at live
    · cases live
    · rename_i different
      rw [fd_freeEvent, if_neg different]
      exact tabled.owned fd other (found_freeEvent found).1 live
  · obtain ⟨there, -, kept⟩ := found_freeEvent found
    have natural := (tabled.natural fd other there).1
    rw [live_freeEvent] at dead
    split at dead
    · rename_i same
      subst same
      cases alive : docket.live other with
      | true =>
        have owned := tabled.owned fd other there alive
        omega
      | false => exact tabled.stale fd other there alive
    · exact tabled.stale fd other there dead

theorem Tabled.newEvent (tabled : docket.Tabled) {event : DocketEvent} (opened : event.isOpen = true)
    (unowned : fd < 0) : (docket.newEvent fd event).Tabled := by
  have old {other : Int} {found : Nat} (there : docket.events other = some found) : found ≠ docket.next :=
    Nat.ne_of_lt (tabled.sound.known other found there)
  refine ⟨newEvent_sound tabled.sound opened unowned, tabled.natural, fun other found there live => ?_,
    fun other found there dead => ?_⟩
  · rw [live_newEvent, if_neg (old there)] at live
    rw [fd_newEvent, if_neg (old there)]
    exact tabled.owned other found there live
  · rw [live_newEvent, if_neg (old there)] at dead
    exact tabled.stale other found there dead

theorem Tabled.addEvent (tabled : docket.Tabled) {event : DocketEvent} (opened : event.isOpen = true)
    (natural : 0 ≤ fd) (closed : docket.openFds fd = false) :
    ((docket.newEvent fd event).addEvent fd docket.next).Tabled := by
  have lives (other : Nat) : ((docket.newEvent fd event).addEvent fd docket.next).live other =
      if other = docket.next then event.isOpen else docket.live other := live_newEvent docket fd event other
  have fds (other : Nat) : (((docket.newEvent fd event).addEvent fd docket.next).heap other).fd =
      if other = docket.next then fd else (docket.heap other).fd := fd_newEvent docket fd event other
  have entry {other : Int} {found : Nat}
      (there : ((docket.newEvent fd event).addEvent fd docket.next).events other = some found) :
      other = fd ∧ found = docket.next ∨ other ≠ fd ∧ docket.events other = some found ∧ found ≠ docket.next := by
    simp only [Docket.addEvent, Function.update_apply] at there
    split at there
    · rename_i same
      exact .inl ⟨same, (Option.some.inj there).symm⟩
    · rename_i apart
      exact .inr ⟨apart, there, Nat.ne_of_lt (tabled.sound.known other found there)⟩
  refine ⟨addEvent_sound tabled.sound opened closed, fun other found there => ?_,
    fun other found there live => ?_, fun other found there dead => ?_⟩
  · obtain ⟨rfl, -⟩ | ⟨apart, there, -⟩ := entry there
    · exact ⟨natural, Function.update_self _ _ _⟩
    · refine ⟨(tabled.natural other found there).1, ?_⟩
      exact (Function.update_of_ne apart _ _).trans (tabled.natural other found there).2
  · rw [fds]
    obtain ⟨rfl, rfl⟩ | ⟨-, there, old⟩ := entry there
    · rw [if_pos rfl]
    · rw [lives, if_neg old] at live
      rw [if_neg old]
      exact tabled.owned other found there live
  · rw [lives] at dead
    obtain ⟨-, rfl⟩ | ⟨-, there, old⟩ := entry there
    · rw [if_pos rfl, opened] at dead
      cases dead
    · rw [if_neg old] at dead
      exact tabled.stale other found there dead

structure Acted (acts : List Act) (before after : Docket) : Prop where
  tabled : after.Tabled
  evolves : Evolves before after
  live : ∀ id, id < before.next → before.live id = true → (after.live id = true ↔ .free id ∉ acts)
  fd : ∀ id, id < before.next → after.live id = true →
    before.live id = true ∧ (after.heap id).fd = (before.heap id).fd
  zero : ∀ id, before.events 0 = some id → after.events 0 = some id

theorem acted_of_kept {act : Act} (tabled : after.Tabled) (evolves : Evolves before after)
    (other : ∀ id, act ≠ .free id) (lives : ∀ id, id < before.next → after.live id = before.live id)
    (fds : ∀ id, id < before.next → (after.heap id).fd = (before.heap id).fd)
    (zero : ∀ id, before.events 0 = some id → after.events 0 = some id) : Acted [act] before after := by
  refine ⟨tabled, evolves, fun id known live => ?_, fun id known live => ?_, zero⟩
  · have kept : .free id ∉ [act] := fun member => other id (List.mem_singleton.mp member).symm
    rw [lives id known]
    exact iff_of_true live kept
  · exact ⟨(lives id known).symm.trans live, fds id known⟩

theorem freed_acted (tabled : before.Tabled) {freed : Nat} (known : freed < before.next)
    (live : before.live freed = true) :
    Acted [.free freed] before ((before.freeEvent freed).record (.freed freed)) := by
  have lives (id : Nat) : ((before.freeEvent freed).record (.freed freed)).live id =
      if id = freed then false else before.live id := live_freeEvent before freed id
  have fds (id : Nat) : (((before.freeEvent freed).record (.freed freed)).heap id).fd =
      if id = freed then min (before.heap freed).fd 0 else (before.heap id).fd := fd_freeEvent before freed id
  refine ⟨(tabled.freeEvent known).congr rfl rfl rfl (fun _ => rfl) fun _ => rfl,
    freed_evolves tabled.sound known live, fun id _ alive => ?_, fun id _ alive => ?_, fun id there => ?_⟩
  · rw [lives]
    by_cases same : id = freed
    · simp [same]
    · simp [same, alive]
  · rw [lives] at alive
    split at alive
    · cases alive
    · rename_i apart
      rw [fds, if_neg apart]
      exact ⟨alive, rfl⟩
  · change (before.freeEvent freed).events 0 = some id
    simp only [Docket.freeEvent]
    split
    · rename_i positive
      exact (Function.update_of_ne (Int.ne_of_lt positive) _ _).trans there
    · exact there

theorem perform_acted {act : Act} (tabled : before.Tabled) (performed : before.perform act = some after) :
    Acted [act] before after := by
  have evolves := perform_evolves tabled.sound performed
  cases act with
  | free freed =>
    simp only [perform] at performed
    split at performed
    · rename_i allowed
      cases performed
      exact freed_acted tabled allowed.1 allowed.2
    · cases performed
  | create fd event =>
    simp only [perform] at performed
    split at performed
    · rename_i allowed
      cases performed
      refine acted_of_kept (tabled.addEvent allowed.2.2 allowed.1 allowed.2.1) evolves (by simp)
        (fun id known => ?_) (fun id known => ?_) fun id there => ?_
      · exact (live_newEvent before fd event id).trans (if_neg (Nat.ne_of_lt known))
      · exact (fd_newEvent before fd event id).trans (if_neg (Nat.ne_of_lt known))
      · have taken := (tabled.natural 0 id there).2
        have apart : 0 ≠ fd := by
          rintro rfl
          rw [allowed.2.1] at taken
          cases taken
        exact (Function.update_of_ne apart _ _).trans there
    · cases performed
  | connectHostname event =>
    simp only [perform] at performed
    split at performed
    · rename_i opened
      cases performed
      refine acted_of_kept (tabled.newEvent opened (by decide)) evolves (by simp)
        (fun id known => ?_) (fun id known => ?_) fun id there => there
      · exact (live_newEvent before (-1) event id).trans (if_neg (Nat.ne_of_lt known))
      · exact (fd_newEvent before (-1) event id).trans (if_neg (Nat.ne_of_lt known))
    · cases performed
  | set other event =>
    simp only [perform] at performed
    split at performed
    · rename_i allowed
      cases performed
      have lives (id : Nat) : (before.modify other fun _ => event).live id = before.live id := by
        simp only [live, Docket.event, heap_modify]
        split
        · rename_i same
          rw [same, allowed.2.2]
          exact allowed.2.1.symm
        · rfl
      exact acted_of_kept (tabled.congr rfl rfl rfl (fd_modify before other _) lives) evolves (by simp)
        (fun id _ => lives id) (fun id _ => fd_modify before other _ id) fun id there => there
    · cases performed

theorem Acted.refl (tabled : docket.Tabled) : Acted [] docket docket :=
  ⟨tabled, .refl tabled.sound, fun _ _ live => iff_of_true live List.not_mem_nil, fun _ _ live => ⟨live, rfl⟩,
    fun _ there => there⟩

theorem Acted.trans {first second : List Act} (one : Acted first before middle)
    (two : Acted second middle after) : Acted (first ++ second) before after := by
  have onward := one.evolves.next
  refine ⟨two.tabled, one.evolves.trans two.evolves, fun id known live => ?_, fun id known live => ?_,
    fun id there => two.zero id (one.zero id there)⟩
  · rw [List.mem_append, not_or, ← one.live id known live]
    constructor
    · intro alive
      have between := (two.fd id (by omega) alive).1
      exact ⟨between, (two.live id (by omega) between).mp alive⟩
    · rintro ⟨between, kept⟩
      exact (two.live id (by omega) between).mpr kept
  · obtain ⟨between, fd⟩ := two.fd id (by omega) live
    obtain ⟨before', fd'⟩ := one.fd id known between
    exact ⟨before', fd.trans fd'⟩

theorem performAll_acted (tabled : before.Tabled) (performed : before.performAll acts = some after) :
    Acted acts before after := by
  induction acts generalizing before with
  | nil =>
    cases performed
    exact .refl tabled
  | cons act rest ih =>
    rw [performAll, List.foldlM_cons] at performed
    obtain ⟨middle, first, rest⟩ := Option.bind_eq_some_iff.mp performed
    have one := perform_acted tabled first
    exact one.trans (ih one.tabled rest)

/-- A call, where the callback is set. -/
theorem callback_acted (tabled : before.Tabled) (called : before.callback present acts id = some after) :
    Acted (if present then acts else []) before after := by
  rw [callback] at called
  split at called
  · rename_i set
    have touched : Acted [] before (before.touch .call id) := by
      refine ⟨tabled.congr rfl rfl rfl (fun _ => rfl) fun _ => rfl, touch_evolves tabled.sound .call (by decide) id,
        fun _ _ live => iff_of_true live List.not_mem_nil, fun _ _ live => ⟨live, rfl⟩, fun _ there => there⟩
    rw [if_pos set]
    exact touched.trans (performAll_acted touched.tabled called)
  · rename_i unset
    cases called
    rw [if_neg unset]
    exact .refl tabled

end Devent.Docket
