import Devent.Event.HoldingsOwned

/-! Every step of a docket keeps what is held safe, and no event is announced twice. -/
namespace Devent.Holdings

variable {held after : Holdings} {fd : Int} {id other dns : Nat} {connected served shaking : Bool}

/-- What a step leaves as it is for an event. -/
structure Untold (held after : Holdings) (id : Nat) : Prop where
  next : held.next ≤ after.next
  live : after.live id = held.live id
  fd : after.fd id = held.fd id
  connected : after.connected id = held.connected id
  served : after.served id = held.served id
  shaking : after.shaking id = held.shaking id
  dnsEvent : after.dnsEvent id = held.dnsEvent id
  marks : ∃ marks, after.marks = held.marks ++ marks ∧ marks.countP (Mark.announces id) = 0 ∧
    .accepting id ∉ marks

theorem announcements_marked (marks : List Mark) : (held.marked marks).announcements id =
    held.announcements id + marks.countP (Mark.announces id) := List.countP_append

theorem Untold.waiting_iff (untold : Untold held after id) : after.Waiting id ↔ held.Waiting id := by
  rw [Waiting, Waiting, untold.live, untold.fd, untold.connected, untold.served, untold.shaking, untold.dnsEvent]

theorem Untold.announcements (untold : Untold held after id) : after.announcements id = held.announcements id := by
  obtain ⟨marks, same, none, -⟩ := untold.marks
  rw [Holdings.announcements, same, List.countP_append, none]
  rfl

theorem Untold.accepting_iff (untold : Untold held after id) :
    .accepting id ∈ after.marks ↔ .accepting id ∈ held.marks := by
  obtain ⟨marks, same, -, none⟩ := untold.marks
  rw [same, List.mem_append, or_iff_left none]

theorem Told.of_untold (told : held.Told id) (untold : Untold held after id) : after.Told id where
  once := untold.announcements ▸ told.once
  waiting := by
    rw [untold.waiting_iff, untold.announcements]
    exact told.waiting
  fresh := by
    rw [untold.announcements, untold.accepting_iff]
    exact fun fresh => told.fresh (Nat.le_trans untold.next fresh)
  served := by
    rw [untold.live, untold.served, untold.connected]
    exact told.served
  accepted := by
    rw [untold.accepting_iff, untold.live, untold.connected, untold.waiting_iff, untold.announcements]
    exact told.accepted

/-- An event that has neither been accepted nor announced. -/
theorem Told.of_silent (known : id < held.next) (silent : held.announcements id = 0)
    (unaccepted : .accepting id ∉ held.marks) (unserved : held.served id = true → held.connected id = true) :
    held.Told id where
  once := by omega
  waiting := fun _ => silent
  fresh := fun fresh => absurd known (Nat.not_lt.mpr fresh)
  served := fun _ => unserved
  accepted := fun accepted => absurd accepted unaccepted

/-- An event that has been told, and is not going to be again. -/
theorem Told.of_announced (known : id < held.next) (once : held.announcements id = 1) (settled : ¬held.Waiting id)
    (connected : held.connected id = true) : held.Told id where
  once := by omega
  waiting := fun waiting => absurd waiting settled
  fresh := fun fresh => absurd known (Nat.not_lt.mpr fresh)
  served := fun _ _ => connected
  accepted := fun _ _ => ⟨connected, .inr once⟩

theorem Told.unaccepted (told : held.Told id) (live : held.live id = true) (unconnected : held.connected id = false) :
    .accepting id ∉ held.marks := by
  intro accepted
  have connected := (told.accepted accepted live).1
  rw [unconnected] at connected
  cases connected

theorem Untold.trans {middle : Holdings} (first : Untold held middle id) (second : Untold middle after id) :
    Untold held after id := by
  obtain ⟨ms, same, none, unaccepted⟩ := first.marks
  obtain ⟨ms', same', none', unaccepted'⟩ := second.marks
  refine ⟨Nat.le_trans first.next second.next, second.live.trans first.live, second.fd.trans first.fd,
    second.connected.trans first.connected, second.served.trans first.served, second.shaking.trans first.shaking,
    second.dnsEvent.trans first.dnsEvent, ms ++ ms', ?_, ?_, ?_⟩
  · rw [same', same, List.append_assoc]
  · rw [List.countP_append, none, none']
  · rw [List.mem_append]
    exact fun member => member.elim unaccepted unaccepted'

/-- A mark about another event. -/
theorem untold_marked {marks : List Mark}
    (silent : ∀ mark ∈ marks, mark.announces id = false ∧ mark ≠ .accepting id) :
    Untold held (held.marked marks) id := by
  refine ⟨Nat.le_refl _, rfl, rfl, rfl, rfl, rfl, rfl, marks, rfl, ?_, fun accepted => (silent _ accepted).2 rfl⟩
  rw [List.countP_eq_zero]
  intro mark member
  rw [(silent mark member).1]
  exact Bool.false_ne_true

theorem untold_allocated (different : id ≠ held.next) : Untold held (held.allocated fd connected served shaking) id :=
  ⟨Nat.le_succ _, Function.update_of_ne different _ _, Function.update_of_ne different _ _,
    Function.update_of_ne different _ _, Function.update_of_ne different _ _, Function.update_of_ne different _ _,
    Function.update_of_ne different _ _, [], (List.append_nil _).symm, rfl, nofun⟩

theorem untold_adopted (different : id ≠ held.next) : Untold held (held.adopted fd connected served shaking) id :=
  { untold_allocated different with }

theorem Safe.quiet (safe : held.Safe) (owned : after.Owned) (lookedUp : after.LookedUp)
    (untold : ∀ id, Untold held after id) (marks : after.marks = held.marks) : after.Safe :=
  ⟨owned, lookedUp, fun id => (safe.told id).of_untold (untold id), marks ▸ safe.valid⟩

theorem Safe.opens (safe : held.Safe) (closed : held.openFds fd = false) :
    Safe { held with otherFds := Function.update held.otherFds fd true } :=
  safe.quiet (safe.owned.opens closed) safe.lookedUp.opens
    (fun _ => ⟨Nat.le_refl _, rfl, rfl, rfl, rfl, rfl, rfl, [], (List.append_nil _).symm, rfl, nofun⟩) rfl

theorem Safe.shut (safe : held.Safe) (entry : held.events fd = none) (unheld : held.dnsEvents fd = none) :
    (held.shut fd).Safe :=
  safe.quiet (safe.owned.shut entry) (safe.lookedUp.shut unheld)
    (fun _ => ⟨Nat.le_refl _, rfl, rfl, rfl, rfl, rfl, rfl, [], (List.append_nil _).symm, rfl, nofun⟩) rfl

/-- A new event is told nothing yet. -/
theorem Safe.silent (safe : held.Safe) : held.announcements held.next = 0 ∧ .accepting held.next ∉ held.marks :=
  (safe.told held.next).fresh (Nat.le_refl _)

theorem Safe.adopted (safe : held.Safe) (spare : held.Spare fd) :
    (held.adopted fd connected false shaking).Safe where
  owned := safe.owned.adopted spare
  lookedUp := (safe.lookedUp.allocated safe.owned).entered spare.unheld
  told := by
    intro id
    by_cases new : id = held.next
    · subst new
      obtain ⟨silent, unaccepted⟩ := safe.silent
      refine .of_silent (Nat.lt_succ_self _) silent unaccepted fun served => ?_
      exact absurd ((Function.update_self _ _ _).symm.trans served) Bool.false_ne_true
    · exact (safe.told id).of_untold (untold_adopted new)
  valid := safe.valid

theorem Safe.allocated (safe : held.Safe) : (held.allocated (-1) false false shaking).Safe where
  owned := safe.owned.allocated (by decide)
  lookedUp := safe.lookedUp.allocated safe.owned
  told := by
    intro id
    by_cases new : id = held.next
    · subst new
      obtain ⟨silent, unaccepted⟩ := safe.silent
      refine .of_silent (Nat.lt_succ_self _) silent unaccepted fun served => ?_
      exact absurd ((Function.update_self _ _ _).symm.trans served) Bool.false_ne_true
    · exact (safe.told id).of_untold (untold_allocated new)
  valid := safe.valid

/-- Marks that hold no use of what is freed. -/
theorem valid_marked {marks : List Mark} (valid : ∀ valid, .uses valid ∈ held.marks → valid = true)
    (new : ∀ valid, .uses valid ∈ marks → valid = true) :
    ∀ valid, .uses valid ∈ (held.marked marks).marks → valid = true := by
  intro use member
  rcases List.mem_append.mp member with old | added
  · exact valid use old
  · exact new use added

theorem LookedUp.marked (lookedUp : held.LookedUp) {marks : List Mark} : (held.marked marks).LookedUp :=
  lookedUp.keeps rfl rfl rfl (fun _ _ linked => linked.opened) (fun _ _ live back => ⟨live, back, rfl, rfl⟩)
    fun _ _ live back => ⟨live, back⟩

theorem Safe.accepts (safe : held.Safe) (spare : held.Spare fd) :
    ((held.adopted fd true false false).marked [.accepting held.next, .accepted held.next]).Safe where
  owned := { safe.owned.adopted spare with }
  lookedUp := ((safe.lookedUp.allocated safe.owned).entered spare.unheld).marked
  told := by
    intro id
    by_cases new : id = held.next
    · subst new
      have announced : ((held.adopted fd true false false).marked
          [.accepting held.next, .accepted held.next]).announcements held.next = 1 := by
        rw [announcements_marked]
        have silent : (held.adopted fd true false false).announcements held.next = 0 := safe.silent.1
        rw [silent]
        simp [Mark.announces]
      refine .of_announced (Nat.lt_succ_self _) announced ?_ (Function.update_self _ _ _)
      rintro ⟨-, waiting⟩
      simp [Holdings.marked, Holdings.adopted, Holdings.allocated, entered] at waiting
    · refine (safe.told id).of_untold ((untold_adopted new).trans (untold_marked ?_))
      simp [Mark.announces, Ne.symm new]
  valid := valid_marked safe.valid (by simp)

theorem Safe.acceptsTls (safe : held.Safe) (spare : held.Spare fd) :
    ((held.adopted fd true true true).marked [.accepting held.next]).Safe where
  owned := { safe.owned.adopted spare with }
  lookedUp := ((safe.lookedUp.allocated safe.owned).entered spare.unheld).marked
  told := by
    intro id
    by_cases new : id = held.next
    · subst new
      have silent : ((held.adopted fd true true true).marked [.accepting held.next]).announcements held.next = 0 := by
        rw [announcements_marked]
        exact safe.silent.1
      have connected : ((held.adopted fd true true true).marked [.accepting held.next]).connected held.next = true :=
        Function.update_self _ _ _
      have waiting : ((held.adopted fd true true true).marked [.accepting held.next]).Waiting held.next :=
        ⟨Function.update_self _ _ _, .inr (.inr ⟨Function.update_self _ _ _, Function.update_self _ _ _⟩)⟩
      exact ⟨by omega, fun _ => silent, fun fresh => absurd (Nat.lt_succ_self _) (Nat.not_lt.mpr fresh),
        fun _ _ => connected, fun _ _ => ⟨connected, .inl waiting⟩⟩
    · refine (safe.told id).of_untold ((untold_adopted new).trans (untold_marked ?_))
      simp [Mark.announces, Ne.symm new]
  valid := valid_marked safe.valid (by simp)

theorem Safe.attached (safe : held.Safe) {ssl : Bool} (spare : held.Spare fd) (live : held.live id = true)
    (unbound : held.fd id = -1) (unconnected : held.connected id = false) (alone : held.dnsEvent id = none)
    (silent : held.announcements id = 0) : (held.attached id fd ssl).Safe where
  owned := { safe.owned with }
  lookedUp := safe.lookedUp.attached spare live unbound unconnected alone
  told := by
    intro found
    by_cases same : found = id
    · subst same
      exact .of_silent (safe.owned.fresh found live) silent ((safe.told found).unaccepted live unconnected)
        ((safe.told found).served live)
    · exact (safe.told found).of_untold ⟨Nat.le_refl _, rfl, rfl, rfl, rfl, rfl, Function.update_of_ne same _ _, [],
        (List.append_nil _).symm, rfl, nofun⟩
  valid := safe.valid

/-- An event whose name is looked up is told nothing before. -/
theorem Safe.unanswered (safe : held.Safe) (linked : held.Linked dns id) : held.announcements id = 0 := by
  apply (safe.told id).waiting
  exact ⟨linked.live, .inr (.inl (Option.isSome_of_eq_some linked.back))⟩

theorem Safe.detached (safe : held.Safe) (linked : held.Linked dns id) : (held.detached dns id).Safe where
  owned := safe.owned.detached linked
  lookedUp := safe.lookedUp.detached linked
  told := by
    intro found
    by_cases same : found = id
    · subst same
      exact .of_silent (safe.owned.fresh found linked.live) (safe.unanswered linked)
        ((safe.told found).unaccepted linked.live linked.unconnected) ((safe.told found).served linked.live)
    · exact (safe.told found).of_untold ⟨Nat.le_refl _, rfl, rfl, rfl, rfl, rfl, Function.update_of_ne same _ _, [],
        (List.append_nil _).symm, rfl, nofun⟩
  valid := safe.valid

theorem Safe.bound (safe : held.Safe) (spare : held.Spare fd) (live : held.live id = true) (unbound : held.fd id = -1)
    (unconnected : held.connected id = false) (alone : held.dnsEvent id = none) (silent : held.announcements id = 0) :
    (held.bound id fd).Safe where
  owned := safe.owned.bound spare live unbound
  lookedUp := safe.lookedUp.bound spare alone
  told := by
    intro found
    by_cases same : found = id
    · subst same
      exact .of_silent (safe.owned.fresh found live) silent ((safe.told found).unaccepted live unconnected)
        ((safe.told found).served live)
    · exact (safe.told found).of_untold ⟨Nat.le_refl _, rfl, Function.update_of_ne same _ _, rfl, rfl, rfl, rfl, [],
        (List.append_nil _).symm, rfl, nofun⟩
  valid := safe.valid

theorem Safe.strays (safe : held.Safe) : Safe { held with events := Function.update held.events (-1) (some id) } :=
  safe.quiet safe.owned.strays (safe.lookedUp.keeps rfl rfl rfl (fun _ _ linked => linked.opened)
    (fun _ _ live back => ⟨live, back, rfl, rfl⟩) fun _ _ live back => ⟨live, back⟩)
    (fun _ => ⟨Nat.le_refl _, rfl, rfl, rfl, rfl, rfl, rfl, [], (List.append_nil _).symm, rfl, nofun⟩) rfl

theorem Safe.released (safe : held.Safe) (live : held.live id = true) (alone : held.dnsEvent id = none) :
    (held.released id).Safe where
  owned := safe.owned.released live
  lookedUp := safe.lookedUp.released alone
  told := by
    intro found
    by_cases same : found = id
    · subst same
      have dead : (held.released found).live found = false := Function.update_self _ _ _
      have unalive (alive : (held.released found).live found = true) : False := by
        rw [dead] at alive
        cases alive
      exact ⟨(safe.told found).once, fun waiting => (unalive waiting.1).elim, (safe.told found).fresh,
        fun alive => (unalive alive).elim, fun _ alive => (unalive alive).elim⟩
    · exact (safe.told found).of_untold ⟨Nat.le_refl _, Function.update_of_ne same _ _,
        Function.update_of_ne same _ _, rfl, rfl, rfl, rfl, [], (List.append_nil _).symm, rfl, nofun⟩
  valid := safe.valid

theorem Safe.reshakes (safe : held.Safe) (unserved : held.served id = false) :
    Safe { held with shaking := Function.update held.shaking id shaking } where
  owned := { safe.owned with }
  lookedUp := safe.lookedUp.keeps rfl rfl rfl (fun _ _ linked => linked.opened)
    (fun _ _ live back => ⟨live, back, rfl, rfl⟩) fun _ _ live back => ⟨live, back⟩
  told := by
    intro found
    have same : Holdings.Waiting { held with shaking := Function.update held.shaking id shaking } found ↔
        held.Waiting found := by
      simp only [Waiting, Function.update_apply]
      grind
    have told := safe.told found
    refine ⟨told.once, fun waiting => told.waiting (same.mp waiting), told.fresh, told.served,
      fun accepted live => ?_⟩
    obtain ⟨connected, waiting | announced⟩ := told.accepted accepted live
    · exact ⟨connected, .inl (same.mpr waiting)⟩
    · exact ⟨connected, .inr announced⟩
  valid := safe.valid

/-- An announcement of an event that was waiting for it. -/
theorem Told.announced {mark : Mark} (known : id < after.next) (silent : held.announcements id = 0)
    (marks : after.marks = held.marks ++ [mark]) (announces : mark.announces id = true) (settled : ¬after.Waiting id)
    (connected : after.connected id = true) : after.Told id := by
  refine .of_announced known ?_ settled connected
  rw [announcements, marks, List.countP_append, List.countP_singleton, if_pos announces]
  exact congrArg (· + 1) silent

theorem Safe.shaken (safe : held.Safe) (live : held.live id = true) (served : held.served id = true)
    (shaking : held.shaking id = true) :
    ({ held with shaking := Function.update held.shaking id false }.marked [.accepted id]).Safe where
  owned := { safe.owned with }
  lookedUp := safe.lookedUp.keeps rfl rfl rfl (fun _ _ linked => linked.opened)
    (fun _ _ live back => ⟨live, back, rfl, rfl⟩) fun _ _ live back => ⟨live, back⟩
  told := by
    intro found
    have connected := (safe.told id).served live served
    by_cases same : found = id
    · subst same
      refine .announced (safe.owned.fresh found live)
        ((safe.told found).waiting ⟨live, .inr (.inr ⟨served, shaking⟩)⟩) rfl (decide_eq_true rfl) ?_ connected
      rintro ⟨-, ⟨unconnected, -⟩ | pending | ⟨-, again⟩⟩
      · exact Bool.false_ne_true (unconnected.symm.trans connected)
      · obtain ⟨dns, back⟩ := Option.isSome_iff_exists.mp pending
        exact Bool.false_ne_true ((safe.lookedUp.back live back).unconnected.symm.trans connected)
      · exact Bool.false_ne_true ((Function.update_self _ _ _).symm.trans again)
    · exact (safe.told found).of_untold ⟨Nat.le_refl _, rfl, rfl, rfl, rfl, Function.update_of_ne same _ _, rfl,
        [.accepted id], rfl, by simp [Mark.announces, Ne.symm same], by simp⟩
  valid := valid_marked safe.valid (by simp)

theorem Safe.connects (safe : held.Safe) {told : Bool} (live : held.live id = true) (bound : 0 < held.fd id)
    (unconnected : held.connected id = false) :
    ({ held with connected := Function.update held.connected id true }.marked
      (if told then [.connected id] else [])).Safe where
  owned := { safe.owned with }
  lookedUp := (safe.lookedUp.connects bound).marked
  told := by
    intro found
    have silent := (safe.told id).waiting ⟨live, .inl ⟨unconnected, bound⟩⟩
    by_cases same : found = id
    · subst same
      have connected : Function.update held.connected found true found = true := Function.update_self _ _ _
      cases told with
      | false =>
        refine .of_silent (safe.owned.fresh found live) ?_ ?_ fun _ => connected
        · exact (announcements_marked _).trans silent
        · rw [if_neg Bool.false_ne_true, marked, List.append_nil]
          exact (safe.told found).unaccepted live unconnected
      | true =>
        refine .announced (safe.owned.fresh found live) silent rfl (decide_eq_true rfl) ?_ connected
        rintro ⟨-, ⟨unconnected, -⟩ | pending | ⟨served, -⟩⟩
        · exact Bool.false_ne_true (unconnected.symm.trans connected)
        · obtain ⟨dns, back⟩ := Option.isSome_iff_exists.mp pending
          have unbound := (safe.lookedUp.back live back).unbound
          omega
        · exact Bool.false_ne_true (unconnected.symm.trans ((safe.told found).served live served))
    · refine (safe.told found).of_untold ⟨Nat.le_refl _, rfl, rfl, Function.update_of_ne same _ _, rfl, rfl, rfl,
        _, rfl, ?_, ?_⟩
      · cases told <;> simp [Mark.announces, Ne.symm same]
      · cases told <;> simp
  valid := valid_marked safe.valid (by cases told <;> simp)

theorem Safe.fails (safe : held.Safe) (live : held.live id = true) (unbound : held.fd id = -1)
    (unconnected : held.connected id = false) (alone : held.dnsEvent id = none) (silent : held.announcements id = 0) :
    (held.marked [.failed id]).Safe where
  owned := { safe.owned with }
  lookedUp := safe.lookedUp.marked
  told := by
    intro found
    by_cases same : found = id
    · subst same
      have told := safe.told found
      have once : (held.marked [.failed found]).announcements found = 1 := by
        have announces : Mark.announces found (.failed found) = true := decide_eq_true rfl
        rw [announcements_marked, silent, List.countP_singleton, if_pos announces]
      have known := safe.owned.fresh found live
      refine ⟨Nat.le_of_eq once, ?_, fun fresh => absurd known (Nat.not_lt.mpr fresh), told.served, ?_⟩
      · rintro ⟨-, ⟨-, bound⟩ | pending | ⟨served, -⟩⟩
        · have same : held.fd found = -1 := unbound
          simp only [marked] at bound
          omega
        · rw [show (held.marked [.failed found]).dnsEvent found = none from alone] at pending
          cases pending
        · exact (Bool.false_ne_true (unconnected.symm.trans (told.served live served))).elim
      · intro accepted
        refine absurd ?_ (told.unaccepted live unconnected)
        simpa [marked] using accepted
    · refine (safe.told found).of_untold (untold_marked ?_)
      simp [Mark.announces, Ne.symm same]
  valid := valid_marked safe.valid (by simp)

theorem Safe.uses (safe : held.Safe) : (held.marked [.uses true]).Safe where
  owned := { safe.owned with }
  lookedUp := safe.lookedUp.marked
  told := by
    intro found
    refine (safe.told found).of_untold (untold_marked ?_)
    simp [Mark.announces]
  valid := valid_marked safe.valid (by simp)

theorem Step.safe (step : Step held after) (safe : held.Safe) : after.Safe := by
  cases step with
  | opens _ closed _ => exact safe.opens closed
  | shuts entry unheld => exact safe.shut entry unheld
  | adopts connected shaking spare => exact safe.adopted spare
  | accepts spare => exact safe.accepts spare
  | acceptsTls spare => exact safe.acceptsTls spare
  | allocates shaking => exact safe.allocated
  | attaches ssl spare live unbound unconnected alone silent =>
    exact safe.attached spare live unbound unconnected alone silent
  | detaches linked => exact safe.detached linked
  | binds spare live unbound unconnected alone silent => exact safe.bound spare live unbound unconnected alone silent
  | strays id => exact safe.strays
  | releases live alone => exact safe.released live alone
  | reshakes shaking unserved => exact safe.reshakes unserved
  | shaken live served shaking => exact safe.shaken live served shaking
  | connects told live bound unconnected => exact safe.connects live bound unconnected
  | fails live unbound unconnected alone silent => exact safe.fails live unbound unconnected alone silent
  | uses => exact safe.uses

theorem Steps.trans {middle : Holdings} (first : Steps held middle) (second : Steps middle after) :
    Steps held after := Relation.ReflTransGen.trans first second

theorem Steps.safe (steps : Steps held after) (safe : held.Safe) : after.Safe := by
  induction steps with
  | refl => exact safe
  | tail _ step ih => exact step.safe ih

/-- The event is allocated or was, and has no descriptor that is none. -/
structure Natural (held : Holdings) (id : Nat) : Prop where
  known : id < held.next
  natural : 0 ≤ held.fd id

theorem Step.natural (step : Step held after) (natural : held.Natural id) : after.Natural id := by
  obtain ⟨known, natural⟩ := natural
  have older : id ≠ held.next := Nat.ne_of_lt known
  cases step with
  | opens _ closed _ => exact ⟨known, natural⟩
  | shuts entry unheld => exact ⟨known, natural⟩
  | adopts | accepts | acceptsTls | allocates =>
    exact ⟨Nat.lt_succ_of_lt known, natural.trans (Function.update_of_ne older _ _).ge⟩
  | attaches ssl spare live unbound unconnected alone silent => exact ⟨known, natural⟩
  | detaches linked => exact ⟨known, natural⟩
  | @binds other fd spare live unbound unconnected alone silent =>
    have positive := spare.positive
    refine ⟨known, ?_⟩
    simp only [bound, entered, Function.update_apply]
    split
    · exact Int.le_of_lt positive
    · exact natural
  | strays id => exact ⟨known, natural⟩
  | @releases other live alone =>
    refine ⟨known, ?_⟩
    simp only [released, Function.update_apply]
    split
    · subst_vars
      exact le_min natural (le_refl _)
    · exact natural
  | reshakes shaking unserved => exact ⟨known, natural⟩
  | shaken live served shaking => exact ⟨known, natural⟩
  | connects told live bound unconnected => exact ⟨known, natural⟩
  | fails live unbound unconnected alone silent => exact ⟨known, natural⟩
  | uses => exact ⟨known, natural⟩

theorem Steps.natural (steps : Steps held after) (natural : held.Natural id) : after.Natural id := by
  induction steps with
  | refl => exact natural
  | tail _ step ih => exact step.natural ih

end Devent.Holdings
