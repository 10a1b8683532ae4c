import Devent.Event.OutcomeTurns

/-! What the event callback of a hostname connect is told. The tables lose the entries whose
descriptors are closed, and the callback hears once how the attempt went, where no call
behind the lookup fails. -/
namespace Devent.DnsDocket

variable {docket before after : DnsDocket} {id : Nat} {fd dnsFd : Int} {lookup : Lookup} {script : Attempt}

/-- An attempt that has just begun. -/
structure Begun (before : DnsDocket) (fd dnsFd : Int) (after : DnsDocket) : Prop where
  fresh : 0 ≤ dnsFd ∧ before.openFds dnsFd = false
  peer : after.heap before.next = ⟨fd, false, true, true⟩
  next : after.next = before.next + 1
  events : after.events = before.events
  dnsEvents : after.dnsEvents = Function.update before.dnsEvents dnsFd (some before.next)
  openFds : after.openFds = Function.update before.openFds dnsFd true
  filters : after.filters = Function.update before.filters dnsFd true
  notices : after.notices = before.notices

theorem connectHostname_begun (connected : docket.connectHostname fd dnsFd = some after) :
    Begun docket fd dnsFd after := by
  simp only [connectHostname, opens, Option.bind_eq_bind] at connected
  obtain ⟨middle, opened, connected⟩ := Option.bind_eq_some_iff.mp connected
  split at opened
  · rename_i fresh
    cases opened
    cases connected
    exact ⟨fresh, Function.update_self .., rfl, rfl, rfl, rfl, rfl, rfl⟩
  · cases opened

theorem Begun.connects (begun : Begun before fd dnsFd docket) (sound : before.Sound) :
    docket.connects before.next = [] := by
  rw [DnsDocket.connects, begun.notices, List.filter_eq_nil_iff]
  intro notice member told
  rw [Bool.and_eq_true, beq_iff_eq] at told
  have known := sound.noticed notice member
  omega

theorem Begun.clean (begun : Begun before fd dnsFd docket) (sound : before.Sound) : docket.Clean := by
  intro fd entry
  rw [begun.openFds, Function.update_apply]
  split
  · rfl
  · rename_i other
    rw [begun.events, begun.dnsEvents, Function.update_of_ne other] at entry
    exact sound.clean fd entry

/-- A lookup that gives up tells so, and takes its entry away. -/
theorem Begun.failLookup (begun : Begun before fd dnsFd docket) (sound : before.Sound) :
    Truthful script fd before.next (docket.failLookup dnsFd before.next) := by
  have told : ((docket.freeDnsEvent dnsFd).heap before.next).eventCb = true := by
    rw [freeDnsEvent_heap, begun.peer]
  have connects : (docket.failLookup dnsFd before.next).connects before.next = [⟨before.next, true, true⟩] := by
    rw [DnsDocket.failLookup, connects_told told, freeDnsEvent_connects, begun.connects sound, List.nil_append]
  have apart : docket.events dnsFd = none := by
    rw [begun.events]
    by_contra entry
    have opened := sound.clean dnsFd (.inl (Option.isSome_iff_ne_none.mpr entry))
    rw [begun.fresh.2] at opened
    cases opened
  constructor
  · rw [connects]
    rfl
  · rw [connects]
    intro notice member quiet
    rw [List.mem_singleton.mp member] at quiet
    cases quiet
  · intro _
    rw [connects]
    refine ⟨fun notice member => ?_, notify_clean (freeDnsEvent_clean (begun.clean sound) apart)⟩
    rw [List.mem_singleton.mp member]

/-- The event has no turns to come. -/
def Silent (docket : DnsDocket) (id : Nat) (fd : Int) : Prop :=
  docket.filters fd = false ∨ docket.events fd ≠ some id

theorem turns_silent {turns : List Turn} (silent : docket.Silent id fd)
    (taken : turns.foldlM (turn fd) docket = some after) : after.connects id = docket.connects id := by
  obtain unwatched | absent := silent
  · rw [turns_unwatched unwatched taken]
  · exact turns_quiet (fun entry => absurd entry absent) taken

/-- What a connection on some descriptor leaves alone: the event, and the other entries and
filters. -/
structure Frame (before : DnsDocket) (id : Nat) (fd : Int) (after : DnsDocket) : Prop where
  heap : after.heap id = before.heap id
  connects : after.connects id = before.connects id
  events : ∀ other, after.events other = some id → before.events other = some id
  filters : ∀ other, other ≠ fd → after.filters other = before.filters other

theorem ensureEvent_frame (known : id < docket.next) (fd : Int) :
    Frame docket id fd (docket.ensureEvent fd) := by
  rw [ensureEvent]
  split
  · refine ⟨Function.update_of_ne (by omega) .., rfl, fun other entry => ?_, fun _ _ => rfl⟩
    have created : ((docket.newEvent ⟨fd, false, false, true⟩).heap docket.next).fd = fd := by
      simp only [newEvent, store, Function.update_self]
    simp only [addEvent, created, Function.update_apply] at entry
    split at entry
    · have same := Option.some.inj entry
      omega
    · exact entry
  · exact ⟨rfl, rfl, fun _ entry => entry, fun _ _ => rfl⟩

theorem connectFd_frame (known : id < docket.next) (fd : Int) (lookup : Lookup) :
    Frame docket id fd (docket.connectFd fd lookup) := by
  have ensured := ensureEvent_frame known fd
  rw [connectFd]
  split
  · exact ⟨rfl, rfl, fun _ entry => entry, fun _ _ => rfl⟩
  · split
    · exact ⟨rfl, rfl, fun _ entry => entry, fun other different => Function.update_of_ne different ..⟩
    · split
      · refine ⟨ensured.heap, ensured.connects, ensured.events, fun other different => ?_⟩
        exact (Function.update_of_ne different ..).trans (ensured.filters other different)
      · exact ensured

/-- The socket that was opened for the event itself. -/
theorem connectFd_own (entry : docket.events fd = some id) (unwatched : docket.filters fd = false)
    (lookup : Lookup) :
    (docket.connectFd fd lookup).heap = docket.heap ∧ (docket.connectFd fd lookup).events = docket.events ∧
      (docket.connectFd fd lookup).connects id = docket.connects id ∧
      (docket.connectFd fd lookup).filters fd =
        (lookup.nonblocking && decide (lookup.connection ≠ .refused) && lookup.registered) := by
  have ensured : docket.ensureEvent fd = docket := by
    rw [ensureEvent, findEvent, entry]
  rw [connectFd, ensured]
  split
  · rename_i blocking
    rw [blocking]
    exact ⟨rfl, rfl, rfl, unwatched⟩
  · rename_i nonblocking
    rw [Bool.eq_true_of_not_eq_false nonblocking, Bool.true_and]
    split
    · rename_i refused
      rw [decide_eq_false (not_not.mpr refused), Bool.false_and]
      exact ⟨rfl, rfl, rfl, Function.update_self ..⟩
    · rename_i accepted
      rw [decide_eq_true accepted, Bool.true_and]
      split
      · rename_i registered
        rw [registered]
        exact ⟨rfl, rfl, rfl, Function.update_self ..⟩
      · rename_i unregistered
        rw [Bool.eq_false_of_not_eq_true unregistered]
        exact ⟨rfl, rfl, rfl, unwatched⟩

/-- The event has a descriptor of its own, or -1, and is in the table under it. -/
structure Owned (before : DnsDocket) (id : Nat) (fd : Int) (after : DnsDocket) : Prop where
  peer : after.heap id = { before.heap id with fd := fd }
  next : after.next = before.next
  connects : after.connects id = before.connects id
  events : after.events fd = some id
  filters : after.filters = before.filters

/-- The kernel hands out a socket, which is not open, or none. -/
theorem opens_cases {socket : Option Int} (opened : docket.opens socket = some after) :
    (∀ fd, socket = some fd → 0 ≤ fd ∧ docket.openFds fd = false) ∧
      ∃ openFds, after = { docket with openFds := openFds } := by
  cases socket with
  | none =>
    cases opened
    exact ⟨nofun, _, rfl⟩
  | some fd =>
    rw [opens] at opened
    split at opened
    · rename_i fresh
      cases opened
      refine ⟨fun other same => ?_, _, rfl⟩
      cases same
      exact fresh
    · cases opened

theorem owned_own (docket : DnsDocket) (openFds : Int → Bool) (id : Nat) (fd : Int) :
    Owned docket id fd
      (({ docket with openFds := openFds }.store id { docket.heap id with fd := fd }).addEvent id) := by
  have stored : ({ docket with openFds := openFds }.store id { docket.heap id with fd := fd }).heap id =
    { docket.heap id with fd := fd } := Function.update_self ..
  refine ⟨stored, rfl, rfl, ?_, rfl⟩
  rw [addEvent, stored]
  exact Function.update_self ..

theorem Owned.reopen (owned : Owned before id fd docket) (openFds : Int → Bool) :
    Owned before id fd { docket with openFds := openFds } :=
  ⟨owned.peer, owned.next, owned.connects, owned.events, owned.filters⟩

/-- The descriptor of the event, where it has none, comes from `socket`. -/
def giveSocket (docket : DnsDocket) (id : Nat) (lookup : Lookup) : Option DnsDocket :=
  if (docket.heap id).fd = -1 then do
    let docket ← docket.opens lookup.socket
    some ((docket.store id { docket.heap id with fd := lookup.socket.getD (-1) }).addEvent id)
  else some docket

theorem dnsRead_eq (docket : DnsDocket) (dnsFd : Int) (id : Nat) (lookup : Lookup) :
    docket.dnsRead dnsFd id lookup =
      if lookup.fails then some (docket.failLookup dnsFd id)
      else do
        let docket ← docket.giveSocket id lookup
        let docket ← docket.connectInternal (docket.heap id).fd lookup
        return docket.freeDnsEvent dnsFd := by
  rw [dnsRead]
  split
  · rename_i short
    rw [if_pos (by simp only [Lookup.fails, short, decide_true, Bool.true_or])]
  · rename_i received
    split
    · rename_i parsed
      rw [if_pos (by simp only [Lookup.fails, parsed, Bool.not_false, Bool.or_true, Bool.true_or])]
    · rename_i parsed
      split
      · rename_i firstIp
        rw [if_pos (by simp only [Lookup.fails, firstIp, Bool.not_false, Bool.or_true])]
      · rename_i firstIp
        have going : ¬lookup.fails = true := by
          simp only [Lookup.fails, received, Bool.eq_true_of_not_eq_false parsed,
            Bool.eq_true_of_not_eq_false firstIp]
          decide
        rw [if_neg going, giveSocket]
        split
        · cases docket.opens lookup.socket <;> rfl
        · rfl

/-- The ways of a lookup that goes on: with the caller's descriptor, with a socket of its
own, or without one, when `new_fd` may still open another. -/
theorem dnsRead_cases (going : lookup.fails = false) (read : docket.dnsRead dnsFd id lookup = some after) :
    ∃ middle, after = middle.freeDnsEvent dnsFd ∧
      ((docket.heap id).fd ≠ -1 ∧ middle = docket.connectFd (docket.heap id).fd lookup ∨
        (docket.heap id).fd = -1 ∧
          ((∃ socket owned, lookup.socket = some socket ∧ 0 ≤ socket ∧ docket.openFds socket = false ∧
              Owned docket id socket owned ∧ middle = owned.connectFd socket lookup) ∨
            lookup.socket = none ∧ ∃ owned, Owned docket id (-1) owned ∧
              (middle = owned ∨ ∃ newFd, 0 ≤ newFd ∧ middle = owned.connectFd newFd lookup))) := by
  rw [dnsRead_eq, going] at read
  obtain ⟨given, gives, read⟩ := Option.bind_eq_some_iff.mp read
  obtain ⟨middle, connected, freed⟩ := Option.bind_eq_some_iff.mp read
  refine ⟨middle, (Option.some.inj freed).symm, ?_⟩
  rw [giveSocket] at gives
  split at gives
  · rename_i unset
    obtain ⟨opened, opens, gives⟩ := Option.bind_eq_some_iff.mp gives
    obtain ⟨fresh, openFds, rfl⟩ := opens_cases opens
    cases gives
    have owned := owned_own docket openFds id (lookup.socket.getD (-1))
    refine .inr ⟨unset, ?_⟩
    rw [connectInternal, owned.peer] at connected
    cases socket : lookup.socket with
    | some fd =>
      rw [socket, Option.getD_some] at owned connected
      have own : fd ≠ -1 := by
        have nonneg := (fresh fd socket).1
        omega
      rw [if_neg own] at connected
      obtain ⟨nonneg, closed⟩ := fresh fd socket
      exact .inl ⟨fd, _, rfl, nonneg, closed, owned, (Option.some.inj connected).symm⟩
    | none =>
      rw [socket, Option.getD_none] at owned connected
      rw [if_pos rfl] at connected
      obtain ⟨again, opens, connected⟩ := Option.bind_eq_some_iff.mp connected
      obtain ⟨fresh, second, rfl⟩ := opens_cases opens
      refine .inr ⟨rfl, _, owned.reopen second, ?_⟩
      split at connected
      · exact .inl (Option.some.inj connected).symm
      · rename_i newFd there
        exact .inr ⟨newFd, (fresh newFd there).1, (Option.some.inj connected).symm⟩
  · rename_i caller
    cases gives
    rw [connectInternal, if_neg caller] at connected
    exact .inl ⟨caller, (Option.some.inj connected).symm⟩

theorem freeDnsEvent_filters (docket : DnsDocket) (different : fd ≠ dnsFd) :
    (docket.freeDnsEvent dnsFd).filters fd = docket.filters fd := by
  rw [freeDnsEvent]
  split
  · exact Function.update_of_ne different ..
  · rfl

/-- What is closed is not watched. -/
theorem Begun.unwatched {other : Int} (begun : Begun before fd dnsFd docket) (sound : before.Sound)
    (closed : docket.openFds other = false) : other ≠ dnsFd ∧ docket.filters other = false := by
  rw [begun.openFds, Function.update_apply] at closed
  rw [begun.filters, Function.update_apply]
  split at closed
  · cases closed
  · rename_i different
    rw [if_neg different]
    refine ⟨different, Bool.eq_false_of_not_eq_true fun watched => ?_⟩
    rw [sound.watched other watched] at closed
    cases closed

theorem Begun.negative (begun : Begun before fd dnsFd docket) (sound : before.Sound) :
    docket.openFds (-1) = false := by
  have apart : (-1 : Int) ≠ dnsFd := by
    have nonneg := begun.fresh.1
    omega
  rw [begun.openFds, Function.update_of_ne apart]
  refine Bool.eq_false_of_not_eq_true fun opened => ?_
  have nonneg := sound.opened (-1) opened
  omega

/-- A lookup that goes on: the event waits for the kernel if its own socket has been taken,
and hears nothing otherwise. -/
theorem Begun.read (begun : Begun before fd dnsFd docket) (sound : before.Sound) (going : lookup.fails = false)
    (read : docket.dnsRead dnsFd before.next lookup = some after) :
    after.connects before.next = [] ∧
      if lookup.reaches fd then after.Waiting before.next (after.heap before.next).fd
      else after.Silent before.next (after.heap before.next).fd := by
  have known : before.next < docket.next := by
    rw [begun.next]
    omega
  obtain ⟨middle, rfl, ⟨given, rfl⟩ | ⟨unset, ⟨socket, owned, there, nonneg, closed, own, rfl⟩ |
    ⟨gone, owned, own, rest⟩⟩⟩ := dnsRead_cases going read
  · rw [begun.peer] at given
    have frame := connectFd_frame known (docket.heap before.next).fd lookup
    have unreached : lookup.reaches fd = false := by
      rw [Lookup.reaches, decide_eq_false given]
      rfl
    rw [unreached, freeDnsEvent_connects, frame.connects]
    refine ⟨begun.connects sound, .inr fun entry => ?_⟩
    rw [freeDnsEvent_events] at entry
    have former := frame.events _ entry
    rw [begun.events] at former
    exact Nat.lt_irrefl _ (sound.known _ _ former)
  · obtain ⟨different, unwatched⟩ := begun.unwatched sound closed
    rw [← own.filters] at unwatched
    obtain ⟨heap, events, connects, filters⟩ := connectFd_own own.events unwatched lookup
    have peer : ((owned.connectFd socket lookup).freeDnsEvent dnsFd).heap before.next =
        ⟨socket, false, true, true⟩ := by
      rw [freeDnsEvent_heap, heap, own.peer, begun.peer]
    have reaches : lookup.reaches fd =
        (lookup.nonblocking && decide (lookup.connection ≠ .refused) && lookup.registered) := by
      rw [begun.peer] at unset
      rw [Lookup.reaches, decide_eq_true unset, there, Option.isSome_some, Bool.true_and, Bool.true_and]
    rw [peer, reaches, freeDnsEvent_connects, connects, own.connects]
    refine ⟨begun.connects sound, ?_⟩
    split
    · refine ⟨?_, peer⟩
      rw [freeDnsEvent_events, events]
      exact own.events
    · rename_i missed
      refine .inl ?_
      rw [freeDnsEvent_filters _ different, filters]
      exact Bool.eq_false_of_not_eq_true missed
  · obtain ⟨different, unwatched⟩ := begun.unwatched sound (begun.negative sound)
    rw [← own.filters] at unwatched
    have unreached : lookup.reaches fd = false := by
      rw [Lookup.reaches, gone, Option.isSome_none, Bool.and_false]
      rfl
    have frame : middle.heap before.next = owned.heap before.next ∧
        middle.connects before.next = owned.connects before.next ∧
        middle.filters (-1) = owned.filters (-1) := by
      obtain rfl | ⟨newFd, nonneg, rfl⟩ := rest
      · exact ⟨rfl, rfl, rfl⟩
      · have frame := connectFd_frame (own.next.symm ▸ known) newFd lookup
        exact ⟨frame.heap, frame.connects, frame.filters (-1) (by omega)⟩
    obtain ⟨heap, connects, filters⟩ := frame
    rw [unreached, freeDnsEvent_heap, heap, own.peer, freeDnsEvent_connects, connects, own.connects]
    refine ⟨begun.connects sound, .inl ?_⟩
    rw [freeDnsEvent_filters _ different, filters]
    exact unwatched

theorem dnsWrites_cases {queries : List Query} {sent : Bool}
    (written : docket.dnsWrites dnsFd id queries = some (after, sent)) :
    queried queries = true ∧ sent = true ∧ after = docket ∨
      queried queries = false ∧ sent = false ∧ after = docket.failLookup dnsFd id := by
  induction queries with
  | nil => cases written
  | cons query rest ih =>
    cases query with
    | unpackable =>
      cases written
      exact .inr ⟨rfl, rfl, rfl⟩
    | serverMissing => exact ih written
    | unsent => exact ih written
    | sent =>
      cases written
      exact .inl ⟨rfl, rfl, rfl⟩

theorem dnsRead_fails (failed : lookup.fails = true) (read : docket.dnsRead dnsFd id lookup = some after) :
    after = docket.failLookup dnsFd id := by
  rw [dnsRead_eq, if_pos failed] at read
  exact (Option.some.inj read).symm

theorem attempt_cases (attempted : docket.attempt fd script = some after) :
    ∃ begun, Begun docket fd script.dnsFd begun ∧
      ((queried script.queries = false ∨ script.lookup.fails = true) ∧
          after = begun.failLookup script.dnsFd docket.next ∨
        queried script.queries = true ∧ script.lookup.fails = false ∧ ∃ read,
          begun.dnsRead script.dnsFd docket.next script.lookup = some read ∧
          script.turns.foldlM (turn (read.heap docket.next).fd) read = some after) := by
  simp only [attempt, Option.bind_eq_bind] at attempted
  obtain ⟨begun, connected, writing⟩ := Option.bind_eq_some_iff.mp attempted
  obtain ⟨⟨written, sent⟩, queries, reading⟩ := Option.bind_eq_some_iff.mp writing
  refine ⟨begun, connectHostname_begun connected, ?_⟩
  obtain ⟨asked, rfl, rfl⟩ | ⟨unasked, rfl, rfl⟩ := dnsWrites_cases queries
  · obtain ⟨read, looked, turning⟩ := Option.bind_eq_some_iff.mp ((if_pos rfl).symm.trans reading)
    split at turning
    · rename_i failed
      cases turning
      exact .inl ⟨.inr failed, dnsRead_fails failed looked⟩
    · rename_i going
      obtain ⟨turned, turns, settled⟩ := Option.bind_eq_some_iff.mp turning
      refine .inr ⟨asked, Bool.eq_false_of_not_eq_true going, read, looked, ?_⟩
      split at settled
      · cases settled
      · cases settled
        exact turns
  · exact .inl ⟨.inl unasked, (Option.some.inj reading).symm⟩

theorem not_truthful_of_silence (silence : after.connects id = []) : ¬Truthful script fd id after := by
  intro truthful
  have once := truthful.once
  rw [silence] at once
  cases once

/-- Behind a socket that the kernel has taken, only the connection itself can still fail. -/
theorem fails_of_reaches (asked : queried script.queries = true) (going : script.lookup.fails = false)
    (reaches : script.lookup.reaches fd = true) : script.fails fd = !script.lookup.connection.succeeds := by
  simp only [Lookup.reaches, Bool.and_eq_true, decide_eq_true_eq] at reaches
  obtain ⟨⟨⟨⟨unset, socket⟩, nonblocking⟩, -⟩, registered⟩ := reaches
  have there : script.lookup.socket.isNone = false := by
    rw [← Option.not_isSome, socket]
    rfl
  rw [Attempt.fails, asked, going, there, nonblocking, registered]
  simp only [Bool.not_true, Bool.and_false, Bool.or_false, Bool.false_or]

/-- Exactly one truthful outcome: when the lookup fails, or when the event gets its own
socket, the kernel takes it, the connection comes about and is the first thing to be told. -/
theorem attempt_truthful_iff (docket : DnsDocket) (sound : docket.Sound) (fd : Int) (script : Attempt)
    (after : DnsDocket) (attempted : docket.attempt fd script = some after) :
    Truthful script fd docket.next after ↔ script.reports fd = true := by
  obtain ⟨begun, begins, ⟨failed, rfl⟩ | ⟨asked, going, read, looked, turns⟩⟩ := attempt_cases attempted
  · have reports : script.reports fd = true := by
      rw [Attempt.reports]
      obtain unasked | failed := failed
      · rw [unasked]
        rfl
      · rw [failed, Bool.or_true]
        rfl
    exact iff_of_true (begins.failLookup sound) reports
  · obtain ⟨quiet, heard⟩ := begins.read sound going looked
    rw [Attempt.reports, asked, going, Bool.not_true, Bool.false_or, Bool.false_or]
    split at heard
    · rename_i reaches
      have told := turns_waiting heard turns
      rw [quiet, List.nil_append] at told
      rw [reaches, Bool.true_and, Bool.and_eq_true]
      split at told
      · rename_i announces
        rw [and_iff_left announces]
        refine ⟨fun truthful => ?_, fun succeeds => ⟨?_, fun _ _ _ => succeeds, fun fails => ?_⟩⟩
        · exact truthful.honest ⟨docket.next, true, false⟩ (told ▸ List.mem_singleton_self _) rfl
        · rw [told]
          rfl
        · rw [fails_of_reaches asked going reaches, succeeds] at fails
          cases fails
      · rename_i unannounced
        exact iff_of_false (not_truthful_of_silence told) fun both => unannounced both.2
    · rename_i missed
      rw [Bool.eq_false_of_not_eq_true missed]
      refine iff_of_false (not_truthful_of_silence ?_) nofun
      rw [turns_silent heard turns, quiet]

/-- A docket with nothing opened yet. -/
def fresh : DnsDocket :=
  ⟨fun _ => ⟨0, false, false, false⟩, 0, fun _ => none, fun _ => none, fun _ => false, fun _ => false, []⟩

theorem fresh_sound : fresh.Sound where
  clean := by
    rintro fd (entry | entry) <;> cases entry
  known := nofun
  noticed := nofun
  opened := nofun
  watched := nofun

/-- A response with an address, to which a socket connects. -/
def resolved (connection : Connection) (turns : List Turn) : Attempt :=
  ⟨5, [.sent], ⟨45, true, true, some 6, none, true, connection, true⟩, turns⟩

theorem resolved_truthful : ∃ after, fresh.attempt (-1) (resolved (.inProgress true) [.writable]) = some after ∧
    Truthful (resolved (.inProgress true) [.writable]) (-1) 0 after :=
  ⟨_, rfl, (attempt_truthful_iff fresh fresh_sound (-1) (resolved (.inProgress true) [.writable]) _ rfl).mpr rfl⟩

/-- A connection that is refused at once. -/
theorem refused_untold :
    ¬∀ docket : DnsDocket, docket.Sound → ∀ (fd : Int) (script : Attempt) (after : DnsDocket),
    docket.attempt fd script = some after → Truthful script fd docket.next after := by
  intro claim
  have truthful := claim fresh fresh_sound (-1) (resolved .refused []) _ rfl
  exact absurd truthful.once (by decide)

end Devent.DnsDocket
