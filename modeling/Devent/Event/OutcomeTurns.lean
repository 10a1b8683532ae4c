import Devent.Event.Connect
import Mathlib.Data.List.Basic

/-! The turns of an attempt behind its reply: which of them tell the event callback of the connection. -/
namespace Devent

namespace Connection

/-- The TCP connection comes about. -/
def succeeds : Connection → Bool
  | .established => true
  | .inProgress succeeds => succeeds
  | .refused => false

end Connection

/-- The query is packed and sent. -/
def queried : List Query → Bool
  | [] => false
  | .unpackable :: _ => false
  | .serverMissing :: rest => queried rest
  | .unsent :: rest => queried rest
  | .sent :: _ => true

/-- The first turn that tells of the connection or ends it tells of it. -/
def announced : List Turn → Bool
  | [] => false
  | .writable :: _ => true
  | .readable last :: rest => decide last.More && announced rest

/-- The event gets a socket of its own that the kernel takes. -/
def Lookup.reaches (lookup : Lookup) (fd : Int) : Bool :=
  decide (fd = -1) && lookup.socket.isSome && lookup.nonblocking && decide (lookup.connection ≠ .refused) &&
    lookup.registered

namespace Attempt

/-- Some call of the attempt fails. -/
def fails (script : Attempt) (fd : Int) : Bool :=
  !queried script.queries || script.lookup.fails || (decide (fd = -1) && script.lookup.socket.isNone) ||
    !script.lookup.nonblocking || !script.lookup.connection.succeeds || !script.lookup.registered

/-- Either the lookup fails, or the event gets its own socket, everything behind succeeds
and the write notification comes before the end of the stream. -/
def reports (script : Attempt) (fd : Int) : Bool :=
  !queried script.queries || script.lookup.fails ||
    (script.lookup.reaches fd && script.lookup.connection.succeeds && announced script.turns)

end Attempt

namespace DnsDocket

variable {docket before after : DnsDocket} {id : Nat} {fd dnsFd : Int} {lookup : Lookup} {script : Attempt}

/-- The DEVENT_CONNECT notifications of an event. -/
def connects (docket : DnsDocket) (id : Nat) : List Notice :=
  docket.notices.filter fun notice => notice.event == id && notice.connect

/-- No table has an entry for a descriptor that is closed. -/
def Clean (docket : DnsDocket) : Prop :=
  ∀ fd, (docket.events fd).isSome = true ∨ (docket.dnsEvents fd).isSome = true → docket.openFds fd = true

/-- What an attempt may start from. -/
structure Sound (docket : DnsDocket) : Prop where
  clean : docket.Clean
  known : ∀ fd id, docket.events fd = some id → id < docket.next
  noticed : ∀ notice ∈ docket.notices, notice.event < docket.next
  opened : ∀ fd, docket.openFds fd = true → 0 ≤ fd
  watched : ∀ fd, docket.filters fd = true → docket.openFds fd = true

/-- Exactly one truthful notification, and no stale entry behind a failure. -/
structure Truthful (script : Attempt) (fd : Int) (id : Nat) (after : DnsDocket) : Prop where
  once : (after.connects id).length = 1
  honest : ∀ notice ∈ after.connects id, notice.error = false → script.lookup.connection.succeeds = true
  failed : script.fails fd = true → (∀ notice ∈ after.connects id, notice.error = true) ∧ after.Clean

theorem connects_notify {other : Nat} {connect error : Bool} (quiet : other ≠ id ∨ connect = false) :
    (docket.notify other connect error).connects id = docket.connects id := by
  rw [notify]
  split
  · have dropped : ([⟨other, connect, error⟩] : List Notice).filter
        (fun notice => notice.event == id && notice.connect) = [] := by
      rw [List.filter_singleton]
      obtain different | rfl := quiet
      · rw [beq_eq_false_iff_ne.mpr different]
        rfl
      · rw [Bool.and_false]
        rfl
    rw [connects, List.filter_append, dropped, List.append_nil]
    rfl
  · rfl

theorem connects_told {error : Bool} (told : (docket.heap id).eventCb = true) :
    (docket.notify id true error).connects id = docket.connects id ++ [⟨id, true, error⟩] := by
  rw [notify, if_pos told, connects, List.filter_append, List.filter_singleton, beq_self_eq_true]
  rfl

@[simp] theorem notify_heap (docket : DnsDocket) (id : Nat) (connect error : Bool) :
    (docket.notify id connect error).heap = docket.heap := by
  rw [notify]
  split <;> rfl

@[simp] theorem notify_events (docket : DnsDocket) (id : Nat) (connect error : Bool) :
    (docket.notify id connect error).events = docket.events := by
  rw [notify]
  split <;> rfl

@[simp] theorem freeDnsEvent_heap (docket : DnsDocket) (dnsFd : Int) :
    (docket.freeDnsEvent dnsFd).heap = docket.heap := by
  rw [freeDnsEvent]
  split <;> rfl

@[simp] theorem freeDnsEvent_events (docket : DnsDocket) (dnsFd : Int) :
    (docket.freeDnsEvent dnsFd).events = docket.events := by
  rw [freeDnsEvent]
  split <;> rfl

@[simp] theorem freeDnsEvent_connects (docket : DnsDocket) (dnsFd : Int) (id : Nat) :
    (docket.freeDnsEvent dnsFd).connects id = docket.connects id := by
  rw [freeDnsEvent]
  split <;> rfl

theorem notify_clean {connect error : Bool} (clean : docket.Clean) :
    (docket.notify id connect error).Clean := by
  rw [notify]
  split <;> exact clean

/-- The entry goes with the descriptor, which is no event's. -/
theorem freeDnsEvent_clean (clean : docket.Clean) (apart : docket.events dnsFd = none) :
    (docket.freeDnsEvent dnsFd).Clean := by
  rw [freeDnsEvent]
  split
  · intro fd entry
    by_cases same : fd = dnsFd
    · subst same
      simp only [close, Function.update_self, apart, Option.isSome_none, Bool.false_eq_true, or_self] at entry
    · simp only [close, Function.update_of_ne same] at entry ⊢
      exact clean fd entry
  · exact clean

theorem turn_cases {next : Turn} (taken : turn fd docket next = some after) :
    docket.filters fd = true ∧
      (docket.events fd = none ∧ (after = docket ∨ after = docket.close fd) ∨
        ∃ found, docket.events fd = some found ∧ (docket.heap found).live = true ∧
          ((∃ last, next = .readable last ∧ (last.More ∧ after = docket ∨
              ¬last.More ∧ after = docket.closeInternal found)) ∨
            next = .writable ∧ ((docket.heap found).connected = true ∧ after = docket ∨
              (docket.heap found).connected = false ∧ after =
                (docket.store found { docket.heap found with connected := true }).notify found true false))) := by
  rw [turn.eq_def] at taken
  split at taken
  · rename_i delivered
    refine ⟨delivered.1, ?_⟩
    split at taken
    · rename_i gone
      cases taken
      exact .inl ⟨gone, .inr rfl⟩
    · rename_i found there
      simp only at taken
      split at taken
      · cases taken
      · rename_i live
        refine .inr ⟨found, there, Bool.eq_true_of_not_eq_false live, .inr ⟨rfl, ?_⟩⟩
        split at taken
        · rename_i connected
          cases taken
          exact .inl ⟨connected, rfl⟩
        · rename_i connecting
          cases taken
          exact .inr ⟨Bool.eq_false_of_not_eq_true connecting, rfl⟩
    · rename_i gone
      cases taken
      exact .inl ⟨gone, .inl rfl⟩
    · rename_i last found there
      split at taken
      · cases taken
      · rename_i live
        refine .inr ⟨found, there, Bool.eq_true_of_not_eq_false live, .inl ⟨last, rfl, ?_⟩⟩
        split at taken
        · rename_i more
          cases taken
          exact .inl ⟨more, rfl⟩
        · rename_i spent
          cases taken
          exact .inr ⟨spent, rfl⟩
  · cases taken

theorem freeEvent_live (docket : DnsDocket) (id : Nat) : ((docket.freeEvent id).heap id).live = false := by
  simp only [freeEvent]
  split <;> simp only [store, Function.update_self]

theorem freeEvent_heap (docket : DnsDocket) {id other : Nat} (different : other ≠ id) :
    (docket.freeEvent id).heap other = docket.heap other := by
  simp only [freeEvent]
  split <;> exact Function.update_of_ne different ..

theorem freeEvent_events (docket : DnsDocket) (id : Nat) (fd : Int) :
    (docket.freeEvent id).events fd = docket.events fd ∨ (docket.freeEvent id).events fd = none := by
  simp only [freeEvent]
  split
  · simp only [store, close, Function.update_apply]
    split
    · exact .inr rfl
    · exact .inl rfl
  · exact .inl rfl

theorem freeEvent_connects (docket : DnsDocket) (freed id : Nat) :
    (docket.freeEvent freed).connects id = docket.connects id := by
  simp only [freeEvent]
  split <;> rfl

/-- A close tells nothing of the connection, and takes at most an entry away. -/
theorem closeInternal_quiet (docket : DnsDocket) (found id : Nat) :
    (docket.closeInternal found).connects id = docket.connects id ∧
      (∀ other, (docket.closeInternal found).heap other = docket.heap other ∨
        ((docket.closeInternal found).heap other).live = false) ∧
      ∀ fd, (docket.closeInternal found).events fd = docket.events fd ∨
        (docket.closeInternal found).events fd = none := by
  have told : (docket.notify found false false).connects id = docket.connects id := connects_notify (.inr rfl)
  simp only [closeInternal, findEvent]
  split
  · rw [notify_heap, notify_events]
    exact ⟨told, fun _ => .inl rfl, fun _ => .inl rfl⟩
  · rename_i freed _
    refine ⟨(freeEvent_connects _ freed id).trans told, fun other => ?_, fun fd => ?_⟩
    · by_cases same : other = freed
      · rw [same]
        exact .inr (freeEvent_live _ freed)
      · rw [freeEvent_heap _ same, notify_heap]
        exact .inl rfl
    · rw [← notify_events docket found false false]
      exact freeEvent_events _ freed fd

/-- The event is not under the descriptor, or is freed, or has been told. -/
def Quiet (docket : DnsDocket) (id : Nat) (fd : Int) : Prop :=
  docket.events fd = some id → (docket.heap id).live = true → (docket.heap id).connected = true

theorem turn_quiet {next : Turn} (quiet : docket.Quiet id fd) (taken : turn fd docket next = some after) :
    after.Quiet id fd ∧ after.connects id = docket.connects id := by
  obtain ⟨-, ⟨gone, rfl | rfl⟩ | ⟨found, there, live, ⟨last, -, ⟨-, rfl⟩ | ⟨-, rfl⟩⟩ |
    ⟨-, ⟨-, rfl⟩ | ⟨connecting, rfl⟩⟩⟩⟩ := turn_cases taken
  · exact ⟨quiet, rfl⟩
  · exact ⟨quiet, rfl⟩
  · exact ⟨quiet, rfl⟩
  · obtain ⟨connects, heap, events⟩ := closeInternal_quiet docket found id
    refine ⟨fun entry alive => ?_, connects⟩
    obtain same | gone := events fd
    · obtain kept | dead := heap id
      · rw [kept] at alive ⊢
        exact quiet (same.symm.trans entry) alive
      · rw [dead] at alive
        cases alive
    · rw [gone] at entry
      cases entry
  · exact ⟨quiet, rfl⟩
  · have different : found ≠ id := by
      rintro rfl
      rw [quiet there live] at connecting
      cases connecting
    have same :
        Function.update docket.heap found { docket.heap found with connected := true } id = docket.heap id :=
      Function.update_of_ne different.symm ..
    refine ⟨fun entry alive => ?_, connects_notify (.inl different)⟩
    rw [notify_events] at entry
    rw [notify_heap] at alive ⊢
    exact (congrArg Peer.connected same).trans (quiet entry ((congrArg Peer.live same).symm.trans alive))

theorem turns_quiet {turns : List Turn} (quiet : docket.Quiet id fd)
    (taken : turns.foldlM (turn fd) docket = some after) : after.connects id = docket.connects id := by
  induction turns generalizing docket with
  | nil =>
    cases taken
    rfl
  | cons next rest ih =>
    rw [List.foldlM_cons] at taken
    obtain ⟨middle, first, taken⟩ := Option.bind_eq_some_iff.mp taken
    obtain ⟨still, same⟩ := turn_quiet quiet first
    exact (ih still taken).trans same

theorem turns_unwatched {turns : List Turn} (unwatched : docket.filters fd = false)
    (taken : turns.foldlM (turn fd) docket = some after) : after = docket := by
  cases turns with
  | nil => exact (Option.some.inj taken).symm
  | cons next rest =>
    rw [List.foldlM_cons] at taken
    obtain ⟨middle, first, -⟩ := Option.bind_eq_some_iff.mp taken
    have watched := (turn_cases first).1
    rw [unwatched] at watched
    cases watched

/-- The event is in the table and not yet told of its connection. -/
structure Waiting (docket : DnsDocket) (id : Nat) (fd : Int) : Prop where
  entry : docket.events fd = some id
  peer : docket.heap id = ⟨fd, false, true, true⟩

theorem turns_waiting {turns : List Turn} (waiting : docket.Waiting id fd)
    (taken : turns.foldlM (turn fd) docket = some after) :
    after.connects id = docket.connects id ++ if announced turns then [⟨id, true, false⟩] else [] := by
  induction turns generalizing docket with
  | nil =>
    cases taken
    exact (List.append_nil _).symm
  | cons next rest ih =>
    rw [List.foldlM_cons] at taken
    obtain ⟨middle, first, later⟩ := Option.bind_eq_some_iff.mp taken
    obtain ⟨-, ⟨gone, -⟩ | ⟨found, there, -, cases⟩⟩ := turn_cases first
    · rw [waiting.entry] at gone
      cases gone
    · obtain rfl : id = found := Option.some.inj (waiting.entry.symm.trans there)
      obtain ⟨last, rfl, ⟨more, rfl⟩ | ⟨spent, rfl⟩⟩ | ⟨rfl, ⟨connected, -⟩ | ⟨-, rfl⟩⟩ := cases
      · rw [announced, decide_eq_true more, Bool.true_and]
        exact ih waiting later
      · -- freed without a word
        have dead : ((docket.closeInternal id).heap id).live = false := by
          have found : (docket.notify id false false).findEvent (docket.heap id).fd = some id := by
            rw [waiting.peer, findEvent, notify_events]
            exact waiting.entry
          simp only [closeInternal, found]
          exact freeEvent_live _ id
        have quiet : (docket.closeInternal id).Quiet id fd := by
          intro _ alive
          rw [dead] at alive
          cases alive
        rw [announced, decide_eq_false spent, Bool.false_and, turns_quiet quiet later]
        exact (closeInternal_quiet docket id id).1.trans (List.append_nil _).symm
      · rw [waiting.peer] at connected
        cases connected
      · have heard : ((docket.store id { docket.heap id with connected := true }).heap id) =
          { docket.heap id with connected := true } := Function.update_self ..
        have quiet :
            ((docket.store id { docket.heap id with connected := true }).notify id true false).Quiet id fd := by
          intro _ _
          rw [notify_heap, heard]
        rw [announced, if_pos rfl, turns_quiet quiet later]
        exact connects_told (by rw [heard, waiting.peer])

end DnsDocket

end Devent
