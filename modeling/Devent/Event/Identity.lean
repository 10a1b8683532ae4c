import Devent.Event.DocketCalls

/-! Which event a call is about. Behind every callback `devent_close_internal` and
`docket_on_event_read` know their event only by its descriptor, which the callback may have
closed and the kernel handed out again. -/
namespace Devent

/-- What the call does itself, it does to the event, and while that is allocated. -/
def Entry.About (id : Nat) : Entry → Prop
  | .own touch => touch.event = id ∧ touch.live = true
  | .freed _ => True

namespace Docket

variable {docket before middle after : Docket} {id : Nat} {fd : Int} {acts : List Act} {present : Bool}

/-- The event itself, allocated, or nobody is in the table under the descriptor. -/
def ownedBy (docket : Docket) (id : Nat) (fd : Int) : Bool :=
  (docket.findEvent fd).all fun found => found == id && docket.live id

/-- The event callback of a close leaves the descriptor to its event or to nobody. -/
def closeKeeps (docket : Docket) (onEvent : List Act) (id : Nat) : Bool :=
  ((docket.closing id).callback (docket.event id).eventCb onEvent id).all fun after =>
    after.ownedBy id (docket.heap id).fd

/-- The same along the sends. -/
def sendKeeps (onEvent : List Act) : List SendResult → Nat → Docket → Bool
  | results, id, docket =>
    if (docket.event id).ev.write = true ∧ 0 < (docket.event id).outLength then
      match results with
      | [] => true
      | result :: rest =>
        if result.wr = -1 then
          if result.again then sendKeeps onEvent rest id
              (docket.modify id fun e => (e.setWrite false).updateEvents)
          else docket.closeKeeps onEvent id
        else if result.wr = 0 then docket.closeKeeps onEvent id
        else sendKeeps onEvent rest id (docket.modify id fun e => { e with outBuffer := e.outBuffer.tail })
    else true

def flushKeeps (docket : Docket) (script : FlushActs) (id : Nat) : Bool :=
  !(docket.event id).ev.write || sendKeeps script.onEvent script.results id (docket.touch .use id)

/-- The event callback of a failed handshake; the listener's keeps the event. -/
def handshakeKeeps (docket : Docket) (handshake : HandshakeActs) (id : Nat) : Bool :=
  match handshake with
  | .pending => true
  | .failed onEvent =>
    !((docket.event id).ssl && (docket.event id).sslHandshaking) || docket.closeKeeps onEvent id
  | .done _ => (docket.doSslHandshake handshake id).all fun (after, _) => after.live id

/-- The read callbacks, one after the other. -/
def readsKeep (fd : Int) : List (ReadResult × List Act) → Nat → Docket → Bool
  | [], _, _ => true
  | (result, onRead) :: rest, id, docket =>
    decide (result.len ≤ 0) || ((docket.touch .use id).received result.len.toNat onRead id).all fun after =>
      after.ownedBy id fd && ((after.findEvent fd).isNone || !(after.event id).ev.read ||
        readsKeep fd rest id (after.touch .use id))

def endKeeps (fd : Int) (docket : Docket) (final onEvent : List Act) (id : Nat) : Bool :=
  let event := docket.event id
  (docket.callback (decide (0 < event.inBuffer) && event.readCb) final id).all fun after =>
    after.ownedBy id fd && ((after.findEvent fd).isNone || after.closeKeeps onEvent id)

def finishKeeps (fd : Int) (docket : Docket) (script : ReadActs) (result : ReadResult) (id : Nat) : Bool :=
  if result.More then (docket.starting true id).flushKeeps script.flush id
  else endKeeps fd docket script.final script.flush.onEvent id

/-- The reads with what follows them. -/
def readyKeeps (fd : Int) (docket : Docket) (script : ReadActs) (id : Nat) : Bool :=
  readsKeep fd script.reads id docket && (readLoop fd script.reads id docket).all fun (after, last) =>
    last.all fun (_, result) => finishKeeps fd after script result id

/-- Whenever a callback that `docket_on_event_read` has to look behind returns, the
descriptor is the event's own or nobody's. -/
def readKeeps (docket : Docket) (script : ReadActs) (id : Nat) : Bool :=
  let started := docket.starting false id
  !(started.event id).ev.read || (started.handshakeKeeps script.handshake id &&
    (started.doSslHandshake script.handshake id).all fun (after, ready) =>
      !ready || readyKeeps (docket.heap id).fd after script id)

/-- Everything the call does itself, it does to the event, and while that is allocated. -/
def AboutOnly (id : Nat) (before after : Docket) : Prop := ∀ entry ∈ news before after, entry.About id

theorem aboutOnly_trans_iff (first : Evolves before middle) (second : Evolves middle after) :
    AboutOnly id before after ↔ AboutOnly id before middle ∧ AboutOnly id middle after := by
  rw [AboutOnly, first.news_trans second]
  exact List.forall_mem_append

theorem aboutOnly_refl (id : Nat) (docket : Docket) : AboutOnly id docket docket := by
  intro entry member
  rw [news, List.drop_length] at member
  cases member

theorem aboutOnly_touch_iff {kind : TouchKind} {other : Nat} :
    AboutOnly id docket (docket.touch kind other) ↔ other = id ∧ docket.live other = true := by
  have entries : news docket (docket.touch kind other) = [.own ⟨kind, other, docket.live other⟩] := news_eq rfl
  rw [AboutOnly, entries, List.forall_mem_singleton]
  rfl

theorem aboutOnly_modify (id : Nat) (docket : Docket) (other : Nat) (f : DocketEvent → DocketEvent) :
    AboutOnly id docket (docket.modify other f) := by
  intro entry member
  have none : news docket (docket.modify other f) = [] := news_eq (List.append_nil _).symm
  rw [none] at member
  cases member

theorem aboutOnly_performAll (sound : before.Sound) (performed : before.performAll acts = some after) :
    AboutOnly id before after := by
  induction acts generalizing before with
  | nil =>
    cases performed
    exact aboutOnly_refl id _
  | cons act rest ih =>
    rw [performAll, List.foldlM_cons] at performed
    obtain ⟨middle, first, rest⟩ := Option.bind_eq_some_iff.mp performed
    have one := perform_evolves sound first
    refine (aboutOnly_trans_iff one (performAll_evolves one.sound rest)).mpr ⟨?_, ih one.sound rest⟩
    intro entry member
    cases act with
    | free freed =>
      simp only [perform] at first
      split at first
      · cases first
        have entries : news before ((before.freeEvent freed).record (.freed freed)) = [.freed freed] := by
          apply news_eq
          simp only [record, log_freeEvent]
        rw [entries] at member
        rw [List.mem_singleton.mp member]
        trivial
      · cases first
    | create fd event | connectHostname event | set other event =>
      simp only [perform] at first
      split at first
      · cases first
        have none : ∀ log : List Entry, log.drop log.length = [] := fun log => List.drop_length
        have member : entry ∈ before.log.drop before.log.length := member
        rw [none] at member
        cases member
      · cases first

theorem aboutOnly_callback (sound : before.Sound) (live : before.live id = true)
    (called : before.callback present acts id = some after) : AboutOnly id before after := by
  rw [callback] at called
  split at called
  · have touched := touch_evolves sound .call (by decide) id
    refine (aboutOnly_trans_iff touched (performAll_evolves touched.sound called)).mpr ?_
    exact ⟨aboutOnly_touch_iff.mpr ⟨rfl, live⟩, aboutOnly_performAll touched.sound called⟩
  · cases called
    exact aboutOnly_refl id before

theorem aboutOnly_closing (sound : docket.Sound) (live : docket.live id = true) :
    AboutOnly id docket (docket.closing id) := by
  have touched := touch_evolves sound .use (by decide) id
  have silenced := modify_evolves (f := fun event => { event with ev := deventNone }) touched.sound
    (fun _ => rfl) id
  refine (aboutOnly_trans_iff touched silenced).mpr ⟨aboutOnly_touch_iff.mpr ⟨rfl, live⟩, ?_⟩
  exact aboutOnly_modify id _ id _

theorem live_closing (docket : Docket) (id other : Nat) : (docket.closing id).live other = docket.live other :=
  live_modify (f := fun event => { event with ev := deventNone }) (fun _ => rfl) (docket.touch .use id) id other

theorem ownedBy_none (gone : docket.findEvent fd = none) : docket.ownedBy id fd = true := by
  rw [ownedBy, gone]
  rfl

theorem ownedBy_some_iff {found : Nat} (there : docket.findEvent fd = some found) :
    docket.ownedBy id fd = true ↔ found = id ∧ docket.live found = true := by
  rw [ownedBy, there, Option.all_some, Bool.and_eq_true, beq_iff_eq]
  constructor
  · rintro ⟨rfl, live⟩
    exact ⟨rfl, live⟩
  · rintro ⟨rfl, live⟩
    exact ⟨rfl, live⟩

theorem aboutOnly_close_iff {found : Nat} : AboutOnly id docket ((docket.touch .close found).freeEvent found) ↔
    found = id ∧ docket.live found = true := by
  have entries : news docket ((docket.touch .close found).freeEvent found) =
      [.own ⟨.close, found, docket.live found⟩] := by
    apply news_eq
    simp only [close_eq, record, log_freeEvent]
  rw [AboutOnly, entries, List.forall_mem_singleton]
  rfl

theorem closeInternal_about_iff {onEvent : List Act} (sound : docket.Sound) (live : docket.live id = true)
    (closed : docket.closeInternal onEvent id = some after) :
    AboutOnly id docket after ↔ docket.closeKeeps onEvent id = true := by
  obtain ⟨middle, called, rest⟩ := closeInternal_cases closed
  have first := closing_evolves sound id
  have both := first.trans (callback_evolves first.sound called)
  have about : AboutOnly id docket middle := by
    refine (aboutOnly_trans_iff first (callback_evolves first.sound called)).mpr
      ⟨aboutOnly_closing sound live, ?_⟩
    exact aboutOnly_callback first.sound ((live_closing docket id id).trans live) called
  rw [closeKeeps, called, Option.all_some]
  obtain ⟨gone, rfl⟩ | ⟨found, there, rfl⟩ := rest
  · exact iff_of_true about (ownedBy_none gone)
  · have known := both.sound.known _ _ there
    rw [aboutOnly_trans_iff both (close_evolves both.sound known), aboutOnly_close_iff, ownedBy_some_iff there]
    exact and_iff_right about

theorem aboutOnly_modify_iff {f : DocketEvent → DocketEvent} {other : Nat} (sound : docket.Sound)
    (keeps : ∀ event, (f event).isOpen = event.isOpen) (later : Evolves (docket.modify other f) after) :
    AboutOnly id docket after ↔ AboutOnly id (docket.modify other f) after := by
  rw [aboutOnly_trans_iff (modify_evolves sound keeps other) later]
  exact and_iff_right (aboutOnly_modify id docket other f)

theorem aboutOnly_used_iff (sound : docket.Sound) (kind : TouchKind) (kept : kind ≠ .close)
    (live : docket.live id = true) (later : Evolves (docket.touch kind id) after) :
    AboutOnly id docket after ↔ AboutOnly id (docket.touch kind id) after := by
  rw [aboutOnly_trans_iff (touch_evolves sound kind kept id) later]
  exact and_iff_right (aboutOnly_touch_iff.mpr ⟨rfl, live⟩)

theorem Sends.about_iff {onEvent : List Act} {results : List SendResult} {going : Bool}
    (sends : Sends onEvent id results docket after going) (sound : docket.Sound)
    (live : docket.live id = true) :
    AboutOnly id docket after ↔ sendKeeps onEvent results id docket = true := by
  induction sends with
  | @done results docket stops =>
    have keeps : sendKeeps onEvent results id docket = true := by
      cases results <;> rw [sendKeeps, if_neg stops]
    exact iff_of_true (aboutOnly_refl id _) keeps
  | @refused _ _ docket _ _ sends failed again later ih =>
    have step := modify_evolves sound keeps_disarm id
    rw [sendKeeps, if_pos sends, if_pos failed, if_pos again,
      aboutOnly_modify_iff sound keeps_disarm (later.evolves step.sound).1]
    exact ih step.sound ((live_modify keeps_disarm docket id id).trans live)
  | broken sends broken closes =>
    rw [sendKeeps, if_pos sends]
    obtain ⟨failed, broken⟩ | nothing := broken
    · rw [if_pos failed, if_neg broken]
      exact closeInternal_about_iff sound live closes
    · rw [if_neg (by rw [nothing]; decide), if_pos nothing]
      exact closeInternal_about_iff sound live closes
  | @sent _ _ docket _ _ sends accepted something later ih =>
    have step := modify_evolves sound keeps_tail id
    rw [sendKeeps, if_pos sends, if_neg accepted, if_neg something,
      aboutOnly_modify_iff sound keeps_tail (later.evolves step.sound).1]
    exact ih step.sound ((live_modify keeps_tail docket id id).trans live)

theorem writeData_about_iff {script : FlushActs} (sound : docket.Sound) (live : docket.live id = true)
    (written : docket.writeData script id = some after) :
    AboutOnly id docket after ↔ docket.flushKeeps script id = true := by
  have used := touch_evolves sound .use (by decide) id
  obtain ⟨middle, going, sent, rest⟩ := writeData_cases written
  have first : Evolves docket middle ∧ (going = true → middle.live id = true) ∧
      (AboutOnly id docket middle ↔ docket.flushKeeps script id = true) := by
    rw [flushKeeps]
    obtain ⟨armed, sent⟩ | ⟨disarmed, rfl, rfl⟩ := sent
    · obtain ⟨sends, lives⟩ := (sendLoop_sends sent).evolves used.sound
      rw [armed, Bool.not_true, Bool.false_or, aboutOnly_used_iff sound .use (by decide) live sends]
      exact ⟨used.trans sends, fun still => (lives still).trans live, (sendLoop_sends sent).about_iff used.sound live⟩
    · have arms := modify_evolves used.sound keeps_arm id
      rw [disarmed, aboutOnly_used_iff sound .use (by decide) live arms]
      refine ⟨used.trans arms, fun _ => ?_, iff_of_true (aboutOnly_modify id _ id _) rfl⟩
      exact (live_modify keeps_arm _ id id).trans live
  obtain ⟨evolves, lives, about⟩ := first
  obtain ⟨-, rfl⟩ | ⟨rfl, called⟩ := rest
  · exact about
  · rw [aboutOnly_trans_iff evolves (callback_evolves evolves.sound called), about]
    exact and_iff_left (aboutOnly_callback evolves.sound (lives rfl) called)

/-- A handshake that goes on is about the event; whether the listener keeps the event shows
in what follows. -/
theorem doSslHandshake_about {handshake : HandshakeActs} {ready : Bool} (sound : docket.Sound)
    (live : docket.live id = true) (shaken : docket.doSslHandshake handshake id = some (after, ready)) :
    ready = true ∧ AboutOnly id docket after ∧ docket.handshakeKeeps handshake id = after.live id ∨
      ready = false ∧ (AboutOnly id docket after ↔ docket.handshakeKeeps handshake id = true) := by
  obtain ⟨ssl, shaking, ⟨rfl, rfl, rfl⟩ | ⟨onEvent, rfl, rfl, closes⟩ | ⟨listener, rfl, rfl, called⟩⟩ |
    ⟨idle, rfl, rfl⟩ := doSslHandshake_cases shaken
  · exact .inr ⟨rfl, iff_of_true (aboutOnly_refl id _) rfl⟩
  · refine .inr ⟨rfl, ?_⟩
    rw [handshakeKeeps, ssl, shaking, Bool.and_self, Bool.not_true, Bool.false_or]
    exact closeInternal_about_iff sound live closes
  · refine .inl ⟨rfl, ?_, ?_⟩
    · have first := modify_evolves sound keeps_shaken id
      rw [aboutOnly_modify_iff sound keeps_shaken (callback_evolves first.sound called)]
      exact aboutOnly_callback first.sound ((live_modify keeps_shaken docket id id).trans live) called
    · rw [handshakeKeeps, shaken]
      rfl
  · refine .inl ⟨rfl, aboutOnly_refl id _, ?_⟩
    cases handshake with
    | pending => exact live.symm
    | failed onEvent =>
      rw [handshakeKeeps, idle, live]
      rfl
    | done listener =>
      rw [handshakeKeeps, shaken]
      rfl

theorem received_about {len : Nat} {onRead : List Act} (sound : docket.Sound) (live : docket.live id = true)
    (data : docket.received len onRead id = some after) : AboutOnly id docket after := by
  rw [received] at data
  split at data
  · cases data
    exact aboutOnly_refl id _
  · have first := touch_evolves sound .append (by decide) id
    have added := modify_evolves first.sound (keeps_append len) id
    have called := callback_evolves added.sound data
    rw [aboutOnly_used_iff sound .append (by decide) live (added.trans called),
      aboutOnly_modify_iff first.sound (keeps_append len) called]
    exact aboutOnly_callback added.sound ((live_modify (keeps_append len) _ id id).trans live) data

/-- The reads are about the event as long as its callbacks leave the descriptor to it. -/
theorem readLoop_about {reads : List (ReadResult × List Act)} {last : Option (Nat × ReadResult)}
    (sound : docket.Sound) (live : docket.live id = true)
    (looped : readLoop fd reads id docket = some (after, last)) :
    (AboutOnly id docket after ↔ readsKeep fd reads id docket = true) ∧
      (readsKeep fd reads id docket = true → ∀ found result, last = some (found, result) →
        found = id ∧ after.live id = true) := by
  induction reads generalizing docket with
  | nil => cases looped
  | cons read rest ih =>
    have used := touch_evolves sound .use (by decide) id
    obtain ⟨ended, rfl, rfl⟩ | ⟨ongoing, middle, data, rest⟩ := readLoop_cases looped
    · have keeps : readsKeep fd (read :: rest) id docket = true := by
        rw [readsKeep, decide_eq_true ended, Bool.true_or]
      refine ⟨iff_of_true (aboutOnly_touch_iff.mpr ⟨rfl, live⟩) keeps, fun _ found result same => ?_⟩
      cases same
      exact ⟨rfl, live⟩
    · have received := received_evolves used.sound data
      have first := used.trans received
      have about : AboutOnly id docket middle :=
        (aboutOnly_used_iff sound .use (by decide) live received).mpr (received_about used.sound live data)
      simp only [readsKeep, decide_eq_false ongoing, Bool.false_or, data, Option.all_some]
      obtain ⟨gone, rfl, rfl⟩ | ⟨found, there, rest⟩ := rest
      · rw [ownedBy_none gone, gone, Option.isNone_none, Bool.true_or, Bool.true_or, Bool.true_and]
        exact ⟨iff_of_true about rfl, nofun⟩
      · have again := touch_evolves first.sound .use (by decide) found
        rw [there, Option.isNone_some, Bool.false_or, Bool.and_eq_true, ownedBy_some_iff there]
        obtain ⟨reading, continued⟩ | ⟨paused, rfl, rfl⟩ := rest
        · have later := readLoop_evolves again.sound continued
          rw [aboutOnly_trans_iff first (again.trans later), aboutOnly_trans_iff again later,
            aboutOnly_touch_iff, and_iff_right about]
          by_cases owned : found = id ∧ middle.live found = true
          · obtain ⟨rfl, alive⟩ := owned
            rw [reading, Bool.not_true, Bool.false_or]
            obtain ⟨iff, kept⟩ := ih again.sound alive continued
            exact ⟨and_congr_right fun _ => iff, fun keeps => kept keeps.2⟩
          · exact ⟨iff_of_false (fun both => owned both.1) fun both => owned both.1,
              fun both => absurd both.1 owned⟩
        · rw [aboutOnly_trans_iff first again, aboutOnly_touch_iff, and_iff_right about]
          by_cases owned : found = id ∧ middle.live found = true
          · obtain ⟨rfl, alive⟩ := owned
            rw [paused, Bool.not_false, Bool.true_or]
            refine ⟨iff_of_true ⟨rfl, alive⟩ ⟨⟨rfl, alive⟩, rfl⟩, fun _ other result same => ?_⟩
            cases same
            exact ⟨rfl, alive⟩
          · exact ⟨iff_of_false owned fun both => owned both.1, fun both => absurd both.1 owned⟩

theorem closeInternal_uses {onEvent : List Act} {other : Nat} (sound : docket.Sound)
    (closed : docket.closeInternal onEvent other = some after) (about : AboutOnly id docket after) :
    other = id ∧ docket.live other = true := by
  obtain ⟨middle, called, rest⟩ := closeInternal_cases closed
  have used := touch_evolves sound .use (by decide) other
  have silenced := modify_evolves (f := fun event => { event with ev := deventNone }) used.sound
    (fun _ => rfl) other
  have heard := silenced.trans (callback_evolves silenced.sound called)
  have later : Evolves (docket.touch .use other) after := by
    obtain ⟨-, rfl⟩ | ⟨found, there, rfl⟩ := rest
    · exact heard
    · exact heard.trans (close_evolves heard.sound (heard.sound.known _ _ there))
  exact aboutOnly_touch_iff.mp ((aboutOnly_trans_iff used later).mp about).1

theorem endOfStream_about_iff {final onEvent : List Act} (sound : docket.Sound) (live : docket.live id = true)
    (ended : endOfStream fd docket final onEvent id = some after) :
    AboutOnly id docket after ↔ endKeeps fd docket final onEvent id = true := by
  obtain ⟨middle, called, rest⟩ := endOfStream_cases ended
  have first := callback_evolves sound called
  have about := aboutOnly_callback sound live called
  rw [endKeeps, called, Option.all_some]
  obtain ⟨gone, rfl⟩ | ⟨found, there, closed⟩ := rest
  · rw [ownedBy_none gone, gone, Option.isNone_none, Bool.true_or]
    exact iff_of_true about rfl
  · rw [there, Option.isNone_some, Bool.false_or, Bool.and_eq_true, ownedBy_some_iff there,
      aboutOnly_trans_iff first (closeInternal_evolves first.sound closed), and_iff_right about]
    constructor
    · intro about
      obtain ⟨rfl, alive⟩ := closeInternal_uses first.sound closed about
      exact ⟨⟨rfl, alive⟩, (closeInternal_about_iff first.sound alive closed).mp about⟩
    · rintro ⟨⟨rfl, alive⟩, keeps⟩
      exact (closeInternal_about_iff first.sound alive closed).mpr keeps

theorem live_starting (docket : Docket) (write : Bool) (id other : Nat) :
    (docket.starting write id).live other = docket.live other :=
  live_modify (keeps_setWrite write) (docket.touch .use id) id other

theorem aboutOnly_starting_iff {write : Bool} (sound : docket.Sound) (live : docket.live id = true)
    (later : Evolves (docket.starting write id) after) :
    AboutOnly id docket after ↔ AboutOnly id (docket.starting write id) after := by
  have used := touch_evolves sound .use (by decide) id
  have written := modify_evolves used.sound (keeps_setWrite write) id
  rw [aboutOnly_used_iff sound .use (by decide) live (written.trans later)]
  exact aboutOnly_modify_iff used.sound (keeps_setWrite write) later

theorem readLoop_uses {reads : List (ReadResult × List Act)} {last : Option (Nat × ReadResult)}
    (sound : docket.Sound) (looped : readLoop fd reads id docket = some (after, last))
    (about : AboutOnly id docket after) : docket.live id = true := by
  cases reads with
  | nil => cases looped
  | cons read rest =>
    have used := touch_evolves sound .use (by decide) id
    have later : Evolves (docket.touch .use id) after := by
      obtain ⟨-, rfl, -⟩ | ⟨-, middle, data, ⟨-, rfl, -⟩ | ⟨found, -, ⟨-, again⟩ | ⟨-, rfl, -⟩⟩⟩ :=
        readLoop_cases looped
      · exact .refl used.sound
      · exact received_evolves used.sound data
      · have first := received_evolves used.sound data
        have both := first.trans (touch_evolves first.sound .use (by decide) found)
        exact both.trans (readLoop_evolves both.sound again)
      · have first := received_evolves used.sound data
        exact first.trans (touch_evolves first.sound .use (by decide) found)
    exact (aboutOnly_touch_iff.mp ((aboutOnly_trans_iff used later).mp about).1).2

theorem finish_about_iff {script : ReadActs} {result : ReadResult} (sound : docket.Sound)
    (live : docket.live id = true) (finished : Finishes fd docket script id result after) :
    AboutOnly id docket after ↔ finishKeeps fd docket script result id = true := by
  rw [finishKeeps]
  obtain ⟨more, written⟩ | ⟨spent, ended⟩ := finished
  · have resumed := starting_evolves sound true id
    rw [if_pos more, aboutOnly_starting_iff sound live (writeData_evolves resumed.sound written)]
    exact writeData_about_iff resumed.sound ((live_starting docket true id id).trans live) written
  · rw [if_neg spent]
    exact endOfStream_about_iff sound live ended

theorem ready_about_iff {script : ReadActs} {stopped : Docket} {last : Option (Nat × ReadResult)}
    (sound : docket.Sound) (live : docket.live id = true)
    (looped : readLoop fd script.reads id docket = some (stopped, last))
    (rest : Concludes fd stopped script last after) :
    AboutOnly id docket after ↔ readyKeeps fd docket script id = true := by
  have reads := readLoop_evolves sound looped
  obtain ⟨iff, kept⟩ := readLoop_about sound live looped
  rw [readyKeeps, looped, Option.all_some, Bool.and_eq_true]
  obtain ⟨rfl, rfl⟩ | ⟨found, result, rfl, finished⟩ := rest
  · rw [iff]
    exact (and_iff_left rfl).symm
  · rw [aboutOnly_trans_iff reads (finish_evolves reads.sound finished), iff]
    refine and_congr_right fun keeps => ?_
    obtain ⟨rfl, alive⟩ := kept keeps found result rfl
    exact finish_about_iff reads.sound alive finished

theorem onEventRead_about_iff {script : ReadActs} (sound : docket.Sound) (live : docket.live id = true)
    (read : docket.onEventRead script id = some after) :
    AboutOnly id docket after ↔ docket.readKeeps script id = true := by
  have started := starting_evolves sound false id
  have alive : (docket.starting false id).live id = true := (live_starting docket false id id).trans live
  simp only [readKeeps]
  obtain ⟨paused, rfl⟩ | ⟨reading, middle, ready, shaken, rest⟩ := onEventRead_cases read
  · rw [paused, aboutOnly_starting_iff sound live (modify_evolves started.sound keeps_updateEvents id)]
    exact iff_of_true (aboutOnly_modify id _ id _) rfl
  · have shook := doSslHandshake_evolves started.sound shaken
    rw [reading, shaken, Option.all_some, Bool.not_true, Bool.false_or, Bool.and_eq_true]
    obtain ⟨rfl, about, kept⟩ | ⟨rfl, iff⟩ := doSslHandshake_about started.sound alive shaken
    · obtain ⟨no, -⟩ | ⟨-, stopped, last, looped, rest⟩ := rest
      · cases no
      · have reads := readLoop_evolves shook.sound looped
        have concluded := concludes_evolves reads.sound rest
        have later := reads.trans concluded
        rw [aboutOnly_starting_iff sound live (shook.trans later), aboutOnly_trans_iff shook later, kept,
          and_iff_right about]
        constructor
        · intro about
          have first := ((aboutOnly_trans_iff reads concluded).mp about).1
          have alive := readLoop_uses shook.sound looped first
          exact ⟨alive, (ready_about_iff shook.sound alive looped rest).mp about⟩
        · rintro ⟨alive, keeps⟩
          exact (ready_about_iff shook.sound alive looped rest).mpr keeps
    · obtain ⟨-, rfl⟩ | ⟨no, -⟩ := rest
      · rw [aboutOnly_starting_iff sound live shook, iff]
        exact (and_iff_left rfl).symm
      · cases no

/-- The call keeps to its event and frees it at most once, and every event created in it that
no callback freed is still allocated, registered and open. -/
structure Identity (id : Nat) (before after : Docket) : Prop where
  own : AboutOnly id before after
  once : (news before after).countP (Entry.frees id) ≤ 1
  created : ∀ other, before.next ≤ other → other < after.next → Entry.freed other ∉ news before after →
    after.live other = true ∧ (0 ≤ (after.heap other).fd →
      after.findEvent (after.heap other).fd = some other ∧ after.openFds (after.heap other).fd = true)

/-- A call that only closes its own event leaves the freeing of the others to callbacks. -/
theorem AboutOnly.frees_other {other : Nat} (about : AboutOnly id before after) (different : other ≠ id)
    (kept : Entry.freed other ∉ news before after) : (news before after).countP (Entry.frees other) = 0 := by
  rw [List.countP_eq_zero]
  intro entry member frees
  cases entry with
  | own touch =>
    obtain ⟨same, -⟩ := about _ member
    simp only [Entry.frees, Bool.and_eq_true, beq_iff_eq] at frees
    exact different (frees.1.2.symm.trans same)
  | freed freed =>
    obtain rfl := beq_iff_eq.mp frees
    exact kept member

theorem Evolves.identity_iff (evolves : Evolves before after) (known : id < before.next) :
    Identity id before after ↔ AboutOnly id before after := by
  refine ⟨Identity.own, fun about => ⟨about, ?_, fun other fresh bound kept => ?_⟩⟩
  · have balance := evolves.balance id
    have one : before.count id ≤ 1 := by
      rw [count]
      split <;> omega
    rw [if_neg (by omega)] at balance
    omega
  · have balance := evolves.balance other
    have before' : before.count other = 0 := if_neg fun both => absurd both.1 (by omega)
    rw [about.frees_other (by omega) kept, before', if_pos ⟨fresh, bound⟩] at balance
    have live : after.live other = true := by
      by_contra dead
      rw [count, if_neg fun both => dead both.2] at balance
      omega
    exact ⟨live, evolves.sound.registered other bound live⟩

/-- A close and a read keep to their event exactly when each callback behind which they look
the descriptor up again leaves it to the event or to nobody. -/
theorem calls_identity_iff (docket : Docket) (id : Nat) (sound : docket.Sound) (known : id < docket.next)
    (live : docket.live id = true) :
    (∀ onEvent after, docket.closeInternal onEvent id = some after →
      (Identity id docket after ↔ docket.closeKeeps onEvent id = true)) ∧
      ∀ script after, docket.onEventRead script id = some after →
        (Identity id docket after ↔ docket.readKeeps script id = true) := by
  constructor
  · intro onEvent after closed
    rw [(closeInternal_evolves sound closed).identity_iff known]
    exact closeInternal_about_iff sound live closed
  · intro script after read
    rw [(onEventRead_evolves sound read).identity_iff known]
    exact onEventRead_about_iff sound live read

/-- `Docket_new`, with nothing opened yet. -/
def opened : Docket :=
  ⟨fun _ => ⟨0, ⟨deventNone, deventNone, [], 0, false, false, false, false, false, false, false, false⟩⟩,
  0, fun _ => none, fun _ => false, []⟩

theorem opened_sound : opened.Sound where
  known := nofun
  registered := nofun
  released := nofun

/-- A connection that reads, with its callbacks. -/
def reader : DocketEvent :=
  ⟨deventReadWrite, deventReadWrite, [], 0, true, false, true, false, false, false, false, true⟩

/-- The read callback takes the event away, and then the connection ends. -/
def quitting (acts : List Act) : ReadActs :=
  ⟨.pending, [(⟨10, false⟩, acts), (⟨0, false⟩, [])], [], ⟨[], [], []⟩⟩

theorem quitting_identity : ∃ docket after, opened.performAll [.create 5 reader] = some docket ∧
    docket.onEventRead (quitting [.free 0, .create 6 reader]) 0 = some after ∧ Identity 0 docket after := by
  have created : opened.performAll [.create 5 reader] = some _ := rfl
  have sound := (performAll_evolves opened_sound created).sound
  have reads := (calls_identity_iff _ 0 sound (by decide) rfl).2 (quitting [.free 0, .create 6 reader])
  exact ⟨_, _, rfl, rfl, (reads _ rfl).mpr rfl⟩

/-- A descriptor that is handed out again inside the callback. -/
theorem reused_descriptor : ¬∀ (docket : Docket) (id : Nat), docket.Sound → id < docket.next →
    docket.live id = true → ∀ script after, docket.onEventRead script id = some after →
    Identity id docket after := by
  intro claim
  have created : opened.performAll [.create 5 reader] = some _ := rfl
  have sound := (performAll_evolves opened_sound created).sound
  have identity := claim _ 0 sound (by decide) rfl (quitting [.free 0, .create 5 reader]) _ rfl
  have kept := (identity.created 1 (by decide) (by decide) (by decide)).1
  exact absurd kept (by decide)

end Docket

end Devent
