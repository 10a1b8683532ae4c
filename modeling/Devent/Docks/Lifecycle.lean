import Devent.Docks.DocksClient
import Devent.Library.Run

/-! The two connections of a docks client live and die together only from `on_connect` on.
Before, the callbacks of either one do not know of the other. -/
namespace Devent.Docks.DocksClient

variable {docks after : DocksClient} {held : Held} {answers : ConnectAnswers}

/-- Nothing is used that is freed. -/
def safe (docks : DocksClient) : Bool := docks.uses.all Prod.snd

/-- If either connection is gone, so is the other one with its context, and no step has used
what was freed. -/
structure Sheltered (docks : DocksClient) : Prop where
  safe : ∀ use ∈ docks.uses, use.2 = true
  localGone : docks.live .localEvent = false →
    docks.live .upstreamEvent = false ∧ docks.live .clientContext = false ∧ docks.live .remoteContext = false
  upstreamGone : docks.live .upstreamEvent = false →
    docks.live .localEvent = false ∧ docks.live .serverContext = false

/-- The in-buffer makes the read callback give up. -/
def refused (upstream : Upstream) : Bool := upstream.handle.any fun (_, verdict) => verdict = .fails

/-- The in-buffer holds the whole reply to the request. -/
def replied (upstream : Upstream) : Bool := upstream.handle.any fun (_, verdict) => verdict = .connects

/-- Neither connection ends before `on_connect`, though the upstream may end with the reply
as its last bytes. -/
def quiet (docks : DocksClient) : DocksInput → Bool
  | .connected sendFails => !sendFails
  | .connectFailed => false
  | .data bytes _ => !refused (docks.received bytes).upstream
  | .upstreamEnd _ => docks.served || (decide (docks.upstream.client.inBuffer ≠ []) && replied docks.upstream)
  | .localEnd => docks.served

/-- What is held before `on_connect`, and behind it. -/
def handshaking : Held → Bool := fun held => held ≠ .remoteContext

def serving : Held → Bool := fun held => held ≠ .clientContext

structure Handshaking (docks : DocksClient) : Prop where
  localCb : docks.localCb = .serverEventCb
  upstreamCb : docks.upstreamCb = .onConnectToServer
  live : docks.live = handshaking
  safe : docks.safe = true

structure Serving (docks : DocksClient) : Prop where
  localCb : docks.localCb = .serverEvent
  upstreamCb : docks.upstreamCb = .remoteEvent
  live : docks.live = serving
  safe : docks.safe = true

structure Gone (docks : DocksClient) : Prop where
  live : docks.live = fun _ => false
  safe : docks.safe = true

def Shared (docks : DocksClient) : Prop := docks.Serving ∨ docks.Gone

def Kept (docks : DocksClient) : Prop := docks.Handshaking ∨ docks.Shared

@[simp] theorem use_live (docks : DocksClient) (held : Held) : (docks.use held).live = docks.live := rfl

@[simp] theorem release_live (docks : DocksClient) (held : Held) :
    (docks.release held).live = Function.update docks.live held false := rfl

@[simp] theorem use_safe (docks : DocksClient) (held : Held) :
    (docks.use held).safe = (docks.safe && docks.live held) := by
  simp only [safe, use, List.all_append, List.all_cons, List.all_nil, Bool.and_true]

@[simp] theorem release_safe (docks : DocksClient) (held : Held) :
    (docks.release held).safe = (docks.safe && docks.live held) := use_safe docks held

theorem remoteEvent_gone (serving : docks.Serving) : docks.remoteEvent.Gone := by
  constructor
  · simp only [remoteEvent, release_live, use_live, serving.live]
    funext held
    cases held <;> rfl
  · simp only [remoteEvent, release_safe, use_safe, release_live, use_live, serving.live, serving.safe]
    rfl

theorem serverEvent_gone (serving : docks.Serving) : docks.serverEvent.Gone := by
  constructor
  · simp only [serverEvent, release_live, use_live, serving.live]
    funext held
    cases held <;> rfl
  · simp only [serverEvent, release_safe, use_safe, release_live, use_live, serving.live, serving.safe]
    rfl

/-- A use of what is held. -/
theorem Handshaking.use (handshaking : docks.Handshaking) (held : Held) (kept : held ≠ .remoteContext) :
    (docks.use held).Handshaking := by
  refine ⟨handshaking.localCb, handshaking.upstreamCb, handshaking.live, ?_⟩
  rw [use_safe, handshaking.safe, handshaking.live, Bool.true_and]
  exact decide_eq_true kept

theorem Serving.use (serving : docks.Serving) (held : Held) (kept : held ≠ .clientContext) :
    (docks.use held).Serving := by
  refine ⟨serving.localCb, serving.upstreamCb, serving.live, ?_⟩
  rw [use_safe, serving.safe, serving.live, Bool.true_and]
  exact decide_eq_true kept

theorem closeUpstream_gone (serving : docks.Serving) : docks.closeUpstream.Gone := by
  have used := serving.use .upstreamEvent (by decide)
  have gone := remoteEvent_gone used
  simp only [closeUpstream, used.upstreamCb, gone.live]
  exact gone

theorem closeLocal_gone (serving : docks.Serving) : docks.closeLocal.Gone := by
  have used := serving.use .localEvent (by decide)
  have gone := serverEvent_gone used
  simp only [closeLocal, used.localCb, gone.live]
  exact gone

/-- Once `on_connect` has installed its callbacks, every failure takes both sides down. -/
theorem sendClientAuthResponse_shared (serving : docks.Serving) :
    (docks.sendClientAuthResponse answers).Shared := by
  have used :=
    ((serving.use .remoteContext (by decide)).use .serverContext (by decide)).use .upstreamEvent (by decide)
  simp only [sendClientAuthResponse]
  split
  · refine .inr ⟨?_, ?_⟩
    · simp only [release_live, used.live]
      funext held
      cases held <;> rfl
    · simp only [release_safe, release_live, used.safe, used.live]
      rfl
  · exact .inl used
  · have written := (used.use .localEvent (by decide)).use .localEvent (by decide)
    split
    · exact .inr (closeLocal_gone written)
    · exact .inl written

/-- `on_connect` finds everything it needs still held. -/
theorem onConnect_shared (handshaking : docks.Handshaking) : (docks.onConnect answers).Shared := by
  refine sendClientAuthResponse_shared (Serving.use ⟨rfl, rfl, ?_, ?_⟩ .upstreamEvent (by decide))
  · simp only [allocate, use_live, release_live, handshaking.live]
    funext held
    cases held <;> rfl
  · have before : docks.uses.all Prod.snd = true := handshaking.safe
    simp only [safe, allocate, use, release, List.all_append, List.all_cons, List.all_nil, before,
      handshaking.live]
    rfl

/-- The read callback, unless it gives up. -/
theorem callRead_kept (handshaking : docks.Handshaking) (accepted : refused docks.upstream = false)
    (called : docks.callRead answers = some after) :
    after.Handshaking ∧ replied docks.upstream = false ∨ after.Shared ∧ replied docks.upstream = true := by
  rw [callRead] at called
  split at called
  · rename_i connecting
    cases called
    refine .inl ⟨handshaking, ?_⟩
    rw [replied, Upstream.handle, connecting]
    rfl
  · obtain ⟨⟨upstream, verdict⟩, handled, rest⟩ := Option.bind_eq_some_iff.mp called
    have handled : docks.upstream.handle = some (upstream, verdict) := handled
    have used := (handshaking.use .upstreamEvent (by decide)).use .clientContext (by decide)
    have read (upstream : Upstream) :
        Handshaking { (docks.use .upstreamEvent).use .clientContext with upstream := upstream } :=
      ⟨used.localCb, used.upstreamCb, used.live, used.safe⟩
    rw [replied, handled]
    cases verdict with
    | returns =>
      cases rest
      exact .inl ⟨read upstream, rfl⟩
    | fails =>
      rw [refused, handled] at accepted
      cases accepted
    | connects =>
      cases rest
      exact .inr ⟨onConnect_shared (read upstream), rfl⟩

theorem accepted_of_replied {upstream : Upstream} (whole : replied upstream = true) :
    refused upstream = false := by
  rw [replied] at whole
  rw [refused]
  cases handled : upstream.handle with
  | none => rfl
  | some pair =>
    obtain ⟨next, verdict⟩ := pair
    rw [handled, Option.any_some, decide_eq_true_eq] at whole
    obtain rfl := whole
    rfl

theorem Handshaking.unserved (handshaking : docks.Handshaking) : docks.served = false := by
  rw [served, handshaking.upstreamCb]
  rfl

theorem Serving.served (serving : docks.Serving) : docks.served = true := by
  rw [DocksClient.served, serving.upstreamCb]
  rfl

theorem Kept.live_cases (kept : docks.Kept) (live : docks.live held = true) :
    docks.Handshaking ∨ docks.Serving := by
  obtain handshaking | serving | gone := kept
  · exact .inl handshaking
  · exact .inr serving
  · rw [gone.live] at live
    cases live

theorem onConnectToServer_handshaking (handshaking : docks.Handshaking) :
    (docks.onConnectToServer false).Handshaking := by
  have called := (handshaking.use .clientContext (by decide)).use .upstreamEvent (by decide)
  have written := (called.use .upstreamEvent (by decide)).use .upstreamEvent (by decide)
  exact ⟨written.localCb, written.upstreamCb, written.live, written.safe⟩

theorem received_handshaking (handshaking : docks.Handshaking) (bytes : List Byte) :
    (docks.received bytes).Handshaking :=
  ⟨handshaking.localCb, handshaking.upstreamCb, handshaking.live, handshaking.safe⟩

/-- The end of the upstream behind `on_connect`. -/
theorem closeUpstream_shared (shared : docks.Shared) :
    (if docks.live .upstreamEvent then docks.closeUpstream else docks).Gone := by
  obtain serving | gone := shared
  · rw [if_pos (by rw [serving.live]; rfl)]
    exact closeUpstream_gone serving
  · rw [if_neg (by rw [gone.live]; decide)]
    exact gone

/-- What an input needs and what it does. -/
theorem step_cases {input : DocksInput} {out : Unit} (taken : docks.step input = some (after, out)) :
    (∃ sendFails, input = .connected sendFails ∧ docks.live .upstreamEvent = true ∧ docks.served = false ∧
      after = docks.onConnectToServer sendFails) ∨
    (input = .connectFailed ∧ after = docks.onConnectToServerEnd) ∨
    (∃ bytes answers, input = .data bytes answers ∧ docks.live .upstreamEvent = true ∧ docks.served = false ∧
      (docks.received bytes).callRead answers = some after) ∨
    (∃ answers, input = .upstreamEnd answers ∧ docks.live .upstreamEvent = true ∧
      docks.upstreamEnd answers = some after) ∨
    (input = .localEnd ∧ docks.live .localEvent = true ∧ after = docks.closeLocal) := by
  cases input with
  | connected sendFails =>
    rw [step] at taken
    split at taken
    · rename_i able
      cases taken
      exact .inl ⟨sendFails, rfl, able.1, able.2.1, rfl⟩
    · cases taken
  | connectFailed =>
    rw [step] at taken
    split at taken
    · cases taken
      exact .inr (.inl ⟨rfl, rfl⟩)
    · cases taken
  | data bytes answers =>
    rw [step] at taken
    split at taken
    · rename_i able
      obtain ⟨next, called, same⟩ := Option.map_eq_some_iff.mp taken
      cases same
      exact .inr (.inr (.inl ⟨bytes, answers, rfl, able.1, able.2, called⟩))
    · cases taken
  | upstreamEnd answers =>
    rw [step] at taken
    split at taken
    · rename_i live
      obtain ⟨next, ended, same⟩ := Option.map_eq_some_iff.mp taken
      cases same
      exact .inr (.inr (.inr (.inl ⟨answers, rfl, live, ended⟩)))
    · cases taken
  | localEnd =>
    rw [step] at taken
    split at taken
    · rename_i live
      cases taken
      exact .inr (.inr (.inr (.inr ⟨rfl, live, rfl⟩)))
    · cases taken

/-- The end of the upstream, unless its last bytes are no reply. -/
theorem upstreamEnd_kept (kept : docks.Kept) (live : docks.live .upstreamEvent = true)
    (allowed : docks.quiet (.upstreamEnd answers) = true) (ended : docks.upstreamEnd answers = some after) :
    after.Gone := by
  simp only [upstreamEnd, Option.bind_eq_bind] at ended
  obtain handshaking | serving := kept.live_cases live
  · rw [quiet, handshaking.unserved, Bool.false_or, Bool.and_eq_true, decide_eq_true_eq] at allowed
    rw [if_pos ⟨handshaking.unserved, allowed.1⟩] at ended
    obtain ⟨middle, called, rest⟩ := Option.bind_eq_some_iff.mp ended
    obtain ⟨-, unreplied⟩ | ⟨shared, -⟩ := callRead_kept handshaking (accepted_of_replied allowed.2) called
    · rw [allowed.2] at unreplied
      cases unreplied
    · cases rest
      exact closeUpstream_shared shared
  · rw [if_neg fun both => by rw [serving.served] at both; cases both.1] at ended
    cases ended
    exact closeUpstream_shared (.inl serving)

/-- One input in which no connection ends early. -/
theorem step_kept {input : DocksInput} {out : Unit} (kept : docks.Kept) (allowed : docks.quiet input = true)
    (taken : docks.step input = some (after, out)) : after.Kept := by
  obtain ⟨sendFails, rfl, live, unserved, rfl⟩ | ⟨rfl, -⟩ | ⟨bytes, answers, rfl, live, unserved, called⟩ |
    ⟨answers, rfl, live, ended⟩ | ⟨rfl, live, rfl⟩ := step_cases taken
  · obtain handshaking | serving := kept.live_cases live
    · rw [quiet, Bool.not_eq_true'] at allowed
      rw [allowed]
      exact .inl (onConnectToServer_handshaking handshaking)
    · rw [serving.served] at unserved
      cases unserved
  · cases allowed
  · obtain handshaking | serving := kept.live_cases live
    · rw [quiet, Bool.not_eq_true'] at allowed
      obtain ⟨handshaking, -⟩ | ⟨shared, -⟩ :=
        callRead_kept (received_handshaking handshaking bytes) allowed called
      · exact .inl handshaking
      · exact .inr shared
    · rw [serving.served] at unserved
      cases unserved
  · exact .inr (.inr (upstreamEnd_kept kept live allowed ended))
  · obtain handshaking | serving := kept.live_cases live
    · rw [quiet, handshaking.unserved] at allowed
      cases allowed
    · exact .inr (.inr (closeLocal_gone serving))

theorem Kept.sheltered (kept : docks.Kept) : docks.Sheltered := by
  obtain handshaking | serving | gone := kept
  · refine ⟨List.all_eq_true.mp handshaking.safe, fun dead => ?_, fun dead => ?_⟩
    all_goals
      rw [handshaking.live] at dead
      cases dead
  · refine ⟨List.all_eq_true.mp serving.safe, fun dead => ?_, fun dead => ?_⟩
    all_goals
      rw [serving.live] at dead
      cases dead
  · refine ⟨List.all_eq_true.mp gone.safe, fun _ => ?_, fun _ => ?_⟩
    · rw [gone.live]
      exact ⟨rfl, rfl, rfl⟩
    · rw [gone.live]
      exact ⟨rfl, rfl⟩

/-- In every run in which neither connection ends before `on_connect`, they end together
and nothing is used that is freed. -/
theorem run_sheltered (config : ClientConfig) (remoteHost : CString) (remotePort : Nat)
    (inputs : List DocksInput)
    (allowed : Run.Along step (fun docks input => docks.quiet input = true)
      (connectRemote config remoteHost remotePort) inputs)
    {last : DocksClient} {outs : List Unit}
    (path : Run.run step (connectRemote config remoteHost remotePort) inputs = some (last, outs)) :
    last.Sheltered :=
  (Run.run_along step_kept (.inl ⟨rfl, rfl, rfl, rfl⟩) allowed path).sheltered

theorem exposed_of_upstream (gone : docks.live .upstreamEvent = false) (left : docks.live .localEvent = true) :
    ¬docks.Sheltered := by
  intro sheltered
  rw [(sheltered.upstreamGone gone).1] at left
  cases left

theorem closeUpstream_live (early : docks.upstreamCb = .onConnectToServer) :
    docks.closeUpstream.live = Function.update docks.live .upstreamEvent false := by
  have cb : (docks.use .upstreamEvent).upstreamCb = .onConnectToServer := early
  simp only [closeUpstream, cb, onConnectToServerEnd, release_live, use_live, Function.update_self,
    Bool.false_eq_true, if_false]

theorem closeUpstream_exposed (handshaking : docks.Handshaking) : ¬docks.closeUpstream.Sheltered := by
  have dead := closeUpstream_live handshaking.upstreamCb
  refine exposed_of_upstream ?_ ?_
  · rw [dead, Function.update_self]
  · rw [dead, handshaking.live]
    rfl

/-- The read callback gives up, and the local client is left. -/
theorem callRead_exposed (handshaking : docks.Handshaking) (refuses : refused docks.upstream = true)
    (called : docks.callRead answers = some after) :
    after.live .upstreamEvent = false ∧ after.live .localEvent = true := by
  rw [callRead] at called
  split at called
  · rename_i connecting
    rw [refused, Upstream.handle, connecting] at refuses
    cases refuses
  · obtain ⟨⟨upstream, verdict⟩, handled, rest⟩ := Option.bind_eq_some_iff.mp called
    have handled : docks.upstream.handle = some (upstream, verdict) := handled
    rw [refused, handled, Option.any_some, decide_eq_true_eq] at refuses
    obtain rfl := refuses
    cases rest
    simp only [release_live, use_live, handshaking.live]
    exact ⟨rfl, rfl⟩

/-- A send of `docks_write_methods` fails. -/
theorem onConnectToServer_exposed (handshaking : docks.Handshaking) :
    ¬(docks.onConnectToServer true).Sheltered := by
  have used := (handshaking.use .clientContext (by decide)).use .upstreamEvent (by decide)
  have dead : (docks.onConnectToServer true).live = Function.update docks.live .upstreamEvent false :=
    closeUpstream_live used.upstreamCb
  refine exposed_of_upstream ?_ ?_
  · rw [dead, Function.update_self]
  · rw [dead, handshaking.live]
    rfl

theorem onConnectToServerEnd_exposed (handshaking : docks.Handshaking) :
    ¬docks.onConnectToServerEnd.Sheltered := by
  refine exposed_of_upstream ?_ ?_
  · simp only [onConnectToServerEnd, release_live, Function.update_self]
  · simp only [onConnectToServerEnd, release_live, handshaking.live]
    rfl

theorem upstreamEnd_exposed (handshaking : docks.Handshaking) (live : docks.live .upstreamEvent = true)
    (early : docks.quiet (.upstreamEnd answers) = false) (ended : docks.upstreamEnd answers = some after) :
    ¬after.Sheltered := by
  rw [quiet, handshaking.unserved, Bool.false_or] at early
  simp only [upstreamEnd, Option.bind_eq_bind] at ended
  split at ended
  · rename_i pending
    rw [decide_eq_true pending.2, Bool.true_and] at early
    obtain ⟨middle, called, rest⟩ := Option.bind_eq_some_iff.mp ended
    cases refuses : refused docks.upstream with
    | true =>
      obtain ⟨gone, left⟩ := callRead_exposed handshaking refuses called
      rw [if_neg (by rw [gone]; decide)] at rest
      cases rest
      exact exposed_of_upstream gone left
    | false =>
      obtain ⟨still, -⟩ | ⟨-, whole⟩ := callRead_kept handshaking refuses called
      · rw [if_pos (by rw [still.live]; rfl)] at rest
        cases rest
        exact closeUpstream_exposed still
      · rw [early] at whole
        cases whole
  · rw [Option.bind_some, if_pos live] at ended
    cases ended
    exact closeUpstream_exposed handshaking

theorem closeLocal_exposed (handshaking : docks.Handshaking) (live : docks.live .localEvent = true) :
    ¬docks.closeLocal.Sheltered := by
  intro sheltered
  have cb : (docks.use .localEvent).localCb = .serverEventCb := handshaking.localCb
  have dead : docks.closeLocal.live = Function.update docks.live .localEvent false := by
    simp only [closeLocal, cb, serverEventCb, release_live, use_live, live, if_true]
  have gone := (sheltered.localGone (by rw [dead, Function.update_self])).1
  rw [dead, handshaking.live] at gone
  cases gone

theorem early_end_exposed {input : DocksInput} {out : Unit} (handshaking : docks.Handshaking)
    (early : docks.quiet input = false) (taken : docks.step input = some (after, out)) : ¬after.Sheltered := by
  obtain ⟨sendFails, rfl, -, -, rfl⟩ | ⟨rfl, rfl⟩ | ⟨bytes, answers, rfl, -, -, called⟩ |
    ⟨answers, rfl, live, ended⟩ | ⟨rfl, live, rfl⟩ := step_cases taken
  · rw [quiet, Bool.not_eq_false'] at early
    rw [early]
    exact onConnectToServer_exposed handshaking
  · exact onConnectToServerEnd_exposed handshaking
  · rw [quiet, Bool.not_eq_false'] at early
    obtain ⟨gone, left⟩ := callRead_exposed (received_handshaking handshaking bytes) early called
    exact exposed_of_upstream gone left
  · exact upstreamEnd_exposed handshaking live early ended
  · exact closeLocal_exposed handshaking live

/-- A docks server that takes the client without a password and connects it. -/
def welcomed (behind : List DocksInput) : List DocksInput :=
  [.connected false, .data [0x05, 0x00] ⟨.known, false⟩] ++ behind ++
    [.data [0x05, 0x00, 0x00, 0x01, 127, 0, 0, 1, 0, 80] ⟨.known, false⟩]

theorem welcomed_sheltered : ∃ last outs,
    Run.run step (connectRemote ⟨none, none⟩ (.ofBytes [104]) 80) (welcomed []) = some (last, outs) ∧
      last.served = true ∧ last.Sheltered :=
  ⟨_, _, rfl, rfl, run_sheltered ⟨none, none⟩ (.ofBytes [104]) 80 (welcomed []) (by decide) rfl⟩

/-- The local client leaves before the last message. -/
theorem local_end_dangles : ¬∀ (config : ClientConfig) (remoteHost : CString) (remotePort : Nat)
    (inputs : List DocksInput) (last : DocksClient) (outs : List Unit),
      Run.run step (connectRemote config remoteHost remotePort) inputs = some (last, outs) →
      last.Sheltered := by
  intro claim
  have sheltered := claim ⟨none, none⟩ (.ofBytes [104]) 80 (welcomed [.localEnd]) _ _ rfl
  exact absurd (sheltered.safe (.localEvent, false) (by decide)) (by decide)

end Devent.Docks.DocksClient
