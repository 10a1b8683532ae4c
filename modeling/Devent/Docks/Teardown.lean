import Devent.Docks.RelayLegs

/-! How a relay ends. While both legs live, either one may take the other down; a leg with
bytes to send drains alone, and its callbacks are a pair of functions of which one takes the
other leg's context. -/
namespace Devent.Docks.Transfer

variable {transfer before after : Transfer} {side : Side} {results : List SendResult}

def Settled (transfer : Transfer) : Prop := transfer.Relaying ∨ (∃ side, transfer.Draining side) ∨ transfer.Over

/-- A leg that lives relays, or is the one that drains. -/
theorem Settled.cases (settled : transfer.Settled) (live : (transfer.leg side).live = true) :
    transfer.Relaying ∨ transfer.Draining side := by
  obtain relaying | ⟨leg, draining⟩ | ended := settled
  · exact .inl relaying
  · right
    by_contra different
    have other : side = leg.other := by
      cases side <;> cases leg <;> first | rfl | exact absurd draining different
    rw [other, draining.gone] at live
    cases live
  · rw [ended side] at live
    cases live

theorem onRead_keeps {data : List Chunk} (settled : transfer.Settled) (tornDown : transfer.TornDown)
    (live : (transfer.leg side).live = true) (read : transfer.onRead side data results = some after) :
    after.TornDown ∧ after.Settled := by
  have adjusts := modify_adjusts transfer side
    (fun leg => { leg with writeEnable := false, inBuffer := leg.inBuffer ++ data })
    fun _ => ⟨rfl, rfl, rfl, rfl, rfl⟩
  have torn := adjusts.tornDown tornDown
  obtain relaying | draining := settled.cases live
  · obtain ⟨-, relaying, torn, -⟩ | ⟨-, torn, ⟨-, ended⟩ | ⟨-, draining⟩⟩ :=
      callRead_cases (adjusts.relaying relaying) torn read
    · exact ⟨torn, .inl relaying⟩
    · exact ⟨torn, .inr (.inr ended)⟩
    · exact ⟨torn, .inr (.inl ⟨side, draining⟩)⟩
  · have draining := adjusts.draining draining
    rw [onRead, callRead, draining.readCb] at read
    cases read
    exact ⟨torn, .inr (.inl ⟨side, draining⟩)⟩

theorem Fallen.settled (fallen : Fallen before side after) : after.Settled := by
  obtain ⟨-, dead⟩ | ⟨-, draining⟩ := fallen.other
  · exact .inr (.inr (cases_side side fallen.dead dead))
  · exact .inr (.inl ⟨side.other, draining⟩)

/-- The writes behind the reads and behind a write notification. -/
theorem writeData_keeps (settled : transfer.Settled) (tornDown : transfer.TornDown)
    (live : (transfer.leg side).live = true) (enabled : (transfer.leg side).writeEnable = true)
    (allowed : ((transfer.leg side).writeCb.isNone || !sendFails (transfer.leg side).outBuffer results) = true)
    (written : transfer.writeData side results = some after) : after.TornDown ∧ after.Settled := by
  obtain relaying | draining := settled.cases live
  · obtain ⟨-, adjusts⟩ | ⟨-, fallen⟩ := writeData_relaying relaying tornDown enabled written
    · exact ⟨adjusts.tornDown tornDown, .inl (adjusts.relaying relaying)⟩
    · exact ⟨fallen.tornDown, fallen.settled⟩
  · rw [draining.writeCb, Option.isNone_some, Bool.false_or, Bool.not_eq_true'] at allowed
    obtain ⟨torn, draining | ended⟩ := writeData_draining draining tornDown enabled allowed written
    · exact ⟨torn, .inr (.inl ⟨side, draining⟩)⟩
    · exact ⟨torn, .inr (.inr ended)⟩

theorem adjusts_settled (adjusts : Adjusts side before after) (settled : before.Settled)
    (live : (before.leg side).live = true) : after.Settled := by
  obtain relaying | draining := settled.cases live
  · exact .inl (adjusts.relaying relaying)
  · exact .inr (.inl ⟨side, adjusts.draining draining⟩)

theorem onReadAgain_keeps (settled : transfer.Settled) (tornDown : transfer.TornDown)
    (live : (transfer.leg side).live = true) (allowed : transfer.graceful (.again side results) = true)
    (written : transfer.onReadAgain side results = some after) : after.TornDown ∧ after.Settled := by
  have adjusts := modify_adjusts transfer side (fun leg => { leg with writeEnable := true })
    fun _ => ⟨rfl, rfl, rfl, rfl, rfl⟩
  refine writeData_keeps (adjusts_settled adjusts settled live) (adjusts.tornDown tornDown) ?_ ?_ ?_ written
  · exact adjusts.live.trans live
  · rw [modify_self]
  · rw [modify_self]
    exact allowed

theorem onEventWrite_keeps (settled : transfer.Settled) (tornDown : transfer.TornDown)
    (live : (transfer.leg side).live = true) (allowed : transfer.graceful (.writable side results) = true)
    (written : transfer.onEventWrite side results = some after) : after.TornDown ∧ after.Settled := by
  simp only [onEventWrite] at written
  split at written
  · cases written
    have adjusts := modify_adjusts transfer side (fun leg => { leg with writeEnable := true })
      fun _ => ⟨rfl, rfl, rfl, rfl, rfl⟩
    exact ⟨adjusts.tornDown tornDown, adjusts_settled adjusts settled live⟩
  · exact onReadAgain_keeps settled tornDown live allowed written

theorem closeInternal_settled (relaying : transfer.Relaying) (tornDown : transfer.TornDown)
    (sent : (transfer.leg side).outBuffer = [] ∨ (transfer.leg side).failed = true)
    (closed : transfer.closeInternal side = some after) : after.TornDown ∧ after.Settled := by
  have fallen := closeInternal_relaying relaying tornDown sent closed
  exact ⟨fallen.tornDown, fallen.settled⟩

/-- The end of the stream on a leg whose bytes are sent, or whose socket has failed. -/
theorem onReadFinish_keeps {error : Bool} (settled : transfer.Settled) (tornDown : transfer.TornDown)
    (live : (transfer.leg side).live = true) (allowed : transfer.graceful (.finish side error results) = true)
    (finished : transfer.onReadFinish side error results = some after) : after.TornDown ∧ after.Settled := by
  rw [graceful, Bool.and_eq_true, Option.isNone_iff_eq_none, Bool.or_eq_true, decide_eq_true_eq,
    Bool.and_eq_true, Bool.not_eq_true'] at allowed
  obtain ⟨alone, allowed⟩ := allowed
  obtain relaying | draining := settled.cases live
  · have ending := modify_adjusts transfer side
      (fun leg => { leg with writeEnable := false, failed := leg.failed || error })
      fun _ => ⟨rfl, rfl, rfl, rfl, rfl⟩
    have relaying := ending.relaying relaying
    have torn := ending.tornDown tornDown
    have sent : (transfer.leg side).outBuffer = [] ∨ ((transfer.leg side).failed || error) = true := by
      obtain empty | ⟨failed, -⟩ := allowed
      · exact .inl empty
      · exact .inr (by rw [failed, Bool.or_true])
    simp only [onReadFinish, Option.bind_eq_bind] at finished
    split at finished
    · rename_i pending
      rw [modify_self] at pending
      obtain ⟨middle, called, closed⟩ := Option.bind_eq_some_iff.mp finished
      obtain ⟨-, still, torn, kept⟩ | ⟨fails, torn, rest⟩ := callRead_cases relaying torn called
      · rw [if_pos (still.live side)] at closed
        refine closeInternal_settled still torn ?_ closed
        rw [kept, modify_self]
        exact sent
      · rw [modify_other, modify_self] at fails
        obtain ⟨-, ended⟩ | ⟨unsent, -⟩ := rest
        · rw [if_neg (by rw [ended side]; decide)] at closed
          cases closed
          exact ⟨torn, .inr (.inr ended)⟩
        · -- a leg with bytes to send would drain and then be closed
          rw [modify_self] at unsent
          obtain empty | ⟨-, sends⟩ := allowed
          · exact absurd empty unsent
          · rw [if_neg pending, fails] at sends
            cases sends
    · obtain ⟨middle, same, closed⟩ := Option.bind_eq_some_iff.mp finished
      cases same
      rw [if_pos (relaying.live side)] at closed
      refine closeInternal_settled relaying torn ?_ closed
      rw [modify_self]
      exact sent
  · rw [draining.writeCb] at alone
    cases alone

theorem step_keeps {input : TransferInput} {out : Unit} (kept : transfer.TornDown ∧ transfer.Settled)
    (allowed : transfer.graceful input = true) (taken : transfer.step input = some (after, out)) :
    after.TornDown ∧ after.Settled := by
  obtain ⟨tornDown, settled⟩ := kept
  rw [step.eq_def] at taken
  split at taken
  · rename_i live
    cases input with
    | read side data results =>
      obtain ⟨next, read, same⟩ := Option.map_eq_some_iff.mp taken
      cases same
      exact onRead_keeps settled tornDown live read
    | again side results =>
      obtain ⟨next, written, same⟩ := Option.map_eq_some_iff.mp taken
      cases same
      exact onReadAgain_keeps settled tornDown live allowed written
    | finish side error results =>
      obtain ⟨next, finished, same⟩ := Option.map_eq_some_iff.mp taken
      cases same
      exact onReadFinish_keeps settled tornDown live allowed finished
    | writable side results =>
      obtain ⟨next, written, same⟩ := Option.map_eq_some_iff.mp taken
      cases same
      exact onEventWrite_keeps settled tornDown live allowed written
  · cases taken

theorem Begun.tornDown (begun : transfer.Begun) : transfer.TornDown := by
  refine ⟨fun entry member => ?_, fun side => ?_⟩
  · rw [begun.log] at member
    cases member
  · rw [begun.log, begun.relaying.live side]
    rfl

/-- In every run whose steps are graceful, each context is released exactly once, as what it
is and with its event, and no byte is dropped but by a failed socket. -/
theorem run_torn_down (start : Transfer) (begun : start.Begun) (inputs : List TransferInput)
    (allowed : Run.Along step (fun transfer input => transfer.graceful input = true) start inputs)
    {last : Transfer} {outs : List Unit} (path : Run.run step start inputs = some (last, outs)) :
    last.TornDown :=
  (Run.run_along (P := fun transfer => transfer.TornDown ∧ transfer.Settled) step_keeps
    ⟨begun.tornDown, .inl begun.relaying⟩ allowed path).1

theorem eventFree_log (freed : transfer.eventFree side = some after) : after.log = transfer.log ++
    [.closed side (transfer.leg side).outBuffer.length (transfer.leg side).failed] := by
  simp only [eventFree] at freed
  split at freed
  · cases freed
    rfl
  · cases freed

/-- A leg that drains is closed through the other leg's function. -/
theorem closeInternal_draining (draining : transfer.Draining side)
    (closed : transfer.closeInternal side = some after) :
    ¬after.TornDown := by
  intro tornDown
  obtain ⟨middle, called, rest⟩ := Option.bind_eq_some_iff.mp closed
  have call : middle.log = transfer.log ++ [.called side.other side] ++ [.released side.other side] := by
    simp only [callEvent, modify_self, draining.eventCb, draining.ctx] at called
    cases side <;> cases called <;> rfl
  have confused : TransferEntry.called side.other side ∈ middle.log := by
    rw [call]
    simp only [List.mem_append, List.mem_singleton, or_true, true_or]
  have kept : TransferEntry.called side.other side ∈ after.log := by
    split at rest
    · rw [eventFree_log rest]
      exact List.mem_append_left _ confused
    · cases rest
      exact confused
  exact side.ne_other (tornDown.good _ kept)

/-- The end of the stream drops what its leg has not sent. -/
theorem disconnectEvent_unsent {write : RelayWriteCb} {finally' : RelayEventCb} {given : Side}
    (unsent : (transfer.leg side).outBuffer ≠ []) (working : (transfer.leg side).failed = false)
    (disconnected : disconnectEvent side write finally' transfer given = some after) : ¬after.TornDown := by
  intro tornDown
  obtain ⟨freed, gone, frees, rfl, rest⟩ := disconnectEvent_cases disconnected
  have dropped : TransferEntry.closed side (transfer.leg side).outBuffer.length false ∈
      ((freed.contextFree side side).unlink side.other).log := by
    have log := eventFree_log frees
    rw [working] at log
    refine List.mem_append_left _ ?_
    rw [log]
    exact List.mem_append_right _ (List.mem_singleton_self _)
  have kept : TransferEntry.closed side (transfer.leg side).outBuffer.length false ∈ after.log := by
    obtain ⟨-, last, frees', rfl⟩ | ⟨-, rfl⟩ := rest
    · refine List.mem_append_left _ ?_
      rw [eventFree_log frees']
      exact List.mem_append_left _ dropped
    · exact dropped
  obtain empty | failed := tornDown.good _ kept
  · exact unsent (List.length_eq_zero_iff.mp empty)
  · cases failed

/-- A relay right after the reply was sent. -/
def relaying : Transfer where
  leg side := ⟨true, true, false, [], [], some side.readCb, none, some side.eventCb, side⟩
  linked _ := true
  log := []

theorem relaying_begun : relaying.Begun :=
  ⟨⟨fun _ => rfl, fun _ => rfl, fun _ => rfl, fun _ => rfl, fun _ => rfl, fun _ => rfl⟩, rfl⟩

/-- The client sends a chunk that the remote does not take at once, and ends. -/
def parting : List TransferInput :=
  [.read .server [⟨100, by decide⟩] [⟨-1, true⟩], .again .server [], .finish .server false []]

/-- The chunk is sent, and the relay is over. -/
theorem parting_torn_down : ∃ last outs,
    Run.run step relaying (parting ++ [.writable .remote [⟨100, false⟩]]) = some (last, outs) ∧
      last.Over ∧ last.TornDown :=
  ⟨_, _, rfl, fun side => by cases side <;> rfl,
    run_torn_down relaying relaying_begun (parting ++ [.writable .remote [⟨100, false⟩]]) (by decide) rfl⟩

/-- The remote ends as well before it has taken the chunk. -/
theorem draining_end_confused :
    ¬∀ start : Transfer, start.Begun → ∀ (inputs : List TransferInput) (last : Transfer)
    (outs : List Unit), Run.run step start inputs = some (last, outs) → last.TornDown := by
  intro claim
  have tornDown := claim relaying relaying_begun (parting ++ [.finish .remote false []]) _ _ rfl
  exact absurd (tornDown.released .remote) (by decide)

end Devent.Docks.Transfer
