import Devent.Event.DocketEvent
import Devent.Event.OutputStream
import Devent.Library.Fuel

/-! The loop of `devent_write_data` over the buffer heap. A send that fails or takes
nothing returns -1 with whatever errno holds, and only errno decides whether the loop
waits for the next notification or closes the event. -/
namespace Devent

/-- errno, by the values that the sends and the loop compare it with. -/
inductive Errno where
  | again
  | wouldBlock
  | notSocket
  | other (code : Nat)
  deriving DecidableEq

def Errno.Blocks (errno : Errno) : Prop := errno = .again ∨ errno = .wouldBlock

instance : DecidablePred Errno.Blocks := fun _ => inferInstanceAs (Decidable (_ ∨ _))

/-- What send, sendto, SSL_write or write returns for n bytes, `none` for -1, and errno
as it stands behind the call. -/
structure Reply (n : Nat) where
  taken : Option (Fin (n + 1))
  errno : Errno

def Reply.result {n : Nat} (reply : Reply n) : KernelResult :=
  match reply.taken with
  | none => .failed (decide (reply.errno = .notSocket))
  | some r => .took r.val

/-- The replies to the first call and to the write(2) behind ENOTSOCK. -/
structure SendReplies (n : Nat) where
  first : Reply n
  retry : Reply n

def SendReplies.errno {n : Nat} (replies : SendReplies n) : Errno :=
  if replies.first.result = .failed true then replies.retry.errno else replies.first.errno

/-- The second argument of the event callback. -/
def deventWrite : Nat := 2

def deventError : Nat := 8

/-- What one `devent_write_data` does itself, in order. -/
inductive WriteAction where
  | send (wr : Int) (errno : Errno)
  | update (events : Interest)
  | close (what : Nat)
  | writeCb
  deriving DecidableEq

namespace WriteAction

def isSend : WriteAction → Bool
  | .send _ _ => true
  | _ => false

def attempts (log : List WriteAction) : Nat := log.countP isSend

@[simp] theorem attempts_nil : attempts [] = 0 := rfl

@[simp] theorem attempts_cons (action : WriteAction) (log : List WriteAction) :
    attempts (action :: log) = attempts log + if action.isSend then 1 else 0 := List.countP_cons

end WriteAction

/-- The kernel answers n bytes after what has been done so far. -/
abbrev Kernel := List WriteAction → (n : Nat) → SendReplies n

/-- The event that writes, with its out-buffer in the buffer heap and errno. -/
structure Writer where
  world : World
  out : Nat
  ev : Interest
  filters : Interest
  eventCb : Bool
  writeCb : Bool
  isOpen : Bool
  errno : Errno

namespace Writer

def outBuffer (w : Writer) : Option DocketBuffer := w.world.buffer w.out

/-- A callback of the event. Whatever it does, an event that it leaves open keeps its
out-buffer, which only `DocketEvent_free` releases. -/
structure Callback where
  run : Writer → Writer
  keeps : ∀ w, w.outBuffer.isSome = true → (run w).isOpen = true → (run w).outBuffer.isSome = true

def headLen (w : Writer) : Nat :=
  (w.outBuffer.bind fun buffer => buffer.list.head?).elim 0 fun a => (w.world.pool.heap a).len

def setWrite (w : Writer) (enable : Bool) : Writer := { w with ev := { w.ev with write := enable } }

def updateEvents (w : Writer) : Writer := { w with filters := w.ev }

/-- `DocketBuffer_send`; the fault is an access outside the heap. -/
def send (kernel : Kernel) (log : List WriteAction) (w : Writer) : Outcome Unit (Writer × Int) :=
  let replies := kernel log w.headLen
  match w.world.send w.out replies.first.result replies.retry.result with
  | none => .fault ()
  | some (world, wr, _) => .value ({ w with world, errno := replies.errno }, wr)

/-- `DocketEvent_free`. -/
def free (w : Writer) : Outcome Unit Writer :=
  match w.world.free w.out with
  | none => .fault ()
  | some world => .value { w with world, ev := deventNone, filters := deventNone, isOpen := false }

/-- `devent_close_internal`; the event is looked up again behind its callback. -/
def closeInternal (eventCb : Callback) (w : Writer) : Outcome Unit Writer :=
  let w := { w with ev := deventNone }
  let w := if w.eventCb then eventCb.run w else w
  if w.isOpen then w.free else .value w

end Writer

/-- Where the loop leaves the event, what was done on the way, and whether
`devent_write_data` returns from inside it. -/
structure LoopEnd where
  writer : Writer
  log : List WriteAction
  returned : Bool

namespace Writer

def closed (eventCb : Callback) (w : Writer) (log : List WriteAction) : Outcome Unit LoopEnd := do
  let w ← w.closeInternal eventCb
  return ⟨w, log ++ [.close (deventWrite ||| deventError)], true⟩

/-- The while loop of `devent_write_data`. -/
def sendLoop (kernel : Kernel) (eventCb : Callback) : Nat → Writer → List WriteAction → Outcome Unit LoopEnd
  | 0, _, _ => .running
  | fuel + 1, w, log =>
    match w.outBuffer with
    | none => .fault ()
    | some buffer =>
      if w.ev.write = true ∧ 0 < buffer.length then do
        let (w, wr) ← w.send kernel log
        let log := log ++ [.send wr w.errno]
        if wr = -1 then
          if w.errno.Blocks then
            let w := (w.setWrite false).updateEvents
            sendLoop kernel eventCb fuel w (log ++ [.update w.ev])
          else w.closed eventCb log
        else if wr = 0 then w.closed eventCb log
        else sendLoop kernel eventCb fuel w log
      else return ⟨w, log, false⟩

/-- What is in front of the write callback. -/
def sendOrArm (kernel : Kernel) (eventCb : Callback) (fuel : Nat) (w : Writer) : Outcome Unit LoopEnd :=
  match w.outBuffer with
  | none => .fault ()
  | some buffer =>
    if w.ev.write = true ∧ 0 < buffer.length then w.sendLoop kernel eventCb fuel []
    else if w.ev.write = false then
      let w := (w.setWrite true).updateEvents
      return ⟨w, [.update w.ev], false⟩
    else return ⟨w, [], false⟩

end Writer

/-- The end of `devent_write_data`. -/
def LoopEnd.finish (writeCb : Writer.Callback) (ended : LoopEnd) : Writer × List WriteAction :=
  if ended.returned = false ∧ ended.writer.writeCb = true then
    (writeCb.run ended.writer, ended.log ++ [.writeCb])
  else (ended.writer, ended.log)

namespace Writer

/-- `devent_write_data`. -/
def writeData (kernel : Kernel) (eventCb writeCb : Callback) (fuel : Nat) (w : Writer) :
    Outcome Unit (Writer × List WriteAction) := do
  let ended ← w.sendOrArm kernel eventCb fuel
  return ended.finish writeCb

/-- The out-buffer holds these chunks, none of them empty, and its cached length is theirs. -/
structure Queueing (w : Writer) (buffer : DocketBuffer) : Prop where
  held : w.outBuffer = some buffer
  owned : Pool.Owned w.world.pool buffer.list
  filled : Pool.Filled w.world.pool buffer.list
  counted : buffer.length = (w.world.pool.lens buffer.list).sum

variable {w w' : Writer} {buffer : DocketBuffer} {kernel : Kernel} {eventCb writeCb : Callback}
  {log : List WriteAction} {ended : LoopEnd}
open Pool World WriteAction

/-- Every buffer of a reachable heap is one that the loop can send from. -/
theorem queueing_of_separated (separated : Separated w.world) (held : w.outBuffer = some buffer) :
    w.Queueing buffer := by
  have queued := separated.queued held
  refine ⟨held, separated.owned held, queued.filled, ?_⟩
  have lengths : (w.world.pool.lens buffer.list) = (w.world.pool.chunks buffer.list).map List.length := by
    rw [Pool.lens, Pool.chunks, List.map_map]
    exact List.map_congr_left fun a member => (Buffer.content_length (queued.filled a member).2).symm
  rw [queued.counted, lengths, ← List.length_flatten]
  rfl

theorem Queueing.length_pos_iff (queueing : w.Queueing buffer) : 0 < buffer.length ↔ buffer.list ≠ [] := by
  rw [queueing.counted]
  cases chunks : buffer.list with
  | nil => simp [Pool.lens]
  | cons head rest =>
    have sound := queueing.filled head (chunks ▸ List.mem_cons_self)
    have positive := sound.1
    simp only [Pool.lens, List.map_cons, List.sum_cons, ne_eq, reduceCtorEq, not_false_eq_true, iff_true]
    omega

theorem Reply.result_le {n r : Nat} {reply : Reply n} (took : reply.result = .took r) : r ≤ n := by
  unfold Reply.result at took
  split at took
  · cases took
  · cases took
    exact Nat.le_of_lt_succ (Fin.isLt _)

/-- Neither call takes more than it is offered. -/
theorem SendReplies.took_le {n r : Nat} {replies : SendReplies n}
    (took : replies.first.result.orWrite replies.retry.result = .took r) : r ≤ n := by
  unfold KernelResult.orWrite at took
  split at took
  · exact Reply.result_le took
  · exact Reply.result_le took

/-- One send fails, or takes the head chunk out of the buffer. -/
theorem Queueing.send (queueing : w.Queueing buffer) (kernel : Kernel) (log : List WriteAction)
    (filled : 0 < buffer.length) : ∃ errno,
      w.send kernel log = .value ({ w with errno }, -1) ∨
      ∃ world buffer' r, w.send kernel log = .value ({ w with world, errno }, r) ∧ 0 < r ∧
        Queueing { w with world, errno } buffer' ∧ buffer'.list.length + 1 = buffer.list.length := by
  obtain ⟨head, rest, chunks⟩ := List.exists_cons_of_ne_nil (queueing.length_pos_iff.mp filled)
  have offered : w.headLen = (w.world.pool.heap head).len := by
    rw [headLen, queueing.held, Option.bind_some, chunks]
    rfl
  generalize replies : kernel log w.headLen = answers
  refine ⟨answers.errno, ?_⟩
  obtain ⟨pool', framed, heap, sent⟩ := World.send_spec answers.first.result answers.retry.result
    queueing.held chunks queueing.owned queueing.filled
  rcases answer : answers.first.result.orWrite answers.retry.result with _ | r
  · left
    simp only [Writer.send, replies, sent, answer]
  rcases r with _ | r
  · left
    simp only [Writer.send, replies, sent, answer]
  right
  have fits : ¬r + 1 > (w.world.pool.heap head).len := by
    have bound := SendReplies.took_le answer
    omega
  have after := World.buffer_set (some ⟨buffer.length - (w.world.pool.heap head).len, rest⟩) pool'
    queueing.held w.out
  rw [if_pos rfl] at after
  refine ⟨⟨pool', w.world.buffers.set w.out (some ⟨buffer.length - (w.world.pool.heap head).len, rest⟩)⟩,
    ⟨buffer.length - (w.world.pool.heap head).len, rest⟩, (r + 1 : Nat), ?_, by omega, ?_, ?_⟩
  · simp only [Writer.send, replies, sent, answer, if_neg fits]
  · constructor
    · exact after
    · exact framed.owned
    · intro a member
      rw [heap]
      exact queueing.filled a (chunks ▸ List.mem_cons_of_mem head member)
    · have counted := queueing.counted
      rw [chunks, Pool.lens, List.map_cons, List.sum_cons] at counted
      simp only [Pool.lens, heap]
      omega
  · rw [chunks, List.length_cons]

/-- The queue has been sent. -/
def Emptied (w : Writer) : Prop := ∃ buffer, w.outBuffer = some buffer ∧ buffer.length = 0 ∧ buffer.list = []

/-- The last send failed with EAGAIN or EWOULDBLOCK, and DEVENT_WRITE has been cleared. -/
def Blocked (w : Writer) (log : List WriteAction) : Prop :=
  w.ev.write = false ∧ w.filters = w.ev ∧
    ∃ before errno, errno.Blocks ∧ log = before ++ [.send (-1) errno, .update w.ev]

/-- The last send failed otherwise, and the event has been closed with an error. -/
def Closed (w : Writer) (log : List WriteAction) : Prop :=
  w.isOpen = false ∧ ∃ before errno, ¬errno.Blocks ∧
    log = before ++ [.send (-1) errno, .close (deventWrite ||| deventError)]

/-- How the loop ends. -/
inductive Ended : LoopEnd → Prop
  | emptied (w : Writer) (log : List WriteAction) : Emptied w → Ended ⟨w, log, false⟩
  | blocked (w : Writer) (log : List WriteAction) : Blocked w log → Ended ⟨w, log, false⟩
  | closed (w : Writer) (log : List WriteAction) : Closed w log → Ended ⟨w, log, true⟩

theorem free_spec (held : w.outBuffer.isSome = true) : ∃ w', w.free = .value w' ∧ w'.isOpen = false := by
  obtain ⟨buffer, here⟩ := Option.isSome_iff_exists.mp held
  have freed : w.world.free w.out = some ⟨{ w.world.pool with
      bufferPool := w.world.pool.bufferPool.map (· ++ buffer.list) }, w.world.buffers.set w.out none⟩ := by
    have slot : w.world.buffer w.out = some buffer := here
    simp [World.free, slot]
  simp only [Writer.free, freed, Outcome.value.injEq, exists_eq_left']

theorem closeInternal_spec (eventCb : Callback) (held : w.outBuffer.isSome = true) :
    ∃ w', w.closeInternal eventCb = .value w' ∧ w'.isOpen = false := by
  have called : ∀ called : Writer, (called.isOpen = true → called.outBuffer.isSome = true) →
      ∃ w', (if called.isOpen then called.free else .value called) = .value w' ∧ w'.isOpen = false := by
    intro called keeps
    by_cases registered : called.isOpen = true
    · rw [if_pos registered]
      exact free_spec (keeps registered)
    · rw [if_neg registered]
      exact ⟨called, rfl, Bool.eq_false_of_not_eq_true registered⟩
  refine called _ ?_
  split
  · exact eventCb.keeps _ held
  · exact fun _ => held

theorem closed_spec (eventCb : Callback) (log : List WriteAction) (held : w.outBuffer.isSome = true) :
    ∃ w', w.closed eventCb log = .value ⟨w', log ++ [.close (deventWrite ||| deventError)], true⟩ ∧
      w'.isOpen = false := by
  obtain ⟨w', done, gone⟩ := closeInternal_spec eventCb held
  refine ⟨w', ?_, gone⟩
  rw [Writer.closed, done]
  rfl

theorem sendLoop_stops (kernel : Kernel) (eventCb : Callback) (log : List WriteAction)
    (held : w.outBuffer = some buffer) (stop : w.ev.write = false ∨ buffer.length = 0) (fuel : Nat) :
    w.sendLoop kernel eventCb (fuel + 1) log = .value ⟨w, log, false⟩ := by
  have done : ¬(w.ev.write = true ∧ 0 < buffer.length) := by
    rintro ⟨enabled, filled⟩
    obtain disabled | empty := stop
    · rw [enabled] at disabled
      cases disabled
    · omega
  simp only [sendLoop, held, if_neg done, Outcome.pure_eq]

/-- A failed send is the last: it ends the loop through the cleared bit or closes the event. -/
theorem failedSend_ends (kernel : Kernel) (eventCb : Callback) (log : List WriteAction) {errno : Errno}
    (queueing : w.Queueing buffer) (entered : w.ev.write = true ∧ 0 < buffer.length)
    (sent : w.send kernel log = .value ({ w with errno }, -1)) : ∃ ended,
      (∀ fuel, w.sendLoop kernel eventCb (fuel + 2) log = .value ended) ∧
      (∃ more, ended.log = log ++ more ∧ attempts more = 1 ∧ .writeCb ∉ more) ∧ Ended ended := by
  by_cases blocks : errno.Blocks
  · have stopped : (({ w with errno } : Writer).setWrite false).updateEvents.outBuffer = some buffer :=
      queueing.held
    refine ⟨⟨(({ w with errno } : Writer).setWrite false).updateEvents,
        log ++ [.send (-1) errno] ++ [.update ⟨w.ev.read, false⟩], false⟩, fun fuel => ?_,
      ⟨[.send (-1) errno, .update ⟨w.ev.read, false⟩], by simp, by simp [isSend], by simp⟩,
      .blocked _ _ ⟨rfl, rfl, log, errno, blocks, by simp [setWrite, updateEvents]⟩⟩
    have done := sendLoop_stops kernel eventCb (log ++ [.send (-1) errno] ++ [.update ⟨w.ev.read, false⟩])
      stopped (.inl rfl) fuel
    rw [sendLoop, queueing.held]
    simp only [if_pos entered, sent, Outcome.value_bind, if_true, if_pos blocks]
    exact done
  · obtain ⟨w', done, gone⟩ := closed_spec (w := { w with errno }) eventCb (log ++ [.send (-1) errno])
      (Option.isSome_iff_exists.mpr ⟨buffer, queueing.held⟩)
    refine ⟨⟨w', log ++ [.send (-1) errno] ++ [.close (deventWrite ||| deventError)], true⟩, fun fuel => ?_,
      ⟨[.send (-1) errno, .close (deventWrite ||| deventError)], by simp, by simp [isSend], by simp⟩,
      .closed w' _ ⟨gone, log, errno, blocks, by simp⟩⟩
    simp only [sendLoop, queueing.held, if_pos entered, sent, Outcome.value_bind, if_true, if_neg blocks, done]

/-- The loop makes at most one attempt for each chunk. The induction is on the number of
chunks, which every attempt lowers that does not end the loop. -/
theorem sendLoop_spec (kernel : Kernel) (eventCb : Callback) (log : List WriteAction)
    (queueing : w.Queueing buffer) (enabled : w.ev.write = true) : ∃ ended,
      (∀ fuel, buffer.list.length + 1 ≤ fuel → w.sendLoop kernel eventCb fuel log = .value ended) ∧
      (∃ more, ended.log = log ++ more ∧ attempts more ≤ buffer.list.length ∧ .writeCb ∉ more) ∧
      Ended ended := by
  induction chunks : buffer.list.length generalizing w buffer log with
  | zero =>
    have list : buffer.list = [] := List.length_eq_zero_iff.mp chunks
    have empty : buffer.length = 0 := by
      rw [queueing.counted, list]
      rfl
    refine ⟨⟨w, log, false⟩, ?_, ⟨[], by simp⟩, .emptied w log ⟨buffer, queueing.held, empty, list⟩⟩
    intro fuel enough
    obtain ⟨fuel, rfl⟩ := Nat.exists_eq_add_of_le' enough
    exact sendLoop_stops kernel eventCb log queueing.held (.inr empty) fuel
  | succ n ih =>
    have filled : 0 < buffer.length := by
      apply queueing.length_pos_iff.mpr
      rintro list
      rw [list] at chunks
      cases chunks
    have entered : w.ev.write = true ∧ 0 < buffer.length := ⟨enabled, filled⟩
    obtain ⟨errno, sent | ⟨world, buffer', r, sent, positive, queueing', fewer⟩⟩ :=
      queueing.send kernel log filled
    · obtain ⟨ended, done, ⟨more, path, once, silent⟩, how⟩ :=
        failedSend_ends kernel eventCb log queueing entered sent
      refine ⟨ended, fun fuel enough => ?_, ⟨more, path, by omega, silent⟩, how⟩
      obtain ⟨fuel, rfl⟩ := Nat.exists_eq_add_of_le' (Nat.le_trans (Nat.le_add_left 2 n) enough)
      exact done fuel
    · have left : buffer'.list.length = n := by omega
      obtain ⟨ended, done, ⟨more, path, few, silent⟩, how⟩ :=
        ih (log ++ [.send r errno]) queueing' enabled left
      refine ⟨ended, ?_, ⟨.send r errno :: more, ?_, ?_, ?_⟩, how⟩
      · intro fuel enough
        obtain ⟨fuel, rfl⟩ := Nat.exists_eq_add_of_le' (Nat.le_trans (Nat.le_add_left 1 (n + 1)) enough)
        have failed : ¬r = -1 := by omega
        have none : ¬r = 0 := by omega
        rw [sendLoop, queueing.held]
        simp only [if_pos entered, sent, Outcome.value_bind, if_neg failed, if_neg none]
        exact done fuel (by omega)
      · rw [path, List.append_assoc]
        rfl
      · simp only [attempts_cons, isSend, if_true]
        omega
      · simpa using silent

theorem Ended.cases (how : Ended ended) :
    Emptied ended.writer ∨ Blocked ended.writer ended.log ∨
      (ended.returned = true ∧ Closed ended.writer ended.log) := by
  cases how with
  | emptied w log empty => exact .inl empty
  | blocked w log blocked => exact .inr (.inl blocked)
  | closed w log closed => exact .inr (.inr ⟨rfl, closed⟩)

theorem attempts_finish (writeCb : Callback) (ended : LoopEnd) :
    attempts (ended.finish writeCb).2 = attempts ended.log := by
  rw [LoopEnd.finish]
  split
  · rw [attempts, List.countP_append]
    rfl
  · rfl

theorem finish_returned (writeCb : Callback) (returned : ended.returned = true) :
    ended.finish writeCb = (ended.writer, ended.log) := by
  have not : ¬(ended.returned = false ∧ ended.writer.writeCb = true) := by simp [returned]
  rw [LoopEnd.finish, if_neg not]

/-- With the bit set the loop runs, on an empty queue for no round; without it the event
is registered for writing. -/
theorem sendOrArm_spec (kernel : Kernel) (eventCb : Callback) (queueing : w.Queueing buffer) : ∃ ended,
    (∀ fuel, buffer.list.length + 1 ≤ fuel → w.sendOrArm kernel eventCb fuel = .value ended) ∧
      attempts ended.log ≤ buffer.list.length ∧ .writeCb ∉ ended.log ∧
      (w.ev.write = true → Ended ended) := by
  by_cases enabled : w.ev.write = true
  · obtain ⟨ended, done, ⟨more, path, few, silent⟩, how⟩ :=
      sendLoop_spec kernel eventCb [] queueing enabled
    rw [List.nil_append] at path
    refine ⟨ended, ?_, path ▸ few, path ▸ silent, fun _ => how⟩
    intro fuel enough
    have reached := done fuel enough
    by_cases filled : 0 < buffer.length
    · simp only [sendOrArm, queueing.held, if_pos (And.intro enabled filled), reached]
    · obtain ⟨rest, rfl⟩ := Nat.exists_eq_add_of_le' (Nat.le_trans (Nat.le_add_left 1 _) enough)
      rw [sendLoop_stops kernel eventCb [] queueing.held (.inr (by omega)) rest] at reached
      simp [sendOrArm, queueing.held, enabled, filled, reached]
  · have disabled := Bool.eq_false_of_not_eq_true enabled
    refine ⟨⟨(w.setWrite true).updateEvents, [.update ⟨w.ev.read, true⟩], false⟩, ?_, ?_, ?_, ?_⟩
    · intro fuel _
      simp [sendOrArm, queueing.held, disabled, setWrite, updateEvents]
    · simp [isSend]
    · simp
    · exact fun set => absurd set enabled

/-- For every sequence of kernel answers the loop ends within one attempt more than there
are chunks, and leaves the queue empty, the event waiting, or the event closed. -/
theorem write_data_ends (kernel : Kernel) (eventCb writeCb : Callback) (queueing : w.Queueing buffer) :
    ∃ ended, (∀ fuel, buffer.list.length + 1 ≤ fuel → w.sendOrArm kernel eventCb fuel = .value ended ∧
        w.writeData kernel eventCb writeCb fuel = .value (ended.finish writeCb)) ∧
      attempts (ended.finish writeCb).2 ≤ buffer.list.length + 1 ∧
      (w.ev.write = true → Emptied ended.writer ∨ Blocked ended.writer ended.log ∨
        (Closed ended.writer ended.log ∧ .writeCb ∉ (ended.finish writeCb).2)) := by
  obtain ⟨ended, done, few, silent, how⟩ := sendOrArm_spec kernel eventCb queueing
  refine ⟨ended, fun fuel enough => ⟨done fuel enough, ?_⟩, ?_, fun enabled => ?_⟩
  · simp only [writeData, done fuel enough, Outcome.value_bind, Outcome.pure_eq]
  · rw [attempts_finish]
    omega
  · obtain emptied | blocked | ⟨returned, closed⟩ := (how enabled).cases
    · exact .inl emptied
    · exact .inr (.inl blocked)
    · refine .inr (.inr ⟨closed, ?_⟩)
      rw [finish_returned writeCb returned]
      exact silent

def idle : Callback := ⟨id, fun _ held _ => held⟩

/-- One chunk of two bytes is queued, and errno still says EAGAIN. -/
def oneChunk : Writer where
  world := ⟨⟨fun a => { OutputStream.zeroHeap a with len := 2 }, [1], none⟩, [some ⟨2, [1]⟩]⟩
  out := 0
  ev := deventReadWrite
  filters := deventNone
  eventCb := true
  writeCb := true
  isOpen := true
  errno := .again

/-- Every call takes nothing and leaves errno as it was. -/
def takesNothing : Kernel := fun _ _ => ⟨⟨some 0, .again⟩, ⟨some 0, .again⟩⟩

theorem zero_write_ends : ∃ ended, (∀ fuel, 2 ≤ fuel → oneChunk.sendOrArm takesNothing idle fuel = .value ended ∧
      oneChunk.writeData takesNothing idle idle fuel = .value (ended.finish idle)) ∧
    attempts (ended.finish idle).2 ≤ 2 ∧ (oneChunk.ev.write = true → Emptied ended.writer ∨
      Blocked ended.writer ended.log ∨ (Closed ended.writer ended.log ∧ .writeCb ∉ (ended.finish idle).2)) := by
  have queueing : oneChunk.Queueing ⟨2, [1]⟩ := by
    constructor
    · rfl
    · exact ⟨by decide, by decide⟩
    · intro a _
      have fits : 0 + 2 ≤ bufferSize := by decide
      exact ⟨Nat.zero_lt_two, fits⟩
    · rfl
  exact write_data_ends takesNothing idle idle queueing

end Writer

end Devent
