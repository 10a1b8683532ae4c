import Devent.Event.BufferProofs
import Mathlib.Data.List.MinMax

/-! `DocketBuffer_send` and the byte stream an out-buffer stands for: what the
kernel has accepted, then what is still queued. The head chunk leaves the buffer
as a whole, whatever part of it the kernel took. -/
namespace Devent

/-- The result of one send, sendto, SSL_write or write on the head chunk. -/
inductive KernelResult where
  | failed (notSocket : Bool)
  | took (r : Nat)
  deriving DecidableEq

/-- `wr == -1 && errno == ENOTSOCK` retries with write(2). -/
def KernelResult.orWrite : KernelResult → KernelResult → KernelResult
  | .failed true, retry => retry
  | result, _ => result

/-- The kernel took none or all of the n bytes it was offered. -/
def KernelResult.whole (n : Nat) : KernelResult → Bool
  | .failed _ => true
  | .took r => r = 0 || r = n

namespace World

/-- `DocketBuffer_send`, with the bytes the kernel took. No kernel call takes
more than it is offered, and an empty buffer has no head to read. -/
def send (w : World) (i : Nat) (first retry : KernelResult) : Option (World × Int × List Byte) := do
  let buffer ← w.buffer i
  match buffer.list with
  | [] => none
  | head :: rest =>
    let chunk ← w.pool.load head
    let bytes ← chunk.slice chunk.len
    match first.orWrite retry with
    | .failed _ | .took 0 => return (w, -1, [])
    | .took r =>
      if r > chunk.len then none
      else
        let pool ← w.pool.bufferRelease head
        return (⟨pool, w.buffers.set i (some ⟨buffer.length - chunk.len, rest⟩)⟩, r, bytes.take r)

section Sending

variable {w : World} {i head : Nat} {rest : List Addr} {buffer : DocketBuffer}
open Pool

/-- A send of a queued head, by what the kernel answers. -/
theorem send_spec (first retry : KernelResult) (held : w.buffer i = some buffer)
    (chunks : buffer.list = head :: rest) (owned : Owned w.pool buffer.list)
    (filled : Filled w.pool buffer.list) : ∃ pool', Framed w.pool pool' buffer.list rest ∧
      pool'.heap = w.pool.heap ∧
      w.send i first retry = match first.orWrite retry with
        | .failed _ | .took 0 => some (w, -1, [])
        | .took r => if r > (w.pool.heap head).len then none
            else some (⟨pool', w.buffers.set i (some ⟨buffer.length - (w.pool.heap head).len, rest⟩)⟩,
              r, (w.pool.heap head).content.take r) := by
  rw [chunks] at owned filled ⊢
  have live := owned.mem_live List.mem_cons_self
  have sound := filled head List.mem_cons_self
  have whole : (w.pool.heap head).content.take (w.pool.heap head).len = (w.pool.heap head).content :=
    List.take_of_length_le (Nat.le_of_eq (Buffer.content_length sound.2))
  obtain ⟨pool', released, heap, framed⟩ := bufferRelease_spec owned
  refine ⟨pool', framed, heap, ?_⟩
  simp only [World.send, held, chunks, load_eq live, Buffer.slice_eq sound.2 (Nat.le_refl _), whole,
    Option.bind_eq_bind, Option.bind_some, Option.pure_def, released]

end Sending

end World

/-- One out-buffer among all buffers, with the bytes put into it and the bytes
the kernel has accepted from it. -/
structure OutputStream where
  world : World
  out : Nat
  put : List Byte
  accepted : List Byte

/-- Calls that do not take bytes out of the buffer other than by sending. -/
inductive StreamOp where
  | write (data : Option (List Byte))
  | moveto (source : Nat)
  | send (first retry : KernelResult)
  | other (op : BufferOp)

namespace BufferOp

/-- The call does not name the buffer as one it changes. -/
def spares (out : Nat) : BufferOp → Bool
  | .write (some i) _ | .read i _ _ | .readFull i _ _ | .free i => i ≠ out
  | .moveto dest source => dest ≠ out && source ≠ out
  | _ => true

end BufferOp

namespace OutputStream

def pending (s : OutputStream) : List Byte := (s.world.view.queue s.out).getD []

/-- The bytes a move brings in: all of the source, unless it is the buffer itself. -/
def incoming (s : OutputStream) (source : Nat) : List Byte :=
  if source = s.out then [] else (s.world.view.queue source).getD []

def step (alloc : Allocator) (s : OutputStream) : StreamOp → Option (OutputStream × Int)
  | .write data => do
    let (world, result) ← s.world.step alloc (.write (some s.out) data)
    return ({ s with world, put := s.put ++ data.getD [] }, result.value)
  | .moveto source => do
    let (world, result) ← s.world.step alloc (.moveto s.out source)
    return ({ s with world, put := s.put ++ s.incoming source }, result.value)
  | .send first retry => do
    let (world, value, taken) ← s.world.send s.out first retry
    return ({ s with world, accepted := s.accepted ++ taken }, value)
  | .other op =>
    if op.spares s.out then do
      let (world, result) ← s.world.step alloc op
      return ({ s with world }, result.value)
    else none

/-- A new out-buffer, the first of the process. -/
def start (heap : Addr → Buffer) : OutputStream := ⟨⟨⟨heap, [], none⟩, [some ⟨0, []⟩]⟩, 0, [], []⟩

/-- Nothing lost, duplicated or reordered, and the cached length is exact. -/
def Intact (s : OutputStream) : Prop :=
  ∃ buffer, s.world.buffer s.out = some buffer ∧ buffer.length = s.pending.length ∧
    s.accepted ++ s.pending = s.put

def headLen (s : OutputStream) : Nat :=
  ((s.world.buffer s.out).bind fun buffer => buffer.list.head?).elim 0 fun a => (s.world.pool.heap a).len

/-- No kernel call is a short write of the head chunk. -/
def WholeChunk (s : OutputStream) : StreamOp → Prop
  | .send first retry => (first.orWrite retry).whole s.headLen = true
  | _ => True

instance (s : OutputStream) (op : StreamOp) : Decidable (s.WholeChunk op) :=
  match op with
  | .send _ _ => inferInstanceAs (Decidable (_ = true))
  | .write _ | .moveto _ | .other _ => .isTrue trivial

variable {s s' : OutputStream} {buffer : DocketBuffer} {value : Int}
open Pool World

theorem pending_eq (held : s.world.buffer s.out = some buffer) :
    s.pending = s.world.pool.flat buffer.list := by
  rw [pending, queue_view, held]
  rfl

/-- What sending can do: nothing, or hand over part of the head and drop all of it. -/
theorem send_cases {alloc : Allocator} {first retry : KernelResult} (separated : Separated s.world)
    (held : s.world.buffer s.out = some buffer)
    (sent : s.step alloc (.send first retry) = some (s', value)) :
    (s' = s ∧ value = -1 ∧ (first.orWrite retry).whole s.headLen = true) ∨
    ∃ head rest r pool', buffer.list = head :: rest ∧ first.orWrite retry = .took r ∧ 0 < r ∧
      r ≤ (s.world.pool.heap head).len ∧ value = r ∧
      Framed s.world.pool pool' buffer.list rest ∧ pool'.heap = s.world.pool.heap ∧
      s' = { s with
        world := ⟨pool', s.world.buffers.set s.out
          (some ⟨buffer.length - (s.world.pool.heap head).len, rest⟩)⟩
        accepted := s.accepted ++ (s.world.pool.heap head).content.take r } := by
  have owned := separated.owned held
  have filled := (separated.queued held).filled
  simp only [step, Option.bind_eq_bind, Option.bind_eq_some_iff, Option.pure_def, Option.some.injEq,
    Prod.mk.injEq, Prod.exists] at sent
  obtain ⟨world, value', taken, called, rfl, rfl⟩ := sent
  rcases chunks : buffer.list with _ | ⟨head, rest⟩
  · simp [World.send, held, chunks] at called
  obtain ⟨pool', framed, heap, done⟩ := World.send_spec first retry held chunks owned filled
  rw [done] at called
  rcases answer : first.orWrite retry with _ | r
  · left
    simp only [answer, Option.some.injEq, Prod.mk.injEq] at called
    obtain ⟨rfl, rfl, rfl⟩ := called
    exact ⟨by rw [List.append_nil], rfl, rfl⟩
  rcases r with _ | r
  · left
    simp only [answer, Option.some.injEq, Prod.mk.injEq] at called
    obtain ⟨rfl, rfl, rfl⟩ := called
    exact ⟨by rw [List.append_nil], rfl, rfl⟩
  right
  simp only [answer] at called
  split at called
  · cases called
  next fits =>
  simp only [Option.some.injEq, Prod.mk.injEq] at called
  obtain ⟨rfl, rfl, rfl⟩ := called
  exact ⟨head, rest, r + 1, pool', rfl, rfl, by omega, by omega, rfl, chunks ▸ framed, heap, rfl⟩

structure Balanced (s : OutputStream) : Prop where
  separated : Separated s.world
  held : ∃ bytes, s.world.view.queue s.out = some bytes
  total : s.accepted ++ s.pending = s.put

theorem buffer_of_queue {w : World} {i : Nat} {bytes : List Byte} (held : w.view.queue i = some bytes) :
    ∃ buffer, w.buffer i = some buffer := by
  rw [queue_view] at held
  obtain ⟨buffer, here, _⟩ := Option.map_eq_some_iff.mp held
  exact ⟨buffer, here⟩

theorem Balanced.intact (balanced : Balanced s) : Intact s := by
  obtain ⟨bytes, queue⟩ := balanced.held
  obtain ⟨buffer, held⟩ := buffer_of_queue queue
  exact ⟨buffer, held, pending_eq held ▸ (balanced.separated.queued held).counted, balanced.total⟩

/-- A send keeps the stream intact exactly if it is not a short write. -/
theorem send_balanced_iff {alloc : Allocator} {first retry : KernelResult} (balanced : Balanced s)
    (sent : s.step alloc (.send first retry) = some (s', value)) :
    Balanced s' ↔ WholeChunk s (.send first retry) := by
  obtain ⟨bytes, queue⟩ := balanced.held
  obtain ⟨buffer, held⟩ := buffer_of_queue queue
  rcases send_cases balanced.separated held sent with ⟨rfl, _, whole⟩ |
    ⟨head, rest, r, pool', chunks, answer, positive, fits, _, framed, heap, rfl⟩
  · exact iff_of_true balanced whole
  have queued := balanced.separated.queued held
  have filled := queued.filled
  have counted := queued.counted
  rw [chunks] at filled counted framed
  have sound := filled head List.mem_cons_self
  have width := Buffer.content_length sound.2
  have same : pool'.flat rest = s.world.pool.flat rest := flat_congr fun a _ => congrFun heap a
  have before : s.pending = (s.world.pool.heap head).content ++ s.world.pool.flat rest := by
    rw [pending_eq held, chunks, flat_cons]
  have queued' : DocketBuffer.Queued pool' ⟨buffer.length - (s.world.pool.heap head).len, rest⟩
      (s.world.pool.flat rest) := by
    refine ⟨fun a member => ?_, same, ?_⟩
    · exact congrFun heap a ▸ filled a (List.mem_cons_of_mem _ member)
    · rw [flat_cons, List.length_append, width] at counted
      simp only [counted]
      omega
  have framed' : Framed s.world.pool pool' buffer.list rest := chunks ▸ framed
  obtain ⟨separated', view'⟩ := balanced.separated.framed_update
    ⟨buffer.length - (s.world.pool.heap head).len, rest⟩ held framed' queued'
  have after := buffer_set (some ⟨buffer.length - (s.world.pool.heap head).len, rest⟩) pool' held s.out
  rw [if_pos rfl] at after
  have headLen : s.headLen = (s.world.pool.heap head).len := by
    rw [OutputStream.headLen, held, Option.bind_some, chunks]
    rfl
  have whole : WholeChunk s (.send first retry) ↔ r = (s.world.pool.heap head).len := by
    have nonzero : r ≠ 0 := by omega
    simp [WholeChunk, answer, KernelResult.whole, headLen, nonzero]
  have total := balanced.total
  rw [before] at total
  rw [whole]
  constructor
  · intro balanced'
    have total' := balanced'.total
    rw [pending_eq after] at total'
    simp only [same] at total'
    rw [← total, List.append_assoc, List.append_cancel_left_eq, List.append_cancel_right_eq] at total'
    have lengths := congrArg List.length total'
    rw [List.length_take, width] at lengths
    omega
  · rintro rfl
    refine ⟨separated', ⟨s.world.pool.flat rest, ?_⟩, ?_⟩
    · rw [queue_view, after]
      exact congrArg some same
    · rw [pending_eq after]
      simp only [same]
      rw [List.take_of_length_le (Nat.le_of_eq width), List.append_assoc]
      exact total

theorem queue_set {queues : Queues} {i : Nat} {bytes : List Byte} (held : queues.queue i = some bytes)
    (slot : Option (List Byte)) (j : Nat) :
    Queues.queue (queues.set i slot) j = if i = j then slot else queues.queue j := by
  obtain ⟨bound, _⟩ := List.getElem?_eq_some_iff.mp (Option.join_eq_some_iff.mp held)
  simp only [Queues.queue, List.getElem?_set, bound, if_true]
  split <;> rfl

/-- A call that spares a buffer leaves its queue alone. -/
theorem queue_spared {queues queues' : Queues} {op : BufferOp} {result : BufferResult} {out : Nat}
    {bytes : List Byte} (spared : op.spares out = true) (held : queues.queue out = some bytes)
    (taken : queues.step op = some (queues', result)) : queues'.queue out = some bytes := by
  have other {i : Nat} {old : List Byte} (slot : Option (List Byte)) (here : queues.queue i = some old)
      (apart : i ≠ out) : Queues.queue (queues.set i slot) out = some bytes := by
    rw [queue_set here, if_neg apart, held]
  cases op with
  | new =>
    cases taken
    have slot := Option.join_eq_some_iff.mp held
    obtain ⟨bound, _⟩ := List.getElem?_eq_some_iff.mp slot
    rw [Queues.queue, List.getElem?_append_left bound, slot]
    rfl
  | write target data =>
    rcases target with _ | i
    · cases taken
      exact held
    · have apart : i ≠ out := by simpa [BufferOp.spares] using spared
      simp only [Queues.step, Option.bind_eq_bind, Option.bind_eq_some_iff, Option.pure_def,
        Option.some.injEq, Prod.mk.injEq] at taken
      obtain ⟨old, here, rfl, _⟩ := taken
      exact other _ here apart
  | read i data len | readFull i data len =>
    have apart : i ≠ out := by simpa [BufferOp.spares] using spared
    simp only [Queues.step, Option.bind_eq_bind, Option.bind_eq_some_iff, Option.pure_def,
      Option.some.injEq] at taken
    obtain ⟨old, here, taken⟩ := taken
    split at taken <;> cases taken
    · exact other _ here apart
    · exact held
  | peek i data len | peekFull i data len =>
    simp only [Queues.step, Option.bind_eq_bind, Option.bind_eq_some_iff, Option.pure_def,
      Option.some.injEq] at taken
    obtain ⟨old, here, taken⟩ := taken
    split at taken <;> cases taken <;> exact held
  | moveto dest source =>
    have apart : dest ≠ out ∧ source ≠ out := by simpa [BufferOp.spares] using spared
    simp only [Queues.step, Option.bind_eq_bind, Option.bind_eq_some_iff, Option.pure_def,
      Option.some.injEq, Prod.mk.injEq] at taken
    obtain ⟨data, here, old, there, rfl, _⟩ := taken
    rw [queue_set there, if_neg apart.1]
    exact other _ here apart.2
  | length i =>
    simp only [Queues.step, Option.bind_eq_bind, Option.bind_eq_some_iff, Option.pure_def,
      Option.some.injEq, Prod.mk.injEq] at taken
    obtain ⟨_, _, rfl, _⟩ := taken
    exact held
  | free i =>
    have apart : i ≠ out := by simpa [BufferOp.spares] using spared
    simp only [Queues.step, Option.bind_eq_bind, Option.bind_eq_some_iff, Option.pure_def,
      Option.some.injEq, Prod.mk.injEq] at taken
    obtain ⟨old, here, rfl, _⟩ := taken
    exact other _ here apart

theorem spec_of_step {alloc : Allocator} {w w' : World} {op : BufferOp} {result : BufferResult}
    (separated : Separated w) (taken : w.step alloc op = some (w', result)) :
    Separated w' ∧ w.view.step op = some (w'.view, result) := by
  rcases step_spec alloc separated op with ⟨stuck, _⟩ | ⟨next, result', done, separated', spec⟩
  · rw [stuck] at taken
    cases taken
  · rw [done] at taken
    cases taken
    exact ⟨separated', spec⟩

/-- One step keeps the stream intact unless it is a short write. -/
theorem step_balanced {alloc : Allocator} {op : StreamOp} (balanced : Balanced s)
    (whole : WholeChunk s op) (taken : s.step alloc op = some (s', value)) : Balanced s' := by
  obtain ⟨bytes, held⟩ := balanced.held
  have pending : s.pending = bytes := by rw [OutputStream.pending, held]; rfl
  have total := balanced.total
  rw [pending] at total
  cases op with
  | send first retry => exact (send_balanced_iff balanced taken).mpr whole
  | write data =>
    simp only [step, Option.bind_eq_bind, Option.bind_eq_some_iff, Option.pure_def,
      Option.some.injEq, Prod.mk.injEq] at taken
    obtain ⟨⟨world, result⟩, called, rfl, _⟩ := taken
    obtain ⟨separated, spec⟩ := spec_of_step balanced.separated called
    simp only [Queues.step, held, Option.bind_eq_bind, Option.bind_some, Option.pure_def,
      Option.some.injEq, Prod.mk.injEq] at spec
    have queue : world.view.queue s.out = some (bytes ++ data.getD []) := by
      rw [← spec.1, queue_set held, if_pos rfl]
    refine ⟨separated, ⟨_, queue⟩, ?_⟩
    simp only [OutputStream.pending, queue, Option.getD_some]
    rw [← total, List.append_assoc]
  | moveto source =>
    simp only [step, Option.bind_eq_bind, Option.bind_eq_some_iff, Option.pure_def,
      Option.some.injEq, Prod.mk.injEq] at taken
    obtain ⟨⟨world, result⟩, called, rfl, _⟩ := taken
    obtain ⟨separated, spec⟩ := spec_of_step balanced.separated called
    simp only [Queues.step, Option.bind_eq_bind, Option.bind_eq_some_iff, Option.pure_def,
      Option.some.injEq, Prod.mk.injEq] at spec
    obtain ⟨data, there, old, here, queues, _⟩ := spec
    have queue : world.view.queue s.out = some (old ++ data) := by
      rw [← queues, queue_set here, if_pos rfl]
    refine ⟨separated, ⟨_, queue⟩, ?_⟩
    simp only [OutputStream.pending, queue, Option.getD_some]
    rw [queue_set there] at here
    split at here
    · next same =>
      rw [same, held] at there
      cases there
      cases here
      simpa [incoming, same] using total
    · next apart =>
      rw [held] at here
      cases here
      simp only [incoming, if_neg apart, there, Option.getD_some, ← total, List.append_assoc]
  | other op =>
    simp only [step] at taken
    split at taken
    · next spared =>
      simp only [Option.bind_eq_bind, Option.bind_eq_some_iff, Option.pure_def,
        Option.some.injEq, Prod.mk.injEq] at taken
      obtain ⟨⟨world, result⟩, called, rfl, _⟩ := taken
      obtain ⟨separated, spec⟩ := spec_of_step balanced.separated called
      have queue := queue_spared spared held spec
      refine ⟨separated, ⟨_, queue⟩, ?_⟩
      simp only [OutputStream.pending, queue, Option.getD_some]
      exact total
    · cases taken

theorem start_balanced (heap : Addr → Buffer) : Balanced (start heap) :=
  ⟨new_spec (start_separated heap), ⟨[], rfl⟩, rfl⟩

/-- Without short writes, the bytes accepted so far and the bytes still queued
are exactly the bytes put in, at every moment. -/
theorem run_intact {alloc : Allocator} {heap : Addr → Buffer} {ops : List StreamOp} {last : OutputStream}
    {values : List Int} (whole : Run.Along (step alloc) WholeChunk (start heap) ops)
    (path : Run.run (step alloc) (start heap) ops = some (last, values)) : Intact last :=
  (Run.run_along step_balanced (start_balanced heap) whole path).intact

/-- An allocator that never reuses an address, over zeroed memory. -/
def bumpAllocator : Allocator where
  malloc live := live.foldr max 0 + 1
  fresh live member := by
    have bound : live.foldr max 0 + 1 ≤ live.foldr max 0 := List.le_max_of_le' 0 member (Nat.le_refl _)
    exact absurd bound (Nat.not_succ_le_self _)

def zeroHeap : Addr → Buffer := fun _ => ⟨0, 0, List.replicate bufferSize 0, List.length_replicate⟩

theorem short_write_loses_byte : ∃ last,
    Run.run (step bumpAllocator) (start zeroHeap)
      [.write (some [97, 98]), .send (.took 1) (.failed false)] = some (last, [2, 1]) ∧
    last.accepted ++ last.pending = [97] ∧ last.put = [97, 98] ∧ ¬ Intact last := by
  have lost : ((Run.run (step bumpAllocator) (start zeroHeap)
      [.write (some [97, 98]), .send (.took 1) (.failed false)]).map fun pair =>
        (pair.1.accepted ++ pair.1.pending, pair.1.put, pair.2)) = some ([97], [97, 98], [2, 1]) := by
    decide +kernel
  obtain ⟨⟨last, values⟩, path, observed⟩ := Option.map_eq_some_iff.mp lost
  simp only [Prod.mk.injEq] at observed
  obtain ⟨stream, put, rfl⟩ := observed
  refine ⟨last, path, stream, put, fun intact => ?_⟩
  obtain ⟨_, _, _, total⟩ := intact
  rw [stream, put] at total
  cases total

/-- A refused send, a move from a second buffer and sends of whole chunks. -/
def backPressure : List StreamOp :=
  [.write (some [97, 98]), .send (.failed false) (.took 2), .other .new,
    .other (.write (some 1) (some [99])), .moveto 1, .send (.took 2) (.failed false),
    .send (.failed true) (.took 1)]

theorem back_pressure_intact : ∃ last,
    Run.run (step bumpAllocator) (start zeroHeap) backPressure = some (last, [2, -1, 1, 1, 1, 2, 1]) ∧
    last.accepted = [97, 98, 99] ∧ Intact last := by
  have done : ((Run.run (step bumpAllocator) (start zeroHeap) backPressure).map fun pair =>
      (pair.1.accepted, pair.2)) = some ([97, 98, 99], [2, -1, 1, 1, 1, 2, 1]) := by decide +kernel
  obtain ⟨⟨last, values⟩, path, observed⟩ := Option.map_eq_some_iff.mp done
  simp only [Prod.mk.injEq] at observed
  obtain ⟨accepted, rfl⟩ := observed
  exact ⟨last, path, accepted, run_intact (by decide +kernel) path⟩

end OutputStream

end Devent
