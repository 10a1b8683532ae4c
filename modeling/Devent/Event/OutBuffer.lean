import Devent.Event.DocketEvent
import Devent.Event.OutputStream

/-! The out-buffer of an event is a chunk list of the buffer heap: a write cuts its
data, a move appends, a send drops the head chunk or changes nothing. -/
namespace Devent.DocketEvent

open Pool World

/-- Buffer `i` holds chunks of the lengths that the event has queued. -/
def Holds (w : World) (i : Nat) (event : DocketEvent) : Prop :=
  ∃ buffer, w.buffer i = some buffer ∧ w.pool.lens buffer.list = event.outBuffer.map Subtype.val

variable {w w' : World} {i : Nat} {event : DocketEvent} {alloc : Allocator}

/-- The cached length of the buffer is the length that the event reads. -/
theorem Holds.outLength {buffer : DocketBuffer} (holds : Holds w i event) (separated : Separated w)
    (held : w.buffer i = some buffer) : buffer.length = event.outLength := by
  obtain ⟨same, here, lens⟩ := holds
  cases here.symm.trans held
  have queued := separated.queued held
  rw [queued.counted, DocketEvent.outLength, ← lens, Pool.flat, Pool.chunks, List.length_flatten,
    List.map_map]
  apply congrArg List.sum
  apply List.map_congr_left
  intro a member
  exact Buffer.content_length (queued.filled a member).2

theorem Holds.write {data : Option (List Byte)} {result : BufferResult} (holds : Holds w i event)
    (separated : Separated w) (written : w.step alloc (.write (some i) data) = some (w', result)) :
    Holds w' i { event with outBuffer := event.outBuffer ++ chunksOf (data.getD []).length } := by
  obtain ⟨buffer, held, lens⟩ := holds
  obtain ⟨buffer', pool', wrote, -, -, sizes⟩ :=
    DocketBuffer.write_spec alloc data (separated.owned held) (separated.queued held)
  simp only [World.step, held, wrote, Option.bind_eq_bind, Option.bind_some, Option.pure_def,
    Option.some.injEq, Prod.mk.injEq] at written
  obtain ⟨rfl, -⟩ := written
  have after := buffer_set (some buffer') pool' held i
  rw [if_pos rfl] at after
  refine ⟨buffer', after, ?_⟩
  rw [List.map_append, ← lens]
  exact sizes

theorem Holds.moveto {source : Nat} {chunks : List Chunk} {from' : DocketBuffer} {result : BufferResult}
    (holds : Holds w i event) (apart : source ≠ i) (held : w.buffer source = some from')
    (lens : w.pool.lens from'.list = chunks.map Subtype.val)
    (moved : w.step alloc (.moveto i source) = some (w', result)) :
    Holds w' i { event with outBuffer := event.outBuffer ++ chunks } := by
  obtain ⟨buffer, here, sizes⟩ := holds
  have emptied := buffer_set (some ⟨0, []⟩) w.pool held i
  rw [if_neg apart, here] at emptied
  simp only [World.step, World.moveto, held, emptied, Option.bind_eq_bind, Option.bind_some,
    Option.pure_def, Option.some.injEq, Prod.mk.injEq] at moved
  obtain ⟨rfl, -⟩ := moved
  have after := buffer_set (some ⟨buffer.length + from'.length, buffer.list ++ from'.list⟩) w.pool emptied i
  rw [if_pos rfl] at after
  refine ⟨_, after, ?_⟩
  rw [List.map_append, ← sizes, ← lens]
  exact List.map_append

/-- A send drops the head chunk, or fails and changes nothing. -/
theorem Holds.send {s s' : OutputStream} {first retry : KernelResult} {value : Int}
    (holds : Holds s.world s.out event) (separated : Separated s.world)
    (sent : s.step alloc (.send first retry) = some (s', value)) :
    (value = -1 ∧ Holds s'.world s'.out event) ∨
      (0 < value ∧ Holds s'.world s'.out { event with outBuffer := event.outBuffer.tail }) := by
  obtain ⟨buffer, held, lens⟩ := holds
  obtain ⟨rfl, failed, -⟩ | ⟨head, rest, r, pool', chunks, -, positive, -, rfl, -, heap, rfl⟩ :=
    OutputStream.send_cases separated held sent
  · exact .inl ⟨failed, buffer, held, lens⟩
  · right
    constructor
    · exact Int.natCast_pos.mpr positive
    · have after := buffer_set (some ⟨buffer.length - (s.world.pool.heap head).len, rest⟩) pool' held s.out
      rw [if_pos rfl] at after
      refine ⟨_, after, ?_⟩
      rw [chunks, Pool.lens, List.map_cons] at lens
      rw [List.map_tail, ← lens, List.tail_cons, Pool.lens, heap]

end Devent.DocketEvent
