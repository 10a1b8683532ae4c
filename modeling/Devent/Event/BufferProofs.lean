import Devent.Event.BufferQueue
import Devent.Library.Run

/-! Chunked buffers refine independent byte queues. -/
namespace Devent

namespace World
open Pool DocketBuffer

/-- Every chunk belongs to one buffer or to the free list, and each buffer is
a queue of sound chunks. -/
structure Separated (w : World) : Prop where
  pool : Owned w.pool []
  owned : ∀ {i buffer}, w.buffer i = some buffer → Owned w.pool buffer.list
  apart : ∀ {i j buffer other}, i ≠ j → w.buffer i = some buffer → w.buffer j = some other →
    ∀ a ∈ buffer.list, a ∉ other.list
  queued : ∀ {i buffer}, w.buffer i = some buffer → Queued w.pool buffer (w.pool.flat buffer.list)

def view (w : World) : Queues := w.buffers.map (Option.map fun buffer => w.pool.flat buffer.list)

variable {w : World} {i j : Nat} {buffer : DocketBuffer}

theorem queue_view (w : World) (i : Nat) :
    w.view.queue i = (w.buffer i).map fun buffer => w.pool.flat buffer.list := by
  rw [Queues.queue, view, List.getElem?_map, World.buffer]
  rcases w.buffers[i]? with _ | _ | _ <;> rfl

theorem getElem_of_buffer (here : w.buffer i = some buffer) : w.buffers[i]? = some (some buffer) :=
  Option.join_eq_some_iff.mp here

theorem buffer_set (slot : Option DocketBuffer) (pool : Pool) (here : w.buffer i = some buffer) (j : Nat) :
    (⟨pool, w.buffers.set i slot⟩ : World).buffer j = if i = j then slot else w.buffer j := by
  obtain ⟨bound, _⟩ := List.getElem?_eq_some_iff.mp (getElem_of_buffer here)
  simp only [World.buffer, List.getElem?_set, bound, if_true]
  split <;> rfl

/-- The chunks of all other buffers are untouched and not taken over. -/
def Outside (w : World) (i : Nat) (pool' : Pool) (list' : List Addr) : Prop :=
  ∀ {j other}, i ≠ j → w.buffer j = some other → ∀ a ∈ other.list,
    a ∈ pool'.live ∧ a ∉ pool'.free ++ list' ∧ pool'.heap a = w.pool.heap a

theorem Separated.outside {pool' : Pool} {list' : List Addr} (separated : Separated w)
    (here : w.buffer i = some buffer) (framed : Framed w.pool pool' buffer.list list') :
    Outside w i pool' list' := by
  intro j other different there a member
  have owned := separated.owned there
  refine framed.frame a (owned.mem_live member) ?_
  rw [List.mem_append]
  rintro (free | mine)
  · exact owned.not_free member free
  · exact separated.apart different here there a mine member

theorem Separated.ownedAfter {pool' : Pool} {list' : List Addr} {other : DocketBuffer}
    (separated : Separated w) (owned : Owned pool' list') (outside : Outside w i pool' list')
    (different : i ≠ j) (there : w.buffer j = some other) : Owned pool' other.list := by
  have before := separated.owned there
  refine ⟨List.nodup_append.mpr ⟨(List.nodup_append.mp owned.nodup).1,
    (List.nodup_append.mp before.nodup).2.1, ?_⟩, ?_⟩
  · rintro a free _ member rfl
    exact (outside different there a member).2.1 (List.mem_append_left _ free)
  · intro a member
    rcases List.mem_append.mp member with free | inList
    · exact owned.live a (List.mem_append_left _ free)
    · exact (outside different there a inList).1

/-- A change of one buffer that leaves the outside alone changes its queue only. -/
theorem view_update {pool' : Pool} {list' : List Addr} (slot : Option DocketBuffer)
    (here : w.buffer i = some buffer) (outside : Outside w i pool' list')
    (listed : ∀ buffer', slot = some buffer' → buffer'.list = list') :
    view ⟨pool', w.buffers.set i slot⟩ = w.view.set i (slot.map fun _ => pool'.flat list') := by
  apply List.ext_getElem?
  intro j
  have bound := (List.getElem?_eq_some_iff.mp (getElem_of_buffer here)).1
  simp only [view, List.getElem?_map, List.getElem?_set, List.length_map, bound, if_true]
  split
  · rcases slot with _ | buffer'
    · rfl
    · simp only [Option.map_some, listed buffer' rfl]
  · next different =>
    rcases held : w.buffers[j]? with _ | _ | other
    · rfl
    · rfl
    · have there : w.buffer j = some other := by rw [World.buffer, held]; rfl
      have same : ∀ a ∈ other.list, pool'.heap a = w.pool.heap a :=
        fun a member => (outside different there a member).2.2
      simp only [Option.map_some, flat_congr same]

/-- A change of one buffer that leaves the outside alone keeps separation and
changes its queue only. -/
theorem Separated.update {pool' : Pool} {list' : List Addr} (slot : Option DocketBuffer)
    (separated : Separated w) (here : w.buffer i = some buffer) (owned : Owned pool' list')
    (outside : Outside w i pool' list')
    (queued : ∀ buffer', slot = some buffer' →
      buffer'.list = list' ∧ Queued pool' buffer' (pool'.flat list')) :
    Separated ⟨pool', w.buffers.set i slot⟩ ∧
      view ⟨pool', w.buffers.set i slot⟩ = w.view.set i (slot.map fun _ => pool'.flat list') := by
  have cases {j : Nat} {other : DocketBuffer}
      (held : (⟨pool', w.buffers.set i slot⟩ : World).buffer j = some other) :
      (i = j ∧ slot = some other) ∨ (i ≠ j ∧ w.buffer j = some other) := by
    rw [buffer_set slot pool' here] at held
    split at held
    · next same => exact .inl ⟨same, held⟩
    · next different => exact .inr ⟨different, held⟩
  refine ⟨⟨owned.nil, ?_, ?_, ?_⟩, view_update slot here outside fun buffer' mine => (queued buffer' mine).1⟩
  · intro j other held
    rcases cases held with ⟨_, mine⟩ | ⟨different, there⟩
    · rw [(queued other mine).1]
      exact owned
    · exact separated.ownedAfter owned outside different there
  · intro j k other another different held held' a member member'
    rcases cases held with ⟨rfl, mine⟩ | ⟨left, there⟩ <;>
      rcases cases held' with ⟨same, mine'⟩ | ⟨right, there'⟩
    · exact different same
    · rw [(queued other mine).1] at member
      exact (outside right there' a member').2.1 (List.mem_append_right _ member)
    · rw [(queued another mine').1] at member'
      exact (outside left there a member).2.1 (List.mem_append_right _ member')
    · exact separated.apart different there there' a member member'
  · intro j other held
    rcases cases held with ⟨_, mine⟩ | ⟨different, there⟩
    · rw [(queued other mine).1]
      exact (queued other mine).2
    · have same : ∀ a ∈ other.list, pool'.heap a = w.pool.heap a :=
        fun a member => (outside different there a member).2.2
      exact (flat_congr same) ▸ (separated.queued there).congr same

theorem Separated.framed_update {pool' : Pool} {bytes : List Byte} (buffer' : DocketBuffer)
    (separated : Separated w) (here : w.buffer i = some buffer)
    (framed : Framed w.pool pool' buffer.list buffer'.list) (queued : Queued pool' buffer' bytes) :
    Separated ⟨pool', w.buffers.set i (some buffer')⟩ ∧
      view ⟨pool', w.buffers.set i (some buffer')⟩ = w.view.set i (some bytes) := by
  have updated := separated.update (some buffer') here framed.owned (separated.outside here framed)
  rw [queued.flat, Option.map_some] at updated
  apply updated
  rintro _ ⟨⟩
  exact ⟨rfl, queued⟩

/-- Behind a buffer that was emptied, no other chunk is one of its former chunks. -/
theorem Separated.emptied_apart (separated : Separated w) (here : w.buffer i = some buffer)
    {other : DocketBuffer} (held : (⟨w.pool, w.buffers.set i (some ⟨0, []⟩)⟩ : World).buffer j = some other) :
    ∀ a ∈ other.list, a ∉ buffer.list := by
  rw [buffer_set (some ⟨0, []⟩) w.pool here] at held
  split at held
  · cases held
    exact nofun
  · next different => exact fun a member mine => separated.apart different here held a mine member

theorem Separated.emptied (separated : Separated w) (here : w.buffer i = some buffer) :
    Separated ⟨w.pool, w.buffers.set i (some ⟨0, []⟩)⟩ ∧
      view ⟨w.pool, w.buffers.set i (some ⟨0, []⟩)⟩ = w.view.set i (some []) := by
  have detached : Framed w.pool w.pool buffer.list [] := by
    refine ⟨separated.pool, fun a live apart => ⟨live, ?_, rfl⟩⟩
    rw [List.append_nil]
    exact fun free => apart (List.mem_append_left _ free)
  have drained : Queued w.pool ⟨0, []⟩ [] := ⟨nofun, rfl, rfl⟩
  exact separated.framed_update ⟨0, []⟩ here detached drained

/-- Moving the chunks of one buffer behind those of another; the heap is not touched. -/
theorem moveto_spec (dest source : Nat) (separated : Separated w) :
    (w.moveto dest source = none ∧ Queues.step w.view (.moveto dest source) = none) ∨
    ∃ w' size, w.moveto dest source = some (size, w') ∧ Separated w' ∧
      Queues.step w.view (.moveto dest source) = some (w'.view, ⟨(size : Nat), []⟩) := by
  rcases here : w.buffer source with _ | data
  · left
    simp [moveto, here, Queues.step, queue_view]
  have dataQueued := separated.queued here
  obtain ⟨separated₁, view₁⟩ := separated.emptied here
  rcases there : (⟨w.pool, w.buffers.set source (some ⟨0, []⟩)⟩ : World).buffer dest with _ | target
  · left
    have gone := queue_view ⟨w.pool, w.buffers.set source (some ⟨0, []⟩)⟩ dest
    rw [there, view₁] at gone
    simp only [Option.map_none] at gone
    simp [moveto, here, there, Queues.step, queue_view, gone]
  right
  have apart := separated.emptied_apart here there
  have owned := (separated₁.owned there).append (separated.owned here) apart
  have outside : Outside ⟨w.pool, w.buffers.set source (some ⟨0, []⟩)⟩ dest w.pool
      (target.list ++ data.list) := by
    intro j other different held a member
    have before := separated₁.owned held
    refine ⟨before.mem_live member, ?_, rfl⟩
    simp only [List.mem_append, not_or]
    refine ⟨before.not_free member, ?_, separated.emptied_apart here held a member⟩
    exact separated₁.apart (Ne.symm different) held there a member
  have queued := (separated₁.queued there).append dataQueued
  rw [← flat_append] at queued
  obtain ⟨separated₂, view₂⟩ := separated₁.update (some ⟨target.length + data.length,
    target.list ++ data.list⟩) there owned outside (by rintro _ ⟨⟩; exact ⟨rfl, queued⟩)
  refine ⟨_, data.length, ?_, separated₂, ?_⟩
  · simp only [moveto, here, there, Option.bind_eq_bind, Option.bind_some, Option.pure_def]
  · have queue₁ := queue_view ⟨w.pool, w.buffers.set source (some ⟨0, []⟩)⟩ dest
    rw [there, view₁, Option.map_some] at queue₁
    rw [view₂, view₁, Option.map_some, flat_append]
    simp only [Queues.step, queue_view, here, queue₁, Option.map_some, Option.bind_eq_bind,
      Option.bind_some, Option.pure_def, dataQueued.counted]

theorem free_spec (separated : Separated w) (here : w.buffer i = some buffer) :
    ∃ w', w.free i = some w' ∧ Separated w' ∧ w'.view = w.view.set i none := by
  have owned := separated.owned here
  have given : Framed w.pool { w.pool with
      bufferPool := w.pool.bufferPool.map (· ++ buffer.list) } buffer.list [] := by
    rcases made : w.pool.bufferPool with _ | free
    · refine ⟨⟨List.nodup_nil, ?_⟩, fun a live _ => ⟨live, List.not_mem_nil, rfl⟩⟩
      exact fun a member => absurd member List.not_mem_nil
    · have same : w.pool.free = free := by rw [Pool.free, made, Option.getD_some]
      have nodup := owned.nodup
      have live := owned.live
      rw [same] at nodup live
      refine ⟨⟨?_, ?_⟩, fun a live apart => ⟨live, ?_, rfl⟩⟩
      · simpa [Pool.free] using nodup
      · simpa [Pool.free] using live
      · rw [same] at apart
        simpa [Pool.free] using apart
  obtain ⟨separated', view'⟩ := separated.update none here given.owned
    (separated.outside here given) fun _ freed => by cases freed
  exact ⟨_, by rw [World.free, here]; rfl, separated', view'⟩

theorem new_spec (separated : Separated w) :
    Separated { w with buffers := w.buffers ++ [some ⟨0, []⟩] } := by
  have cases {j : Nat} {other : DocketBuffer}
      (held : ({ w with buffers := w.buffers ++ [some ⟨0, []⟩] } : World).buffer j = some other) :
      other.list = [] ∧ other.length = 0 ∨ w.buffer j = some other := by
    simp only [World.buffer, List.getElem?_append] at held
    split at held
    · exact .inr held
    · left
      rw [List.getElem?_singleton] at held
      split at held <;> cases held
      exact ⟨rfl, rfl⟩
  refine ⟨separated.pool, ?_, ?_, ?_⟩
  · intro j other held
    rcases cases held with ⟨empty, _⟩ | old
    · rw [empty]
      exact separated.pool
    · exact separated.owned old
  · intro j k other another different held held' a member member'
    rcases cases held with ⟨empty, _⟩ | old
    · simp [empty] at member
    rcases cases held' with ⟨empty, _⟩ | old'
    · simp [empty] at member'
    · exact separated.apart different old old' a member member'
  · intro j other held
    rcases cases held with ⟨empty, zero⟩ | old
    · exact ⟨by simp [Filled, empty], rfl, by simp [empty, zero]⟩
    · exact separated.queued old

theorem afterRead_spec {data : Bool} {len : Nat} (separated : Separated w)
    (here : w.buffer i = some buffer) (reads : data = true ∧ 0 < len) : ∃ w',
      w.afterRead i (buffer.readInternal w.pool data len) =
        some (w', .bytes ((w.pool.flat buffer.list).take len)) ∧
      Separated w' ∧ w'.view = w.view.set i (some ((w.pool.flat buffer.list).drop len)) := by
  obtain ⟨buffer', pool', read, framed, queued⟩ :=
    read_spec (separated.owned here) (separated.queued here) reads
  obtain ⟨separated', view'⟩ := separated.framed_update buffer' here framed queued
  exact ⟨_, by rw [read]; rfl, separated', view'⟩

theorem afterRead_refused (here : w.buffer i = some buffer) :
    w.afterRead i (some (-1, [], buffer, w.pool)) = some (w, ⟨-1, []⟩) := by
  obtain ⟨bound, value⟩ := List.getElem?_eq_some_iff.mp (getElem_of_buffer here)
  have same : w.buffers.set i (some buffer) = w.buffers := by rw [← value, List.set_getElem_self]
  simp only [afterRead, Option.bind_eq_bind, Option.bind_some, same, Option.pure_def]

theorem readFull_spec (pool : Pool) (buffer : DocketBuffer) (data : Bool) (len : Nat) :
    buffer.readFull pool data len = if (data = true ∧ 0 < len) ∧ len ≤ buffer.length then
      buffer.readInternal pool data len else some (-1, [], buffer, pool) := by
  rw [readFull]
  by_cases long : len > buffer.length
  · rw [if_pos long, if_neg (by omega)]
  · by_cases reads : data = true ∧ 0 < len
    · rw [if_neg long, if_pos ⟨reads, by omega⟩]
    · rw [if_neg long, if_neg (fun both => reads both.1), read_refused pool buffer reads]

theorem peekFull_spec (pool : Pool) (buffer : DocketBuffer) (data : Bool) (len : Nat) :
    buffer.peekFull pool data len = if (data = true ∧ 0 < len) ∧ len ≤ buffer.length then
      buffer.peekInternal pool data len else some (-1, []) := by
  rw [peekFull]
  by_cases long : len > buffer.length
  · rw [if_pos long, if_neg (by omega)]
  · by_cases reads : data = true ∧ 0 < len
    · rw [if_neg long, if_pos ⟨reads, by omega⟩]
    · rw [if_neg long, if_neg (fun both => reads both.1), peek_refused pool buffer reads]

/-- A call on the chunks is a call on the queues: both are undefined, or both
return the same and stay related. -/
def Simulated (taken : Option (World × BufferResult)) (specified : Option (Queues × BufferResult)) :
    Prop :=
  (taken = none ∧ specified = none) ∨
    ∃ w' result, taken = some (w', result) ∧ Separated w' ∧ specified = some (w'.view, result)

theorem Separated.simulated {result : BufferResult} (separated : Separated w) :
    Simulated (some (w, result)) (some (w.view, result)) :=
  .inr ⟨w, result, rfl, separated, rfl⟩

/-- A call on one buffer is undefined exactly where that buffer is freed. -/
theorem simulated_at {taken : DocketBuffer → Option (World × BufferResult)}
    {specified : List Byte → Option (Queues × BufferResult)}
    (each : ∀ buffer, w.buffer i = some buffer →
      Simulated (taken buffer) (specified (w.pool.flat buffer.list))) :
    Simulated (w.buffer i >>= taken) (w.view.queue i >>= specified) := by
  rw [queue_view]
  rcases here : w.buffer i with _ | buffer
  · exact .inl ⟨rfl, rfl⟩
  · exact each buffer here

theorem write_simulated (alloc : Allocator) (data : Option (List Byte)) (separated : Separated w)
    (here : w.buffer i = some buffer) :
    Simulated (do
        let (value, buffer, pool) ← buffer.write alloc w.pool data
        return (⟨pool, w.buffers.set i (some buffer)⟩, ⟨value, []⟩))
      (some (w.view.set i (some (w.pool.flat buffer.list ++ data.getD [])),
        ⟨(data.getD []).length, []⟩)) := by
  obtain ⟨buffer', pool', written, framed, queued, -⟩ :=
    write_spec alloc data (separated.owned here) (separated.queued here)
  obtain ⟨separated', view'⟩ := separated.framed_update buffer' here framed queued
  rw [written, ← view']
  exact separated'.simulated

/-- Both reads: `guard` decides whether the bytes are taken or the call is refused. -/
theorem read_simulated {data : Bool} {len : Nat} {guard : Prop} [Decidable guard]
    {read : Option (Int × List Byte × DocketBuffer × Pool)} (separated : Separated w)
    (here : w.buffer i = some buffer) (reads : guard → data = true ∧ 0 < len)
    (taken : guard → read = buffer.readInternal w.pool data len)
    (refused : ¬guard → read = some (-1, [], buffer, w.pool)) :
    Simulated (w.afterRead i read)
      (some (if guard then
        Queues.delivered (w.view.set i (some ((w.pool.flat buffer.list).drop len)))
          ((w.pool.flat buffer.list).take len)
        else w.view.refused)) := by
  by_cases holds : guard
  · obtain ⟨w', done, separated', view'⟩ := afterRead_spec separated here (reads holds)
    rw [taken holds, done, if_pos holds, ← view']
    exact separated'.simulated
  · rw [refused holds, afterRead_refused here, if_neg holds]
    exact separated.simulated

theorem peek_simulated {data : Bool} {len : Nat} {guard : Prop} [Decidable guard]
    {peek : Option (Int × List Byte)} (separated : Separated w) (here : w.buffer i = some buffer)
    (reads : guard → data = true ∧ 0 < len)
    (taken : guard → peek = buffer.peekInternal w.pool data len)
    (refused : ¬guard → peek = some (-1, [])) :
    Simulated (w.afterPeek peek)
      (some (if guard then w.view.delivered ((w.pool.flat buffer.list).take len)
        else w.view.refused)) := by
  by_cases holds : guard
  · rw [taken holds, peek_spec (separated.owned here) (separated.queued here) (reads holds),
      if_pos holds]
    exact separated.simulated
  · rw [refused holds, if_neg holds]
    exact separated.simulated

theorem moveto_simulated (alloc : Allocator) (dest source : Nat) (separated : Separated w) :
    Simulated (step alloc w (.moveto dest source)) (Queues.step w.view (.moveto dest source)) := by
  rcases moveto_spec dest source separated with ⟨moved, gone⟩ | moved
  · exact .inl ⟨by rw [step, moved]; rfl, gone⟩
  · obtain ⟨w', size, moved, separated', spec⟩ := moved
    rw [step, moved, spec]
    exact separated'.simulated

theorem free_simulated (alloc : Allocator) (i : Nat) (separated : Separated w) :
    Simulated (step alloc w (.free i)) (Queues.step w.view (.free i)) := by
  rw [step, Queues.step, queue_view]
  rcases here : w.buffer i with _ | buffer
  · exact .inl ⟨by rw [World.free, here]; rfl, rfl⟩
  · obtain ⟨w', freed, separated', view'⟩ := free_spec separated here
    rw [freed, ← view']
    exact separated'.simulated

/-- One call on the chunks is that call on the queues. -/
theorem step_spec (alloc : Allocator) (separated : Separated w) (op : BufferOp) :
    Simulated (step alloc w op) (Queues.step w.view op) := by
  cases op with
  | new =>
    refine .inr ⟨_, _, rfl, new_spec separated, ?_⟩
    simp [Queues.step, view]
  | write target data =>
    rcases target with _ | i
    · exact separated.simulated
    · exact simulated_at fun buffer here => write_simulated alloc data separated here
  | read i data len =>
    refine simulated_at fun buffer here => read_simulated separated here id (fun _ => rfl) ?_
    exact read_refused w.pool buffer
  | readFull i data len =>
    refine simulated_at fun buffer here => ?_
    rw [← (separated.queued here).counted]
    refine read_simulated separated here And.left ?_ ?_
    · exact fun reads => by rw [readFull_spec, if_pos reads]
    · exact fun refused => by rw [readFull_spec, if_neg refused]
  | peek i data len =>
    refine simulated_at fun buffer here => peek_simulated separated here id (fun _ => rfl) ?_
    exact peek_refused w.pool buffer
  | peekFull i data len =>
    refine simulated_at fun buffer here => ?_
    rw [← (separated.queued here).counted]
    refine peek_simulated separated here And.left ?_ ?_
    · exact fun reads => by rw [peekFull_spec, if_pos reads]
    · exact fun refused => by rw [peekFull_spec, if_neg refused]
  | moveto dest source => exact moveto_simulated alloc dest source separated
  | length i =>
    refine simulated_at fun buffer here => ?_
    rw [← (separated.queued here).counted]
    exact separated.simulated
  | free i => exact free_simulated alloc i separated

theorem start_separated (heap : Addr → Buffer) : Separated (start heap) := by
  have none (i : Nat) : (start heap).buffer i = none := by simp [start, World.buffer]
  refine ⟨⟨List.nodup_nil, nofun⟩, ?_, ?_, ?_⟩
  · intro i buffer held
    rw [none] at held
    cases held
  · intro i j buffer other _ held
    rw [none] at held
    cases held
  · intro i buffer held
    rw [none] at held
    cases held

/-- What a reader of the code expects of the chunks at any time. -/
structure ChunksOwnedOnce (w : World) : Prop where
  length : ∀ {i buffer}, w.buffer i = some buffer →
    buffer.length = (buffer.list.map fun a => (w.pool.heap a).len).sum
  sound : ∀ {i buffer}, w.buffer i = some buffer → ∀ a ∈ buffer.list,
    0 < (w.pool.heap a).len ∧ (w.pool.heap a).pos + (w.pool.heap a).len ≤ bufferSize
  notPooled : ∀ {i buffer}, w.buffer i = some buffer → ∀ a ∈ buffer.list, a ∉ w.pool.free
  notShared : ∀ {i j buffer other}, i ≠ j → w.buffer i = some buffer → w.buffer j = some other →
    ∀ a ∈ buffer.list, a ∉ other.list
  onceInBuffer : ∀ {i buffer}, w.buffer i = some buffer → buffer.list.Nodup
  onceInPool : w.pool.free.Nodup

theorem Separated.chunksOwnedOnce (separated : Separated w) : ChunksOwnedOnce w where
  length := by
    intro i buffer held
    obtain ⟨filled, _, counted⟩ := separated.queued held
    have widths : (w.pool.chunks buffer.list).map List.length =
        buffer.list.map fun a => (w.pool.heap a).len := by
      rw [chunks, List.map_map]
      exact List.map_congr_left fun a member => Buffer.content_length (filled a member).2
    rw [counted, flat, List.length_flatten, widths]
  sound held := (separated.queued held).filled
  notPooled held _ := (separated.owned held).not_free
  notShared := separated.apart
  onceInBuffer held := (List.nodup_append.mp (separated.owned held).nodup).2.1
  onceInPool := (List.nodup_append.mp separated.pool.nodup).1

/-- Any calls on any number of buffers return and deliver what independent
queues would, and leave every chunk with one owner. -/
theorem run_refines_queues (alloc : Allocator) (heap : Addr → Buffer) (ops : List BufferOp) :
    (Run.run (step alloc) (start heap) ops).map (fun (w, results) => (w.view, results)) =
        Run.run Queues.step [] ops ∧
      ∀ w results, Run.run (step alloc) (start heap) ops = some (w, results) → ChunksOwnedOnce w := by
  have preserves {w next : World} {op : BufferOp} {result : BufferResult} (separated : Separated w)
      (taken : step alloc w op = some (next, result)) : Separated next := by
    rcases step_spec alloc separated op with ⟨none, _⟩ | ⟨w', result', done, separated', _⟩
    · rw [none] at taken
      cases taken
    · rw [done] at taken
      cases taken
      exact separated'
  refine ⟨?_, fun w results path =>
    (Run.run_invariant preserves (start_separated heap) path).chunksOwnedOnce⟩
  refine Run.run_refines view preserves ?_ (start_separated heap) ops
  intro w op separated
  rcases step_spec alloc separated op with ⟨none, gone⟩ | ⟨w', result, done, _, spec⟩
  · rw [none, gone]
    rfl
  · rw [done, spec]
    rfl

end World

end Devent
