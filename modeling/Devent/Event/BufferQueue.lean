import Devent.Event.BufferPool
import Devent.Library.Chunks

/-! Each call on one chunked buffer is the call on its queue of bytes. -/
namespace Devent

namespace DocketBuffer
open Pool

variable {pool : Pool} {list : List Addr}

theorem chunksOf_lens (len : Nat) : (chunksOf len).map Subtype.val = Chunks.cut bufferSize len := by
  rw [chunksOf, Chunks.cut, List.map_append, List.map_replicate]
  split <;> rfl

theorem notMem_front {mb : Addr} (owned : Owned pool (list ++ [mb])) : mb ∉ list := by
  have nodup := (List.nodup_append.mp owned.nodup).2.1
  exact fun member => (List.nodup_append.mp nodup).2.2 mb member mb (List.mem_singleton_self mb) rfl

/-- A round puts the first bytes into the empty footer. -/
theorem fillFooter_spec {mb : Addr} {data : List Byte} (owned : Owned pool (list ++ [mb]))
    (empty : (pool.heap mb).len = 0) (start : (pool.heap mb).pos = 0) (nonempty : data ≠ []) :
    ∃ filled pool', (pool.heap mb).fill (data.take bufferSize) = some filled ∧
      pool.store mb filled = some pool' ∧ Framed pool pool' (list ++ [mb]) (list ++ [mb]) ∧ filled.Sound ∧
      filled.content = data.take bufferSize ∧ filled.len = min bufferSize data.length ∧
      pool'.heap mb = filled ∧ ∀ a, a ≠ mb → pool'.heap a = pool.heap a := by
  have last : mb ∈ list ++ [mb] := List.mem_append_right _ (List.mem_singleton_self mb)
  have positive := List.length_pos_of_ne_nil nonempty
  obtain ⟨filled, isFilled, content, len, pos⟩ :=
    Buffer.fill_eq empty start (List.length_take_le bufferSize data)
  rw [List.length_take] at len
  have sound : filled.Sound := by
    refine ⟨?_, by omega⟩
    rw [len]
    exact Nat.lt_min.mpr ⟨by decide, positive⟩
  exact ⟨filled, _, isFilled, store_eq _ (owned.mem_live last), store_framed filled owned last, sound, content,
    len, Function.update_self .., fun a other => Function.update_of_ne other ..⟩

/-- The loop of a write cuts the data into new chunks behind those in `list`. -/
theorem writeLoop_spec (alloc : Allocator) (writeLen : Nat) {fuel mb : Nat} {data : List Byte}
    (owned : Owned pool (list ++ [mb])) (empty : (pool.heap mb).len = 0) (start : (pool.heap mb).pos = 0)
    (nonempty : data ≠ []) (enough : data.length ≤ fuel) : ∃ more pool',
      writeLoop alloc fuel pool mb (list ++ [mb]) writeLen data =
        some (writeLen + data.length, list ++ more, pool') ∧
      Framed pool pool' (list ++ [mb]) (list ++ more) ∧ Filled pool' more ∧ pool'.flat more = data ∧
      pool'.lens more = Chunks.cut bufferSize data.length ∧
      ∀ a ∈ list, pool'.heap a = pool.heap a := by
  have positive := List.length_pos_of_ne_nil nonempty
  induction fuel generalizing pool list mb writeLen data with
  | zero => omega
  | succ fuel ih =>
    have last : mb ∈ list ++ [mb] := List.mem_append_right _ (List.mem_singleton_self mb)
    have away := notMem_front owned
    obtain ⟨filled, pool₁, isFilled, stores, stored, sound, content, len, here₁, heap₁⟩ :=
      fillFooter_spec owned empty start nonempty
    rw [writeLoop]
    simp only [load_eq (owned.mem_live last), empty, start, Nat.sub_zero, isFilled, stores, Option.bind_eq_bind,
      Option.bind_some]
    by_cases done : data.drop bufferSize = []
    · have short := List.drop_eq_nil_iff.mp done
      have whole : data.take bufferSize = data := List.take_of_length_le short
      rw [if_pos done, whole]
      refine ⟨[mb], pool₁, rfl, stored, ?_, ?_, ?_, ?_⟩
      · intro a member
        rw [List.mem_singleton.mp member, here₁]
        exact sound
      · rw [flat_cons, here₁, content, whole, flat_nil, List.append_nil]
      · rw [Chunks.cut_short positive short, lens, List.map_cons, here₁, len, Nat.min_eq_right short]
        rfl
      · exact fun a member => heap₁ a fun same => away (same ▸ member)
    · rw [if_neg done]
      obtain ⟨mb₂, pool₂, got, away₂, taken, heap₂, empty₂, start₂⟩ :=
        getBufferFromPool_spec alloc stored.owned
      have shorter : (data.drop bufferSize).length ≤ fuel := by
        have size : 0 < bufferSize := by decide
        rw [List.length_drop]
        omega
      have rest := ih (writeLen + (data.take bufferSize).length) taken.owned empty₂ start₂ done
        shorter (List.length_pos_of_ne_nil done)
      obtain ⟨more, pool₃, looped, framed, sounds, bytes, sizes, heap₃⟩ := rest
      have here₃ : pool₃.heap mb = filled := by
        rw [heap₃ mb last, heap₂ mb fun same => away₂ (same ▸ last), here₁]
      simp only [got, Option.bind_some, looped]
      refine ⟨mb :: more, pool₃, ?_, ?_, ?_, ?_, ?_, ?_⟩
      · rw [Nat.add_assoc, ← List.length_append, List.take_append_drop, List.append_assoc]
        rfl
      · have shape : list ++ [mb] ++ more = list ++ mb :: more := by simp
        exact shape ▸ stored.trans (taken.trans framed)
      · intro a member
        rcases List.mem_cons.mp member with rfl | later
        · exact here₃ ▸ sound
        · exact sounds a later
      · rw [flat_cons, here₃, content, bytes, List.take_append_drop]
      · have long : bufferSize < data.length :=
          Nat.not_le.mp fun short => done (List.drop_eq_nil_iff.mpr short)
        rw [lens] at sizes
        rw [Chunks.cut_long (by decide) long, lens, List.map_cons, here₃, len, sizes,
          List.length_drop, Nat.min_eq_left (Nat.le_of_lt long)]
      · intro a member
        have other : a ≠ mb := fun same => away (same ▸ member)
        have other₂ : a ≠ mb₂ := fun same => away₂ (same ▸ List.mem_append_left _ member)
        rw [heap₃ a (List.mem_append_left _ member), heap₂ a other₂, heap₁ a other]

/-- The buffer holds these bytes, in sound chunks, and its cached length is theirs. -/
structure Queued (pool : Pool) (buffer : DocketBuffer) (bytes : List Byte) : Prop where
  filled : Filled pool buffer.list
  flat : pool.flat buffer.list = bytes
  counted : buffer.length = bytes.length

variable {buffer : DocketBuffer} {bytes : List Byte}

theorem Queued.congr {pool' : Pool} (queued : Queued pool buffer bytes)
    (same : ∀ a ∈ buffer.list, pool'.heap a = pool.heap a) : Queued pool' buffer bytes :=
  ⟨queued.filled.congr same, (flat_congr same).trans queued.flat, queued.counted⟩

theorem Queued.append {buffer' : DocketBuffer} {bytes' : List Byte} (first : Queued pool buffer bytes)
    (second : Queued pool buffer' bytes') : Queued pool
      ⟨buffer.length + buffer'.length, buffer.list ++ buffer'.list⟩ (bytes ++ bytes') := by
  constructor
  · intro a member
    rcases List.mem_append.mp member with inFirst | inSecond
    · exact first.filled a inFirst
    · exact second.filled a inSecond
  · rw [flat_append, first.flat, second.flat]
  · rw [List.length_append, ← first.counted, ← second.counted]

theorem write_spec (alloc : Allocator) (data : Option (List Byte)) (owned : Owned pool buffer.list)
    (queued : Queued pool buffer bytes) : ∃ buffer' pool',
      buffer.write alloc pool data = some (((data.getD []).length : Int), buffer', pool') ∧
      Framed pool pool' buffer.list buffer'.list ∧ Queued pool' buffer' (bytes ++ data.getD []) ∧
      pool'.lens buffer'.list =
        pool.lens buffer.list ++ (chunksOf (data.getD []).length).map Subtype.val := by
  rcases data with _ | _ | ⟨first, tail⟩
  · exact ⟨buffer, pool, rfl, .refl owned, (List.append_nil bytes).symm ▸ queued, (List.append_nil _).symm⟩
  · exact ⟨buffer, pool, rfl, .refl owned, (List.append_nil bytes).symm ▸ queued, (List.append_nil _).symm⟩
  obtain ⟨mb, pool₁, got, away, taken, heap₁, empty, start⟩ := getBufferFromPool_spec alloc owned
  have single : Owned pool₁ ([] ++ [mb]) := taken.owned.right
  have nonempty : first :: tail ≠ [] := by simp
  obtain ⟨more, pool₂, looped, cut, sounds, flats, sizes, _⟩ :=
    writeLoop_spec alloc 0 single empty start nonempty (Nat.le_refl _)
  have same : ∀ a ∈ buffer.list, pool₂.heap a = pool.heap a := by
    intro a member
    have other : a ≠ mb := fun same => away (same ▸ member)
    rw [cut.same_side taken.owned member, heap₁ a other]
  have old := queued.congr same
  refine ⟨⟨buffer.length + (first :: tail).length, buffer.list ++ more⟩, pool₂, ?_,
    taken.trans (cut.extend taken.owned), ⟨?_, ?_, ?_⟩, ?_⟩
  · simp only [List.nil_append, Nat.zero_add] at looped
    simp only [write, got, looped, Option.bind_eq_bind, Option.bind_some, Option.pure_def,
      Option.getD_some]
  · intro a member
    rcases List.mem_append.mp member with before | new
    · exact old.filled a before
    · exact sounds a new
  · rw [flat_append, old.flat, flats, Option.getD_some]
  · rw [List.length_append, Option.getD_some, ← queued.counted]
  · have kept := lens_congr same
    rw [lens] at sizes kept ⊢
    rw [List.map_append, kept, sizes, chunksOf_lens, Option.getD_some]

/-- A read takes the chunks it drains off the list and returns them to the pool. -/
theorem readLoop_spec (length left : Nat) (owned : Owned pool list) (filled : Filled pool list)
    (counted : length = (pool.flat list).length) : ∃ buffer' pool',
      readLoop pool length left list = some ((Chunks.drain left (pool.chunks list)).1, buffer', pool') ∧
      Framed pool pool' list buffer'.list ∧ Filled pool' buffer'.list ∧
      pool'.chunks buffer'.list = (Chunks.drain left (pool.chunks list)).2 ∧
      buffer'.length = length - left := by
  induction list generalizing pool length left with
  | nil =>
    refine ⟨⟨length, []⟩, pool, rfl, .refl owned, nofun, rfl, ?_⟩
    simp only [flat_nil, List.length_nil] at counted
    simp [counted]
  | cons a rest ih =>
    have live := owned.mem_live List.mem_cons_self
    have sound := filled a List.mem_cons_self
    have width := Buffer.content_length sound.2
    rw [flat_cons, List.length_append, width] at counted
    rw [readLoop, load_eq live, chunks, List.map_cons, Chunks.drain, width]
    simp only [Option.bind_eq_bind, Option.bind_some]
    by_cases part : (pool.heap a).len > left
    · have stored := store_framed ((pool.heap a).consume left) owned List.mem_cons_self
      simp only [if_pos part, Buffer.slice_eq sound.2 (Nat.le_of_lt part), store_eq _ live,
        Option.bind_some, Option.pure_def]
      have others : ∀ b ∈ rest, b ≠ a := by
        rintro b member rfl
        exact (List.nodup_cons.mp (List.nodup_append.mp owned.nodup).2.1).1 member
      refine ⟨_, _, rfl, stored, ?_, ?_, rfl⟩
      · intro b member
        rcases List.mem_cons.mp member with rfl | later
        · simpa only [Function.update_self] using sound.consume part
        · simpa only [Function.update_of_ne (others b later)] using filled b (List.mem_cons_of_mem _ later)
      · have kept : Pool.chunks { pool with
            heap := Function.update pool.heap a ((pool.heap a).consume left) } rest = pool.chunks rest :=
          chunks_congr fun b member => Function.update_of_ne (others b member) ..
        have head : ((Function.update pool.heap a ((pool.heap a).consume left)) a).content =
            (pool.heap a).content.drop left := by
          rw [Function.update_self, Buffer.content_consume]
        exact congrArg₂ _ head kept
    · obtain ⟨pool₁, released, heap, given⟩ := bufferRelease_spec owned
      have same : ∀ b ∈ rest, pool₁.heap b = pool.heap b := fun b _ => congrFun heap b
      have later : Filled pool rest := fun b member => filled b (List.mem_cons_of_mem _ member)
      obtain ⟨buffer', pool₂, looped, framed, sounds, chunks₂, length₂⟩ :=
        ih (length - (pool.heap a).len) (left - (pool.heap a).len) given.owned
          (later.congr same) (by rw [flat_congr same]; omega)
      have whole : (pool.heap a).content.take (pool.heap a).len = (pool.heap a).content :=
        List.take_of_length_le (Nat.le_of_eq width)
      rw [chunks_congr same] at looped chunks₂
      simp only [if_neg part, Buffer.slice_eq sound.2 (Nat.le_refl _), whole, released, looped,
        Option.bind_some, Option.pure_def]
      refine ⟨buffer', pool₂, rfl, given.trans framed, sounds, chunks₂, ?_⟩
      omega

theorem read_spec {data : Bool} {len : Nat} (owned : Owned pool buffer.list)
    (queued : Queued pool buffer bytes) (reads : data = true ∧ 0 < len) : ∃ buffer' pool',
      buffer.readInternal pool data len =
        some (((bytes.take len).length : Int), bytes.take len, buffer', pool') ∧
      Framed pool pool' buffer.list buffer'.list ∧ Queued pool' buffer' (bytes.drop len) := by
  obtain ⟨filled, flat, counted⟩ := queued
  obtain ⟨buffer', pool', looped, framed, sounds, left, length⟩ :=
    readLoop_spec buffer.length len owned filled (flat ▸ counted)
  have passes : ¬(data = false ∨ len = 0) := by
    rintro (null | zero)
    · cases null.symm.trans reads.1
    · omega
  have bytes' : pool'.flat buffer'.list = bytes.drop len := by
    rw [Pool.flat, left, Chunks.drain_left, ← flat, Pool.flat]
  refine ⟨buffer', pool', ?_, framed, sounds, bytes', ?_⟩
  · rw [Chunks.drain_taken, ← Pool.flat, flat] at looped
    simp only [readInternal, if_neg passes, looped, Option.bind_eq_bind, Option.bind_some, Option.pure_def]
  · rw [List.length_drop, length, counted]

theorem peekLoop_spec (left : Nat) (owned : Owned pool list) (filled : Filled pool list) :
    peekLoop pool left list = some (Chunks.peek left (pool.chunks list)) := by
  induction list generalizing left with
  | nil => rfl
  | cons a rest ih =>
    have live := owned.mem_live List.mem_cons_self
    have sound := filled a List.mem_cons_self
    have width := Buffer.content_length sound.2
    have split : Owned pool ([a] ++ rest) := owned
    have tail (left : Nat) := ih left split.right fun b member =>
      filled b (List.mem_cons_of_mem _ member)
    have whole : (pool.heap a).content.take (pool.heap a).len = (pool.heap a).content :=
      List.take_of_length_le (Nat.le_of_eq width)
    rw [peekLoop, load_eq live, chunks, List.map_cons, Chunks.peek, width]
    simp only [Option.bind_eq_bind, Option.bind_some]
    split
    · exact tail left
    split
    · next enough => exact Buffer.slice_eq sound.2 enough
    · rw [Buffer.slice_eq sound.2 (Nat.le_refl _), whole, tail]
      rfl

theorem peek_spec {data : Bool} {len : Nat} (owned : Owned pool buffer.list)
    (queued : Queued pool buffer bytes) (reads : data = true ∧ 0 < len) :
    buffer.peekInternal pool data len = some (((bytes.take len).length : Int), bytes.take len) := by
  have passes : ¬(data = false ∨ len = 0) := by
    rintro (null | zero)
    · cases null.symm.trans reads.1
    · omega
  have looped := peekLoop_spec len owned queued.filled
  rw [Chunks.peek_eq, ← Pool.flat, queued.flat] at looped
  simp only [peekInternal, if_neg passes, looped, Option.bind_eq_bind, Option.bind_some, Option.pure_def]

theorem read_refused (pool : Pool) (buffer : DocketBuffer) {data : Bool} {len : Nat}
    (refused : ¬(data = true ∧ 0 < len)) :
    buffer.readInternal pool data len = some (-1, [], buffer, pool) := by
  have stops : data = false ∨ len = 0 := by
    cases data
    · exact .inl rfl
    · exact .inr (by simpa using refused)
  exact if_pos stops

theorem peek_refused (pool : Pool) (buffer : DocketBuffer) {data : Bool} {len : Nat}
    (refused : ¬(data = true ∧ 0 < len)) : buffer.peekInternal pool data len = some (-1, []) := by
  have stops : data = false ∨ len = 0 := by
    cases data
    · exact .inl rfl
    · exact .inr (by simpa using refused)
  exact if_pos stops

end DocketBuffer

end Devent
