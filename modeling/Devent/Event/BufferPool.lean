import Devent.Event.Buffer
import Mathlib.Data.List.Nodup

/-! Who owns the chunks. Ownership is stated for one buffer against the shared free list; a frame
condition says that a call on that buffer leaves every other live chunk alone, and is all the other
buffers need. -/
namespace Devent

namespace Buffer

/-- A chunk that may be queued. -/
def Sound (buffer : Buffer) : Prop := 0 < buffer.len ∧ buffer.pos + buffer.len ≤ bufferSize

theorem content_length {buffer : Buffer} (fits : buffer.pos + buffer.len ≤ bufferSize) :
    buffer.content.length = buffer.len := by
  have size := buffer.size
  rw [content, List.length_take, List.length_drop]
  omega

theorem slice_eq {buffer : Buffer} {n : Nat} (fits : buffer.pos + buffer.len ≤ bufferSize)
    (part : n ≤ buffer.len) : buffer.slice n = some (buffer.content.take n) := by
  rw [slice, if_pos (by omega), content, List.take_take, Nat.min_eq_left part]

theorem fill_eq {buffer : Buffer} {bytes : List Byte} (empty : buffer.len = 0) (start : buffer.pos = 0)
    (fits : bytes.length ≤ bufferSize) : ∃ filled, buffer.fill bytes = some filled ∧
      filled.content = bytes ∧ filled.len = bytes.length ∧ filled.pos = 0 := by
  have room : buffer.pos + buffer.len + bytes.length ≤ bufferSize := by omega
  refine ⟨_, dif_pos room, ?_, ?_, start⟩
  · simp [content, empty, start]
  · simp only [empty, Nat.zero_add]

theorem content_consume (buffer : Buffer) (n : Nat) :
    (buffer.consume n).content = buffer.content.drop n := by
  rw [content, content, List.drop_take, List.drop_drop]
  rfl

theorem Sound.consume {buffer : Buffer} {n : Nat} (sound : buffer.Sound) (part : n < buffer.len) :
    (buffer.consume n).Sound := by
  obtain ⟨_, fits⟩ := sound
  simp only [Sound, Buffer.consume]
  omega

end Buffer

namespace Pool

structure Owned (pool : Pool) (list : List Addr) : Prop where
  nodup : (pool.free ++ list).Nodup
  live : ∀ a ∈ pool.free ++ list, a ∈ pool.live

/-- Ownership of `list` became ownership of `list'`; all other live chunks are
as they were, and still not owned here. -/
structure Framed (pool pool' : Pool) (list list' : List Addr) : Prop where
  owned : Owned pool' list'
  frame : ∀ a ∈ pool.live, a ∉ pool.free ++ list →
    a ∈ pool'.live ∧ a ∉ pool'.free ++ list' ∧ pool'.heap a = pool.heap a

def chunks (pool : Pool) (list : List Addr) : List (List Byte) :=
  list.map fun a => (pool.heap a).content

/-- The queued bytes of a chunk list. -/
def flat (pool : Pool) (list : List Addr) : List Byte := (pool.chunks list).flatten

/-- The lengths of a chunk list. -/
def lens (pool : Pool) (list : List Addr) : List Nat := list.map fun a => (pool.heap a).len

def Filled (pool : Pool) (list : List Addr) : Prop := ∀ a ∈ list, (pool.heap a).Sound

variable {pool pool' pool'' : Pool} {list list' list'' : List Addr} {a : Addr}

theorem Owned.not_free (owned : Owned pool list) (member : a ∈ list) : a ∉ pool.free :=
  fun free => (List.nodup_append.mp owned.nodup).2.2 a free a member rfl

theorem Owned.mem_live (owned : Owned pool list) (member : a ∈ list) : a ∈ pool.live :=
  owned.live a (List.mem_append_right _ member)

theorem Framed.refl (owned : Owned pool list) : Framed pool pool list list :=
  ⟨owned, fun _ live apart => ⟨live, apart, rfl⟩⟩

theorem Framed.trans (first : Framed pool pool' list list') (second : Framed pool' pool'' list' list'') :
    Framed pool pool'' list list'' := by
  refine ⟨second.owned, fun a live apart => ?_⟩
  obtain ⟨live', apart', same⟩ := first.frame a live apart
  obtain ⟨live'', apart'', same'⟩ := second.frame a live' apart'
  exact ⟨live'', apart'', same'.trans same⟩

theorem Owned.nil (owned : Owned pool list) : Owned pool [] := by
  refine ⟨?_, fun a member => owned.live a ?_⟩
  · rw [List.append_nil]
    exact (List.nodup_append.mp owned.nodup).1
  · rw [List.append_nil] at member
    exact List.mem_append_left _ member

theorem Owned.right {kept : List Addr} (owned : Owned pool (kept ++ list)) : Owned pool list := by
  have inside : (pool.free ++ list).Sublist (pool.free ++ (kept ++ list)) :=
    (List.sublist_append_right kept list).append_left _
  exact ⟨owned.nodup.sublist inside, fun a member => owned.live a (inside.subset member)⟩

theorem Owned.append (first : Owned pool list) (second : Owned pool list')
    (apart : ∀ a ∈ list, a ∉ list') : Owned pool (list ++ list') := by
  constructor
  · rw [← List.append_assoc]
    refine List.nodup_append.mpr ⟨first.nodup, (List.nodup_append.mp second.nodup).2.1, ?_⟩
    rintro a member _ inSecond rfl
    rcases List.mem_append.mp member with free | inFirst
    · exact second.not_free inSecond free
    · exact apart a inFirst inSecond
  · intro a member
    simp only [List.mem_append] at member
    rcases member with free | inFirst | inSecond
    · exact first.live a (List.mem_append_left _ free)
    · exact first.mem_live inFirst
    · exact second.mem_live inSecond

theorem Owned.apart {kept : List Addr} (owned : Owned pool (kept ++ list)) (member : a ∈ kept) :
    a ∉ pool.free ++ list := by
  have split := List.nodup_append.mp owned.nodup
  intro other
  rcases List.mem_append.mp other with inFree | inList
  · exact split.2.2 a inFree a (List.mem_append_left _ member) rfl
  · exact (List.nodup_append.mp split.2.1).2.2 a member a inList rfl

/-- The frame rule: chunks owned on the side stay owned, with their contents. -/
theorem Framed.extend {kept : List Addr} (framed : Framed pool pool' list list')
    (owned : Owned pool (kept ++ list)) : Framed pool pool' (kept ++ list) (kept ++ list') := by
  have side (a : Addr) (member : a ∈ kept) :=
    framed.frame a (owned.mem_live (List.mem_append_left _ member)) (owned.apart member)
  refine ⟨⟨?_, ?_⟩, fun a live apart => ?_⟩
  · have moved : (pool'.free ++ (kept ++ list')).Perm (kept ++ (pool'.free ++ list')) := by
      rw [← List.append_assoc, ← List.append_assoc]
      exact List.perm_append_comm.append_right _
    have nodup := (List.nodup_append.mp (List.nodup_append.mp owned.nodup).2.1).1
    refine moved.nodup_iff.mpr (List.nodup_append.mpr ⟨nodup, framed.owned.nodup, ?_⟩)
    rintro a member _ other rfl
    exact (side a member).2.1 other
  · intro a member
    simp only [List.mem_append] at member
    rcases member with inFree | inKept | inList
    · exact framed.owned.live a (List.mem_append_left _ inFree)
    · exact (side a inKept).1
    · exact framed.owned.mem_live inList
  · simp only [List.mem_append, not_or] at apart
    have outside : a ∉ pool.free ++ list := by simp [apart]
    obtain ⟨live', apart', same⟩ := framed.frame a live outside
    refine ⟨live', ?_, same⟩
    simp only [List.mem_append, not_or] at apart' ⊢
    exact ⟨apart'.1, apart.2.1, apart'.2⟩

theorem Framed.same_side {kept : List Addr} (framed : Framed pool pool' list list')
    (owned : Owned pool (kept ++ list)) (member : a ∈ kept) : pool'.heap a = pool.heap a :=
  (framed.frame a (owned.mem_live (List.mem_append_left _ member)) (owned.apart member)).2.2

theorem chunks_congr (same : ∀ a ∈ list, pool'.heap a = pool.heap a) :
    pool'.chunks list = pool.chunks list :=
  List.map_congr_left fun a member => by rw [same a member]

theorem flat_congr (same : ∀ a ∈ list, pool'.heap a = pool.heap a) :
    pool'.flat list = pool.flat list := by rw [flat, flat, chunks_congr same]

theorem lens_congr (same : ∀ a ∈ list, pool'.heap a = pool.heap a) : pool'.lens list = pool.lens list :=
  List.map_congr_left fun a member => by rw [same a member]

theorem Filled.congr (filled : Filled pool list) (same : ∀ a ∈ list, pool'.heap a = pool.heap a) :
    Filled pool' list := fun a member => same a member ▸ filled a member

@[simp] theorem flat_nil : pool.flat [] = [] := rfl

theorem flat_cons : pool.flat (a :: list) = (pool.heap a).content ++ pool.flat list := rfl

theorem flat_append : pool.flat (list ++ list') = pool.flat list ++ pool.flat list' := by
  simp only [flat, chunks, List.map_append, List.flatten_append]

theorem load_eq (live : a ∈ pool.live) : pool.load a = some (pool.heap a) := if_pos live

theorem store_eq (buffer : Buffer) (live : a ∈ pool.live) :
    pool.store a buffer = some { pool with heap := Function.update pool.heap a buffer } := if_pos live

theorem store_framed (buffer : Buffer) (owned : Owned pool list) (member : a ∈ list) :
    Framed pool { pool with heap := Function.update pool.heap a buffer } list list := by
  refine ⟨⟨owned.nodup, owned.live⟩, fun other live apart => ⟨live, apart, ?_⟩⟩
  have different : other ≠ a := fun same => apart (List.mem_append_right _ (same ▸ member))
  exact Function.update_of_ne different ..

/-- Releasing a chunk gives it back, to the pool or to malloc. -/
theorem bufferRelease_spec (owned : Owned pool (a :: list)) : ∃ pool',
    pool.bufferRelease a = some pool' ∧ pool'.heap = pool.heap ∧ Framed pool pool' (a :: list) list := by
  have live := owned.mem_live List.mem_cons_self
  by_cases room : pool.free.length ≤ maxPoolSize
  · refine ⟨_, if_pos room, rfl, ⟨⟨?_, ?_⟩, ?_⟩⟩
    · simpa [free] using owned.nodup
    · intro b member
      apply owned.live b
      simpa [free] using member
    · intro b live apart
      refine ⟨live, ?_, rfl⟩
      simpa [free] using apart
  · refine ⟨_, (if_neg room).trans (if_pos live), rfl, ⟨⟨?_, ?_⟩, ?_⟩⟩
    · exact owned.nodup.sublist ((List.sublist_cons_self a list).append_left _)
    · intro b member
      have kept : b ∈ pool.free ++ a :: list :=
        ((List.sublist_cons_self a list).append_left _).subset member
      have different : b ≠ a := by
        rintro rfl
        have apart := List.nodup_middle.mp owned.nodup
        exact (List.nodup_cons.mp apart).1 member
      exact List.mem_filter.mpr ⟨owned.live b kept, decide_eq_true different⟩
    · intro b live apart
      have different : b ≠ a := by
        rintro rfl
        exact apart (by simp)
      refine ⟨List.mem_filter.mpr ⟨live, decide_eq_true different⟩, fun member => apart ?_, rfl⟩
      exact ((List.sublist_cons_self a list).append_left _).subset member

/-- A chunk from the pool or from malloc is nobody's. -/
theorem removeHeaderOrMalloc_spec (alloc : Allocator) (owned : Owned pool list) :
    (pool.removeHeaderOrMalloc alloc).2.heap = pool.heap ∧
    (pool.removeHeaderOrMalloc alloc).1 ∉ list ∧
    Framed pool (pool.removeHeaderOrMalloc alloc).2 list
      (list ++ [(pool.removeHeaderOrMalloc alloc).1]) := by
  cases available : pool.free with
  | nil =>
    have fresh := alloc.fresh pool.live
    have away : alloc.malloc pool.live ∉ list := fun member => fresh (owned.mem_live member)
    have nodup := owned.nodup
    simp only [available, List.nil_append] at nodup
    simp only [removeHeaderOrMalloc, available]
    refine ⟨trivial, away, ⟨⟨?_, ?_⟩, ?_⟩⟩
    · have disjoint : ∀ b ∈ list, b ≠ alloc.malloc pool.live := fun b member same => away (same ▸ member)
      simpa [free, List.nodup_append, nodup] using disjoint
    · intro b member
      have either : b ∈ list ∨ b = alloc.malloc pool.live := by simpa [free] using member
      rcases either with old | rfl
      · exact List.mem_cons_of_mem _ (owned.mem_live old)
      · exact List.mem_cons_self
    · intro b live apart
      have different : b ≠ alloc.malloc pool.live := fun same => fresh (same ▸ live)
      refine ⟨List.mem_cons_of_mem _ live, ?_, rfl⟩
      rw [available] at apart
      simpa [free, different] using apart
  | cons mb rest =>
    have inFree : mb ∈ pool.free := available ▸ List.mem_cons_self
    have moved : (rest ++ (list ++ [mb])).Perm (pool.free ++ list) := by
      rw [available, ← List.append_assoc]
      exact List.perm_append_singleton mb (rest ++ list)
    simp only [removeHeaderOrMalloc, available]
    refine ⟨trivial, fun member => owned.not_free member inFree, ⟨⟨?_, ?_⟩, ?_⟩⟩
    · exact moved.nodup_iff.mpr owned.nodup
    · exact fun b member => owned.live b (moved.subset member)
    · exact fun b live apart => ⟨live, fun member => apart (moved.subset member), rfl⟩

theorem getBufferFromPool_spec (alloc : Allocator) (owned : Owned pool list) : ∃ mb pool',
    pool.getBufferFromPool alloc = some (mb, pool') ∧ mb ∉ list ∧
    Framed pool pool' list (list ++ [mb]) ∧ (∀ a, a ≠ mb → pool'.heap a = pool.heap a) ∧
    (pool'.heap mb).len = 0 ∧ (pool'.heap mb).pos = 0 := by
  obtain ⟨heap, away, taken⟩ := removeHeaderOrMalloc_spec alloc owned
  rcases chosen : pool.removeHeaderOrMalloc alloc with ⟨mb, between⟩
  rw [chosen] at heap away taken
  have last := List.mem_append_right list (List.mem_singleton_self mb)
  have live := taken.owned.mem_live last
  have reset := store_framed { between.heap mb with len := 0, pos := 0 } taken.owned last
  refine ⟨mb, _, ?_, away, taken.trans reset, fun a other => ?_, ?_, ?_⟩
  · simp only [getBufferFromPool, chosen, load_eq live, store_eq _ live, Option.bind_eq_bind,
      Option.bind_some, Option.pure_def]
  · exact (Function.update_of_ne other ..).trans (congrFun heap a)
  · simp only [Function.update_self]
  · simp only [Function.update_self]

end Pool

end Devent
