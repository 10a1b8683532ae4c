import Devent.Event.OutputStream

/-! The buffers of devent/buffer.c in the DEVENT_MULTI_THREAD build, with `LOCK` expanded: a `return`
inside the block skips the unlock behind it. Mutexes are not recursive, so locking a held one blocks
for ever; the mutex of a freed buffer is destroyed. -/
namespace Devent

/-- The buffers, and those whose mutex is locked. -/
structure Threaded where
  world : World
  held : List Nat

inductive Stuck where
  | blocked
  | undefined
  deriving DecidableEq

/-- The statements of a function; an `.error` of the inner `Except` is a `return` among them. -/
def Body (α : Type) : Type := Threaded → Except Stuck (Except BufferResult α × Threaded)

namespace Body

variable {α β : Type}

protected def pure (a : α) : Body α := fun s => .ok (.ok a, s)

protected def bind (body : Body α) (f : α → Body β) : Body β := fun s =>
  match body s with
  | .ok (.ok a, s) => f a s
  | .ok (.error result, s) => .ok (.error result, s)
  | .error stuck => .error stuck

instance : Monad Body where
  pure := Body.pure
  bind := Body.bind

/-- `return` from the function. -/
def exit (result : BufferResult) : Body α := fun s => .ok (.error result, s)

/-- Statements about buffers and chunks. -/
def work (f : World → Option (α × World)) : Body α := fun s =>
  match f s.world with
  | none => .error .undefined
  | some (a, world) => .ok (.ok a, { s with world })

/-- `pthread_mutex_lock(&(buf)->mutex)`. -/
def mutexLock (i : Nat) : Body Unit := fun s =>
  if (s.world.buffer i).isNone then .error .undefined
  else if i ∈ s.held then .error .blocked
  else .ok (.ok (), { s with held := i :: s.held })

def mutexUnlock (i : Nat) : Body Unit := fun s => .ok (.ok (), { s with held := s.held.erase i })

/-- Destroying a locked mutex is undefined. -/
def mutexDestroy (i : Nat) : Body Unit := fun s => if i ∈ s.held then .error .undefined else .ok (.ok (), s)

/-- The macro `LOCK`. -/
def lock (i : Nat) (block : Body α) : Body α := do
  mutexLock i
  let a ← block
  mutexUnlock i
  return a

def load (i : Nat) : Body DocketBuffer := work fun w => (w.buffer i).map (·, w)

def store (i : Nat) (buffer : DocketBuffer) : Body Unit :=
  work fun w => some ((), { w with buffers := w.buffers.set i (some buffer) })

/-- The chunks of `DocketBuffer_write`, filled before the lock. -/
def writeChunks (alloc : Allocator) (data : List Byte) : Body (Nat × List Addr) := work fun w => do
  let (mb, pool) ← w.pool.getBufferFromPool alloc
  let (writeLen, list, pool) ← DocketBuffer.writeLoop alloc data.length pool mb [mb] 0 data
  return ((writeLen, list), { w with pool })

def write (alloc : Allocator) (buffer : Option Nat) (data : Option (List Byte)) : Body BufferResult :=
  match buffer, data with
  | none, _ => return ⟨-1, []⟩
  | some _, none | some _, some [] => return ⟨0, []⟩
  | some i, some data => do
    let (writeLen, list) ← writeChunks alloc data
    lock i do
      let buffer ← load i
      store i ⟨buffer.length + writeLen, buffer.list ++ list⟩
    return ⟨writeLen, []⟩

def readInternal (i : Nat) (data : Bool) (len : Nat) : Body BufferResult := work fun w => do
  let buffer ← w.buffer i
  let (w, result) ← w.afterRead i (buffer.readInternal w.pool data len)
  return (result, w)

def peekInternal (i : Nat) (data : Bool) (len : Nat) : Body BufferResult := work fun w => do
  let buffer ← w.buffer i
  let (w, result) ← w.afterPeek (buffer.peekInternal w.pool data len)
  return (result, w)

def read (i : Nat) (data : Bool) (len : Nat) : Body BufferResult := lock i (readInternal i data len)

/-- The block of the full reads; its `return -1` leaves the function. -/
def guarded (i len : Nat) (body : Body BufferResult) : Body BufferResult :=
  lock i do
    let buffer ← load i
    if len > buffer.length then exit ⟨-1, []⟩ else body

def readFull (i : Nat) (data : Bool) (len : Nat) : Body BufferResult := guarded i len (readInternal i data len)

def peek (i : Nat) (data : Bool) (len : Nat) : Body BufferResult := lock i (peekInternal i data len)

def peekFull (i : Nat) (data : Bool) (len : Nat) : Body BufferResult := guarded i len (peekInternal i data len)

def moveto (dest source : Nat) : Body BufferResult := do
  let data ← lock source do
    let data ← load source
    store source ⟨0, []⟩
    return data
  lock dest do
    let target ← load dest
    store dest ⟨target.length + data.length, target.list ++ data.list⟩
  return ⟨data.length, []⟩

def free (i : Nat) : Body BufferResult := do
  lock i (work fun w => (w.free i).map ((), ·))
  mutexDestroy i
  return ⟨0, []⟩

/-- `DocketBuffer_new` and `DocketBuffer_length` take no lock. -/
def unlocked (alloc : Allocator) (op : BufferOp) : Body BufferResult := work fun w => (w.step alloc op).map Prod.swap

def call (alloc : Allocator) : BufferOp → Body BufferResult
  | .new => unlocked alloc .new
  | .write buffer data => write alloc buffer data
  | .read i data len => read i data len
  | .readFull i data len => readFull i data len
  | .peek i data len => peek i data len
  | .peekFull i data len => peekFull i data len
  | .moveto dest source => moveto dest source
  | .length i => unlocked alloc (.length i)
  | .free i => free i

end Body

namespace Threaded

/-- A call on its own, however it returns. -/
def call (alloc : Allocator) (s : Threaded) (op : BufferOp) : Except Stuck (Threaded × BufferResult) :=
  match Body.call alloc op s with
  | .ok (.ok result, s) | .ok (.error result, s) => .ok (s, result)
  | .error stuck => .error stuck

/-- Calls that return. -/
def step (alloc : Allocator) (s : Threaded) (op : BufferOp) : Option (Threaded × BufferResult) :=
  (s.call alloc op).toOption

def start (heap : Addr → Buffer) : Threaded := ⟨World.start heap, []⟩

/-- No mutex is held, and no call waits for one. -/
def Balanced (alloc : Allocator) (s : Threaded) : Prop := s.held = [] ∧ ∀ op, s.call alloc op ≠ .error .blocked

/-- No more is asked of a buffer than is in it. -/
def WithinLength (s : Threaded) : BufferOp → Prop
  | .readFull i _ len | .peekFull i _ len => ∀ buffer, s.world.buffer i = some buffer → len ≤ buffer.length
  | _ => True

end Threaded

namespace Body

variable {α β : Type} {body : Body α} {f : α → Body β} {held : List Nat} {w w' w'' : World} {a : α} {b : β}

/-- What is held stays held, nothing blocks, and nothing returns from inside. -/
def Keeps (held : List Nat) (body : Body α) : Prop := ∀ w,
  body ⟨w, held⟩ = .error .undefined ∨ ∃ a w', body ⟨w, held⟩ = .ok (.ok a, ⟨w', held⟩)

theorem keeps_pure (held : List Nat) (a : α) : Keeps held (pure a : Body α) := fun w => .inr ⟨a, w, rfl⟩

theorem keeps_work (held : List Nat) (f : World → Option (α × World)) : Keeps held (work f) := by
  intro w
  rw [work]
  cases done : f w with
  | none => exact .inl rfl
  | some pair => exact .inr ⟨pair.1, pair.2, rfl⟩

theorem bind_of_ok (done : body ⟨w, held⟩ = .ok (.ok a, ⟨w', held⟩)) :
    (body >>= f) ⟨w, held⟩ = f a ⟨w', held⟩ := by
  show Body.bind body f ⟨w, held⟩ = _
  rw [Body.bind, done]

theorem Keeps.bind (first : Keeps held body) (second : ∀ a, Keeps held (f a)) : Keeps held (body >>= f) := by
  intro w
  obtain undefined | ⟨a, w', done⟩ := first w
  · refine .inl ?_
    show Body.bind body f ⟨w, held⟩ = _
    rw [Body.bind, undefined]
  · rw [bind_of_ok done]
    exact second a w'

/-- The macro around a block, of which only the end is unlocked. -/
theorem lock_eq {i : Nat} {block : Body α} (released : i ∉ held) : lock i block ⟨w, held⟩ =
    if (w.buffer i).isNone then .error .undefined
    else match block ⟨w, i :: held⟩ with
      | .ok (.ok a, s) => .ok (.ok a, { s with held := s.held.erase i })
      | .ok (.error result, s) => .ok (.error result, s)
      | .error stuck => .error stuck := by
  show Body.bind (mutexLock i) (fun _ => Body.bind block fun a => Body.bind (mutexUnlock i) fun _ => Body.pure a) _ = _
  by_cases gone : (w.buffer i).isNone = true
  · simp only [Body.bind, mutexLock, if_pos gone]
  · simp only [Body.bind, mutexLock, if_neg gone, if_neg released]
    split <;> simp only [mutexUnlock, Body.pure]

theorem Keeps.lock {i : Nat} {block : Body α} (kept : Keeps (i :: held) block) (released : i ∉ held) :
    Keeps held (lock i block) := by
  intro w
  rw [lock_eq released]
  by_cases gone : (w.buffer i).isNone = true
  · exact .inl (if_pos gone)
  · rw [if_neg gone]
    obtain undefined | ⟨a, w', done⟩ := kept w
    · rw [undefined]
      exact .inl rfl
    · rw [done]
      refine .inr ⟨a, w', ?_⟩
      simp only [List.erase_cons_head]

theorem keeps_mutexDestroy {i : Nat} (released : i ∉ held) : Keeps held (mutexDestroy i) :=
  fun w => .inr ⟨(), w, if_neg released⟩

variable {alloc : Allocator}

theorem unlocked_keeps (op : BufferOp) : Keeps [] (unlocked alloc op) := keeps_work [] _

theorem write_keeps (buffer : Option Nat) (data : Option (List Byte)) : Keeps [] (write alloc buffer data) := by
  match buffer, data with
  | none, _ => exact keeps_pure [] _
  | some _, none => exact keeps_pure [] _
  | some _, some [] => exact keeps_pure [] _
  | some i, some (first :: rest) =>
    refine (keeps_work [] _).bind fun chunks => Keeps.bind ?_ fun _ => keeps_pure [] _
    exact ((keeps_work _ _).bind fun buffer => keeps_work _ _).lock List.not_mem_nil

theorem read_keeps (i : Nat) (data : Bool) (len : Nat) : Keeps [] (read i data len) :=
  (keeps_work _ _).lock List.not_mem_nil

theorem peek_keeps (i : Nat) (data : Bool) (len : Nat) : Keeps [] (peek i data len) :=
  (keeps_work _ _).lock List.not_mem_nil

theorem moveto_keeps (dest source : Nat) : Keeps [] (moveto dest source) := by
  have first : Keeps [source] (do
      let data ← load source
      store source ⟨0, []⟩
      return data) := (keeps_work _ _).bind fun data => (keeps_work _ _).bind fun _ => keeps_pure _ _
  have second (data : DocketBuffer) : Keeps [dest] (do
      let target ← load dest
      store dest ⟨target.length + data.length, target.list ++ data.list⟩) :=
    (keeps_work _ _).bind fun target => keeps_work _ _
  refine (first.lock List.not_mem_nil).bind fun data => ?_
  exact ((second data).lock List.not_mem_nil).bind fun _ => keeps_pure [] _

theorem free_keeps (i : Nat) : Keeps [] (free i) := by
  refine ((keeps_work _ _).lock List.not_mem_nil).bind fun _ => ?_
  exact (keeps_mutexDestroy List.not_mem_nil).bind fun _ => keeps_pure [] _

theorem work_of_some {f : World → Option (α × World)} (done : f w = some (a, w')) :
    work f ⟨w, held⟩ = .ok (.ok a, ⟨w', held⟩) := by
  rw [work, done]

theorem load_of_held {i : Nat} {buffer : DocketBuffer} (present : w.buffer i = some buffer) :
    load i ⟨w, held⟩ = .ok (.ok buffer, ⟨w, held⟩) := by
  refine work_of_some ?_
  rw [present]
  rfl

/-- A buffer with enough in it is read as without the guard. -/
theorem guarded_within {i len : Nat} {buffer : DocketBuffer} {body : Body BufferResult}
    (held : w.buffer i = some buffer) (within : len ≤ buffer.length) :
    guarded i len body ⟨w, []⟩ = lock i body ⟨w, []⟩ := by
  rw [guarded, lock_eq List.not_mem_nil, lock_eq List.not_mem_nil, bind_of_ok (load_of_held held),
    if_neg (Nat.not_lt.mpr within)]

/-- Asked for more, the guard returns with the mutex locked. -/
theorem guarded_beyond {i len : Nat} {buffer : DocketBuffer} {body : Body BufferResult}
    (held : w.buffer i = some buffer) (beyond : buffer.length < len) :
    guarded i len body ⟨w, []⟩ = .ok (.error ⟨-1, []⟩, ⟨w, [i]⟩) := by
  have present : ¬(w.buffer i).isNone = true := by
    rw [held]
    exact Bool.false_ne_true
  rw [guarded, lock_eq List.not_mem_nil, if_neg present, bind_of_ok (load_of_held held), if_pos beyond]
  rfl

/-- On a freed buffer already the lock is undefined. -/
theorem lock_gone {i : Nat} {block : Body α} (gone : w.buffer i = none) : lock i block ⟨w, []⟩ = .error .undefined := by
  rw [lock_eq List.not_mem_nil, gone]
  rfl

theorem guarded_keeps {i len : Nat} {body : Body BufferResult} (kept : Keeps [] (lock i body))
    (within : ∀ buffer, w.buffer i = some buffer → len ≤ buffer.length) :
    guarded i len body ⟨w, []⟩ = .error .undefined ∨
      ∃ a w', guarded i len body ⟨w, []⟩ = .ok (.ok a, ⟨w', []⟩) := by
  cases held : w.buffer i with
  | none =>
    rw [guarded]
    exact .inl (lock_gone held)
  | some buffer =>
    rw [guarded_within held (within buffer held)]
    exact kept w

theorem call_within (alloc : Allocator) {op : BufferOp} (within : Threaded.WithinLength ⟨w, []⟩ op) :
    call alloc op ⟨w, []⟩ = .error .undefined ∨ ∃ a w', call alloc op ⟨w, []⟩ = .ok (.ok a, ⟨w', []⟩) := by
  cases op with
  | new => exact unlocked_keeps _ w
  | write buffer data => exact write_keeps buffer data w
  | read i data len => exact read_keeps i data len w
  | readFull i data len => exact guarded_keeps (read_keeps i data len) within
  | peek i data len => exact peek_keeps i data len w
  | peekFull i data len => exact guarded_keeps (peek_keeps i data len) within
  | moveto dest source => exact moveto_keeps dest source w
  | length i => exact unlocked_keeps _ w
  | free i => exact free_keeps i w

theorem guarded_stays {i len : Nat} {body : Body BufferResult}
    (beyond : ¬∀ buffer, w.buffer i = some buffer → len ≤ buffer.length) :
    ∃ j, guarded i len body ⟨w, []⟩ = .ok (.error ⟨-1, []⟩, ⟨w, [j]⟩) := by
  obtain ⟨buffer, held, more⟩ : ∃ buffer, w.buffer i = some buffer ∧ ¬len ≤ buffer.length := by
    simpa only [not_forall, exists_prop] using beyond
  exact ⟨i, guarded_beyond held (Nat.lt_of_not_le more)⟩

theorem call_beyond (alloc : Allocator) {op : BufferOp} (beyond : ¬Threaded.WithinLength ⟨w, []⟩ op) :
    ∃ i, call alloc op ⟨w, []⟩ = .ok (.error ⟨-1, []⟩, ⟨w, [i]⟩) := by
  cases op with
  | readFull i data len => exact guarded_stays beyond
  | peekFull i data len => exact guarded_stays beyond
  | _ => exact absurd trivial beyond

variable {op : BufferOp} {result : BufferResult}

theorem lock_of_ok {i : Nat} {block : Body α} (present : (w.buffer i).isSome) (released : i ∉ held)
    (done : block ⟨w, i :: held⟩ = .ok (.ok a, ⟨w', i :: held⟩)) :
    lock i block ⟨w, held⟩ = .ok (.ok a, ⟨w', held⟩) := by
  have there : ¬(w.buffer i).isNone = true := by
    rw [Option.isNone_iff_eq_none]
    exact Option.isSome_iff_ne_none.mp present
  rw [lock_eq released, if_neg there, done]
  simp only [List.erase_cons_head]

theorem unlocked_follows (taken : w.step alloc op = some (w', result)) :
    unlocked alloc op ⟨w, []⟩ = .ok (.ok result, ⟨w', []⟩) := by
  refine work_of_some ?_
  rw [taken]
  rfl

theorem lock_work_follows {i : Nat} {buffer : DocketBuffer} {f : World → Option (α × World)}
    (present : w.buffer i = some buffer) (done : f w = some (a, w')) :
    lock i (work f) ⟨w, []⟩ = .ok (.ok a, ⟨w', []⟩) :=
  lock_of_ok (present ▸ rfl) List.not_mem_nil (work_of_some done)

theorem read_follows {i len : Nat} {data : Bool} (taken : w.step alloc (.read i data len) = some (w', result)) :
    read i data len ⟨w, []⟩ = .ok (.ok result, ⟨w', []⟩) := by
  simp only [World.step, Option.bind_eq_bind, Option.bind_eq_some_iff] at taken
  obtain ⟨buffer, held, done⟩ := taken
  refine lock_work_follows held ?_
  simp only [Option.bind_eq_bind, held, Option.bind_some, done]
  rfl

theorem peek_follows {i len : Nat} {data : Bool} (taken : w.step alloc (.peek i data len) = some (w', result)) :
    peek i data len ⟨w, []⟩ = .ok (.ok result, ⟨w', []⟩) := by
  simp only [World.step, Option.bind_eq_bind, Option.bind_eq_some_iff] at taken
  obtain ⟨buffer, held, done⟩ := taken
  refine lock_work_follows held ?_
  simp only [Option.bind_eq_bind, held, Option.bind_some, done]
  rfl

theorem readFull_follows {i len : Nat} {data : Bool}
    (within : ∀ buffer, w.buffer i = some buffer → len ≤ buffer.length)
    (taken : w.step alloc (.readFull i data len) = some (w', result)) :
    readFull i data len ⟨w, []⟩ = .ok (.ok result, ⟨w', []⟩) := by
  have same : w.step alloc (.read i data len) = some (w', result) := by
    simp only [World.step, Option.bind_eq_bind, Option.bind_eq_some_iff] at taken ⊢
    obtain ⟨buffer, held, done⟩ := taken
    rw [DocketBuffer.readFull, if_neg (Nat.not_lt.mpr (within buffer held))] at done
    exact ⟨buffer, held, done⟩
  obtain ⟨buffer, held, -⟩ := Option.bind_eq_some_iff.mp taken
  exact (guarded_within held (within buffer held)).trans (read_follows same)

theorem peekFull_follows {i len : Nat} {data : Bool}
    (within : ∀ buffer, w.buffer i = some buffer → len ≤ buffer.length)
    (taken : w.step alloc (.peekFull i data len) = some (w', result)) :
    peekFull i data len ⟨w, []⟩ = .ok (.ok result, ⟨w', []⟩) := by
  have same : w.step alloc (.peek i data len) = some (w', result) := by
    simp only [World.step, Option.bind_eq_bind, Option.bind_eq_some_iff] at taken ⊢
    obtain ⟨buffer, held, done⟩ := taken
    rw [DocketBuffer.peekFull, if_neg (Nat.not_lt.mpr (within buffer held))] at done
    exact ⟨buffer, held, done⟩
  obtain ⟨buffer, held, -⟩ := Option.bind_eq_some_iff.mp taken
  exact (guarded_within held (within buffer held)).trans (peek_follows same)

theorem store_follows (i : Nat) (buffer : DocketBuffer) : store i buffer ⟨w, held⟩ =
    .ok (.ok (), ⟨{ w with buffers := w.buffers.set i (some buffer) }, held⟩) := work_of_some rfl

/-- An update of a buffer under its lock. -/
theorem lock_update {i : Nat} {buffer : DocketBuffer} (f : DocketBuffer → DocketBuffer)
    (present : w.buffer i = some buffer) : lock i (do
      let buffer ← load i
      store i (f buffer)) ⟨w, []⟩ = .ok (.ok (), ⟨{ w with buffers := w.buffers.set i (some (f buffer)) }, []⟩) := by
  refine lock_of_ok (present ▸ rfl) List.not_mem_nil ?_
  rw [bind_of_ok (load_of_held present), store_follows]

theorem set_held {i : Nat} {buffer : DocketBuffer} (present : w.buffer i = some buffer) :
    w.buffers.set i (some buffer) = w.buffers := by
  obtain ⟨bound, same⟩ := List.getElem?_eq_some_iff.mp (Option.join_eq_some_iff.mp present)
  rw [← same, List.set_getElem_self]

theorem write_follows {buffer : Option Nat} {data : Option (List Byte)}
    (taken : w.step alloc (.write buffer data) = some (w', result)) :
    write alloc buffer data ⟨w, []⟩ = .ok (.ok result, ⟨w', []⟩) := by
  match buffer, data with
  | none, _ =>
    cases taken
    rfl
  | some i, none | some i, some [] =>
    obtain ⟨buffer, present, done⟩ := Option.bind_eq_some_iff.mp taken
    cases done
    rw [set_held present]
    rfl
  | some i, some (first :: rest) =>
    simp only [World.step, DocketBuffer.write, Option.bind_eq_bind, Option.bind_eq_some_iff, Prod.exists,
      Option.pure_def, Option.some.injEq, Prod.mk.injEq] at taken
    obtain ⟨buffer, present, value, buffer', pool', ⟨mb, pool, got, writeLen, list, filled, looped, rfl, rfl, rfl⟩,
      rfl, rfl⟩ := taken
    have chunks : writeChunks alloc (first :: rest) ⟨w, []⟩ =
        .ok (.ok (writeLen, list), ⟨{ w with pool := filled }, []⟩) := by
      refine work_of_some ?_
      simp only [Option.bind_eq_bind, got, Option.bind_some, looped]
      rfl
    have present' : World.buffer { w with pool := filled } i = some buffer := present
    rw [write, bind_of_ok chunks]
    · exact bind_of_ok (lock_update (fun buffer => ⟨buffer.length + writeLen, buffer.list ++ list⟩) present')
    · exact List.cons_ne_nil first rest

theorem moveto_follows {dest source : Nat} (taken : w.step alloc (.moveto dest source) = some (w', result)) :
    moveto dest source ⟨w, []⟩ = .ok (.ok result, ⟨w', []⟩) := by
  simp only [World.step, World.moveto, Option.bind_eq_bind, Option.bind_eq_some_iff, Prod.exists,
    Option.pure_def, Option.some.injEq, Prod.mk.injEq] at taken
  obtain ⟨size, moved, ⟨data, present, target, present', rfl, rfl⟩, rfl, rfl⟩ := taken
  have first : lock source (do
      let data ← load source
      store source ⟨0, []⟩
      return data) ⟨w, []⟩ = .ok (.ok data, ⟨{ w with buffers := w.buffers.set source (some ⟨0, []⟩) }, []⟩) := by
    refine lock_of_ok (present ▸ rfl) List.not_mem_nil ?_
    rw [bind_of_ok (load_of_held present), bind_of_ok (store_follows source ⟨0, []⟩)]
    rfl
  rw [moveto, bind_of_ok first]
  exact bind_of_ok (lock_update (fun target => ⟨target.length + data.length, target.list ++ data.list⟩) present')

theorem free_follows {i : Nat} (taken : w.step alloc (.free i) = some (w', result)) :
    free i ⟨w, []⟩ = .ok (.ok result, ⟨w', []⟩) := by
  simp only [World.step, Option.bind_eq_bind, Option.bind_eq_some_iff, Option.pure_def, Option.some.injEq,
    Prod.mk.injEq] at taken
  obtain ⟨freed, done, rfl, rfl⟩ := taken
  obtain ⟨buffer, present, -⟩ := Option.bind_eq_some_iff.mp done
  have locked : lock i (work fun w => (w.free i).map ((), ·)) ⟨w, []⟩ = .ok (.ok (), ⟨freed, []⟩) := by
    refine lock_work_follows present ?_
    rw [done]
    rfl
  rw [free, bind_of_ok locked]
  rfl

theorem call_follows (within : Threaded.WithinLength ⟨w, []⟩ op) (taken : w.step alloc op = some (w', result)) :
    call alloc op ⟨w, []⟩ = .ok (.ok result, ⟨w', []⟩) := by
  cases op with
  | new => exact unlocked_follows taken
  | write buffer data => exact write_follows taken
  | read i data len => exact read_follows taken
  | readFull i data len => exact readFull_follows within taken
  | peek i data len => exact peek_follows taken
  | peekFull i data len => exact peekFull_follows within taken
  | moveto dest source => exact moveto_follows taken
  | length i => exact unlocked_follows taken
  | free i => exact free_follows taken

end Body

namespace Threaded

variable {alloc : Allocator} {w w' : World} {op : BufferOp} {result : BufferResult}

theorem balanced_released (alloc : Allocator) (w : World) : Balanced alloc ⟨w, []⟩ := by
  refine ⟨rfl, fun op => ?_⟩
  by_cases within : WithinLength ⟨w, []⟩ op
  · obtain undefined | ⟨a, w', done⟩ := Body.call_within alloc within
    · rw [call, undefined]
      exact fun same => by cases same
    · rw [call, done]
      exact fun same => by cases same
  · obtain ⟨i, done⟩ := Body.call_beyond alloc within
    rw [call, done]
    exact fun same => by cases same

theorem step_within {s next : Threaded} (released : s.held = []) (within : WithinLength s op)
    (taken : step alloc s op = some (next, result)) : next.held = [] := by
  obtain ⟨w, held⟩ := s
  subst released
  rw [step, call] at taken
  obtain undefined | ⟨a, w', done⟩ := Body.call_within alloc within
  · rw [undefined] at taken
    cases taken
  · rw [done] at taken
    cases taken
    rfl

theorem step_beyond (alloc : Allocator) {s : Threaded} (released : s.held = []) (beyond : ¬WithinLength s op) :
    ∃ next, step alloc s op = some (next, ⟨-1, []⟩) ∧ next.held ≠ [] := by
  obtain ⟨w, held⟩ := s
  subst released
  obtain ⟨i, done⟩ := Body.call_beyond alloc beyond
  refine ⟨⟨w, [i]⟩, ?_, List.cons_ne_nil _ _⟩
  rw [step, call, done]
  rfl

/-- Runs within the lengths are those of the other build. -/
theorem run_follows {ops : List BufferOp} {results : List BufferResult}
    (within : Run.Along (World.step alloc) (fun w op => WithinLength ⟨w, []⟩ op) w ops)
    (path : Run.run (World.step alloc) w ops = some (w', results)) :
    Run.run (step alloc) ⟨w, []⟩ ops = some (⟨w', []⟩, results) := by
  induction ops generalizing w results with
  | nil =>
    cases path
    rfl
  | cons op rest ih =>
    obtain ⟨next, result, tail, taken, path', rfl⟩ := Run.run_cons_iff.mp path
    have locked : step alloc ⟨w, []⟩ op = some (⟨next, []⟩, result) := by
      rw [step, call, Body.call_follows within.1 taken]
      rfl
    exact Run.run_cons_iff.mpr ⟨_, result, tail, locked, ih (within.2 next result taken) path', rfl⟩

/-- Behind every call of a run all mutexes are released, and none blocks, exactly if no call asks a
buffer for more than it holds. -/
theorem balanced_iff (alloc : Allocator) (heap : Addr → Buffer) (ops : List BufferOp) :
    (∀ arrived, arrived <+: ops → ∀ middle results,
        Run.run (step alloc) (start heap) arrived = some (middle, results) → Balanced alloc middle) ↔
      Run.Along (step alloc) WithinLength (start heap) ops := by
  have good {s : Threaded} (released : s.held = []) : Balanced alloc s := by
    obtain ⟨w, held⟩ := s
    subst released
    exact balanced_released alloc w
  have breaks {s : Threaded} {op : BufferOp} (released : s.held = []) (beyond : ¬WithinLength s op) :
      ∃ next out, step alloc s op = some (next, out) ∧ ¬Balanced alloc next := by
    obtain ⟨next, taken, leaked⟩ := step_beyond alloc released beyond
    exact ⟨next, _, taken, fun balanced => leaked balanced.1⟩
  exact Run.all_states_iff_along good step_within breaks rfl

/-- A full read of one byte from a new buffer returns -1, and every read behind it blocks. -/
theorem short_full_read_blocks : ¬∀ arrived, arrived <+: [BufferOp.new, .readFull 0 true 1] → ∀ middle results,
    Run.run (step OutputStream.bumpAllocator) (start OutputStream.zeroHeap) arrived = some (middle, results) →
      Balanced OutputStream.bumpAllocator middle := by
  intro all
  have blocked : ((Run.run (step OutputStream.bumpAllocator) (start OutputStream.zeroHeap)
      [.new, .readFull 0 true 1]).map fun pair =>
        (pair.1.held, match pair.1.call OutputStream.bumpAllocator (.read 0 true 1) with
          | .error stuck => some stuck
          | .ok _ => none)) = some ([0], some .blocked) := by decide +kernel
  obtain ⟨⟨middle, results⟩, path, observed⟩ := Option.map_eq_some_iff.mp blocked
  have released := (all _ (List.prefix_refl _) middle results path).1
  rw [released] at observed
  cases observed

end Threaded

end Devent
