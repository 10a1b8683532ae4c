import Devent.Library.Bytes
import Mathlib.Logic.Function.Basic

/-! The chunked buffers of devent/buffer.c. Chunks live in one heap and are
shared through a free list; a `DocketBuffer` holds the addresses of its chunks.
A missing result is an access outside the heap's live chunks or outside a
chunk's data, or a use of a buffer after its free. -/
namespace Devent

abbrev Addr := Nat

def bufferSize : Nat := 4096

def maxPoolSize : Nat := 1024

/-- `struct buffer`; the data array has its full size from malloc on. -/
structure Buffer where
  len : Nat
  pos : Nat
  data : List Byte
  size : data.length = bufferSize

namespace Buffer

/-- `memcpy(.., data + pos, n)`. -/
def slice (buffer : Buffer) (n : Nat) : Option (List Byte) :=
  if buffer.pos + n ≤ bufferSize then some ((buffer.data.drop buffer.pos).take n) else none

/-- `memcpy(data + pos + len, ..)` followed by `len += n`. -/
def fill (buffer : Buffer) (bytes : List Byte) : Option Buffer :=
  if fits : buffer.pos + buffer.len + bytes.length ≤ bufferSize then
    some {
      pos := buffer.pos
      len := buffer.len + bytes.length
      data := buffer.data.take (buffer.pos + buffer.len) ++
        (bytes ++ buffer.data.drop (buffer.pos + buffer.len + bytes.length))
      size := by
        have size := buffer.size
        simp only [List.length_append, List.length_take, List.length_drop]
        omega }
  else none

/-- `pos += n; len -= n`. -/
def consume (buffer : Buffer) (n : Nat) : Buffer :=
  { buffer with pos := buffer.pos + n, len := buffer.len - n }

/-- The bytes queued in a chunk. -/
def content (buffer : Buffer) : List Byte := (buffer.data.drop buffer.pos).take buffer.len

end Buffer

/-- Where malloc puts a new chunk, given the live ones. Allocation succeeds. -/
structure Allocator where
  malloc : List Addr → Addr
  fresh : ∀ live, malloc live ∉ live

/-- The heap of chunks with `buffer_pool`, which is NULL before its first use. -/
structure Pool where
  heap : Addr → Buffer
  live : List Addr
  bufferPool : Option (List Addr)

namespace Pool

def load (pool : Pool) (a : Addr) : Option Buffer := if a ∈ pool.live then some (pool.heap a) else none

def store (pool : Pool) (a : Addr) (buffer : Buffer) : Option Pool :=
  if a ∈ pool.live then some { pool with heap := Function.update pool.heap a buffer } else none

/-- The free chunks; a NULL list is created empty. -/
def free (pool : Pool) : List Addr := pool.bufferPool.getD []

/-- The header of the pool, else a new chunk. -/
def removeHeaderOrMalloc (alloc : Allocator) (pool : Pool) : Addr × Pool :=
  match pool.free with
  | [] => (alloc.malloc pool.live,
      { pool with live := alloc.malloc pool.live :: pool.live, bufferPool := some [] })
  | a :: rest => (a, { pool with bufferPool := some rest })

def getBufferFromPool (alloc : Allocator) (pool : Pool) : Option (Addr × Pool) := do
  let (a, pool) := pool.removeHeaderOrMalloc alloc
  let buffer ← pool.load a
  let pool ← pool.store a { buffer with len := 0, pos := 0 }
  return (a, pool)

def bufferRelease (pool : Pool) (a : Addr) : Option Pool :=
  if pool.free.length ≤ maxPoolSize then some { pool with bufferPool := some (pool.free ++ [a]) }
  else if a ∈ pool.live then
    some { pool with bufferPool := some pool.free, live := pool.live.filter (· ≠ a) }
  else none

end Pool

/-- The length of a queued chunk. -/
abbrev Chunk := { len : Nat // 0 < len ∧ len ≤ bufferSize }

/-- The chunks that `DocketBuffer_write` cuts its data into. -/
def chunksOf (len : Nat) : List Chunk :=
  List.replicate (len / bufferSize) ⟨bufferSize, by decide⟩ ++
    if rest : 0 < len % bufferSize then
      [⟨len % bufferSize, rest, Nat.le_of_lt (Nat.mod_lt _ (by decide))⟩] else []

structure DocketBuffer where
  length : Nat
  list : List Addr

namespace DocketBuffer

/-- The do-while loop of `DocketBuffer_write`: `mb` is the footer of `list`. -/
def writeLoop (alloc : Allocator) : Nat → Pool → Addr → List Addr → Nat → List Byte →
    Option (Nat × List Addr × Pool)
  | 0, _, _, _, _, _ => none
  | fuel + 1, pool, mb, list, writeLen, data => do
    let buffer ← pool.load mb
    let footerLeft := bufferSize - buffer.pos - buffer.len
    let filled ← buffer.fill (data.take footerLeft)
    let pool ← pool.store mb filled
    let left := data.drop footerLeft
    let writeLen := writeLen + (data.take footerLeft).length
    if left = [] then return (writeLen, list, pool)
    let (mb, pool) ← pool.getBufferFromPool alloc
    writeLoop alloc fuel pool mb (list ++ [mb]) writeLen left

/-- `none` is NULL data; the number of bytes is the length of the list. Each
round of the loop copies at least one byte. -/
def write (alloc : Allocator) (pool : Pool) (buffer : DocketBuffer) (data : Option (List Byte)) :
    Option (Int × DocketBuffer × Pool) :=
  match data with
  | none | some [] => some (0, buffer, pool)
  | some data => do
    let (mb, pool) ← pool.getBufferFromPool alloc
    let (writeLen, list, pool) ← writeLoop alloc data.length pool mb [mb] 0 data
    return (writeLen, ⟨buffer.length + writeLen, buffer.list ++ list⟩, pool)

/-- The loop of `DocketBuffer_read_internal`, with the bytes it copies out. -/
def readLoop (pool : Pool) (length left : Nat) : List Addr → Option (List Byte × DocketBuffer × Pool)
  | [] => some ([], ⟨length, []⟩, pool)
  | a :: rest => do
    let buf ← pool.load a
    if buf.len > left then
      let out ← buf.slice left
      let pool ← pool.store a (buf.consume left)
      return (out, ⟨length - left, a :: rest⟩, pool)
    else
      let out ← buf.slice buf.len
      let pool ← pool.bufferRelease a
      let (more, buffer, pool) ← readLoop pool (length - buf.len) (left - buf.len) rest
      return (out ++ more, buffer, pool)

/-- The loop of `DocketBuffer_peek_internal`. -/
def peekLoop (pool : Pool) (left : Nat) : List Addr → Option (List Byte)
  | [] => some []
  | a :: rest => do
    let mb ← pool.load a
    if mb.len = 0 then peekLoop pool left rest
    else if mb.len ≥ left then mb.slice left
    else
      let out ← mb.slice mb.len
      let more ← peekLoop pool (left - mb.len) rest
      return out ++ more

/-- `data` tells whether the caller's array is not NULL. -/
def readInternal (pool : Pool) (buffer : DocketBuffer) (data : Bool) (len : Nat) :
    Option (Int × List Byte × DocketBuffer × Pool) :=
  if data = false ∨ len = 0 then some (-1, [], buffer, pool)
  else do
    let (out, buffer, pool) ← readLoop pool buffer.length len buffer.list
    return (out.length, out, buffer, pool)

def peekInternal (pool : Pool) (buffer : DocketBuffer) (data : Bool) (len : Nat) :
    Option (Int × List Byte) :=
  if data = false ∨ len = 0 then some (-1, [])
  else do
    let out ← peekLoop pool len buffer.list
    return (out.length, out)

/-- The guard of `DocketBuffer_read_full`. -/
def readFull (pool : Pool) (buffer : DocketBuffer) (data : Bool) (len : Nat) :
    Option (Int × List Byte × DocketBuffer × Pool) :=
  if len > buffer.length then some (-1, [], buffer, pool) else buffer.readInternal pool data len

def peekFull (pool : Pool) (buffer : DocketBuffer) (data : Bool) (len : Nat) :
    Option (Int × List Byte) :=
  if len > buffer.length then some (-1, []) else buffer.peekInternal pool data len

end DocketBuffer

/-- All buffers made so far; a freed one is `none`. -/
structure World where
  pool : Pool
  buffers : List (Option DocketBuffer)

namespace World

def buffer (w : World) (i : Nat) : Option DocketBuffer := w.buffers[i]?.join

/-- `DocketBuffer_moveto`: the source is emptied before the destination is read,
so moving a buffer onto itself keeps it. -/
def moveto (w : World) (dest source : Nat) : Option (Nat × World) := do
  let data ← w.buffer source
  let w := { w with buffers := w.buffers.set source (some ⟨0, []⟩) }
  let target ← w.buffer dest
  return (data.length, { w with
    buffers := w.buffers.set dest (some ⟨target.length + data.length, target.list ++ data.list⟩) })

/-- Merging into a NULL pool does nothing, so the chunks are then lost. -/
def free (w : World) (i : Nat) : Option World := do
  let buffer ← w.buffer i
  return ⟨{ w.pool with bufferPool := w.pool.bufferPool.map (· ++ buffer.list) }, w.buffers.set i none⟩

end World

/-- A call on the buffers, named by the order of their creation. -/
inductive BufferOp where
  | new
  | write (buffer : Option Nat) (data : Option (List Byte))
  | read (buffer : Nat) (data : Bool) (len : Nat)
  | readFull (buffer : Nat) (data : Bool) (len : Nat)
  | peek (buffer : Nat) (data : Bool) (len : Nat)
  | peekFull (buffer : Nat) (data : Bool) (len : Nat)
  | moveto (dest source : Nat)
  | length (buffer : Nat)
  | free (buffer : Nat)

/-- What a call returns, and the bytes it delivers through the caller's array. -/
structure BufferResult where
  value : Int
  data : List Byte
  deriving DecidableEq

def BufferResult.bytes (data : List Byte) : BufferResult := ⟨data.length, data⟩

namespace World

def afterRead (w : World) (i : Nat) (read : Option (Int × List Byte × DocketBuffer × Pool)) :
    Option (World × BufferResult) := do
  let (value, data, buffer, pool) ← read
  return (⟨pool, w.buffers.set i (some buffer)⟩, ⟨value, data⟩)

def afterPeek (w : World) (peek : Option (Int × List Byte)) : Option (World × BufferResult) := do
  let (value, data) ← peek
  return (w, ⟨value, data⟩)

def step (alloc : Allocator) (w : World) : BufferOp → Option (World × BufferResult)
  | .new => some ({ w with buffers := w.buffers ++ [some ⟨0, []⟩] }, ⟨w.buffers.length, []⟩)
  | .write none _ => some (w, ⟨-1, []⟩)
  | .write (some i) data => do
    let buffer ← w.buffer i
    let (value, buffer, pool) ← buffer.write alloc w.pool data
    return (⟨pool, w.buffers.set i (some buffer)⟩, ⟨value, []⟩)
  | .read i data len => do
    let buffer ← w.buffer i
    w.afterRead i (buffer.readInternal w.pool data len)
  | .readFull i data len => do
    let buffer ← w.buffer i
    w.afterRead i (buffer.readFull w.pool data len)
  | .peek i data len => do
    let buffer ← w.buffer i
    w.afterPeek (buffer.peekInternal w.pool data len)
  | .peekFull i data len => do
    let buffer ← w.buffer i
    w.afterPeek (buffer.peekFull w.pool data len)
  | .moveto dest source => do
    let (size, w) ← w.moveto dest source
    return (w, ⟨size, []⟩)
  | .length i => do
    let buffer ← w.buffer i
    return (w, ⟨buffer.length, []⟩)
  | .free i => do
    let w ← w.free i
    return (w, ⟨0, []⟩)

/-- No buffer and no pool yet; the heap holds whatever malloc will find. -/
def start (heap : Addr → Buffer) : World := ⟨⟨heap, [], none⟩, []⟩

end World

/-- The specification: one byte queue per buffer, `none` once it is freed. -/
abbrev Queues := List (Option (List Byte))

namespace Queues

def queue (queues : Queues) (i : Nat) : Option (List Byte) := queues[i]?.join

def refused (queues : Queues) : Queues × BufferResult := (queues, ⟨-1, []⟩)

def delivered (queues : Queues) (bytes : List Byte) : Queues × BufferResult :=
  (queues, .bytes bytes)

def step (queues : Queues) : BufferOp → Option (Queues × BufferResult)
  | .new => some (queues ++ [some []], ⟨queues.length, []⟩)
  | .write none _ => some queues.refused
  | .write (some i) data => do
    let bytes ← queues.queue i
    return (queues.set i (some (bytes ++ data.getD [])), ⟨(data.getD []).length, []⟩)
  | .read i data len => do
    let bytes ← queues.queue i
    return if data = true ∧ 0 < len then
      delivered (queues.set i (some (bytes.drop len))) (bytes.take len) else queues.refused
  | .readFull i data len => do
    let bytes ← queues.queue i
    return if (data = true ∧ 0 < len) ∧ len ≤ bytes.length then
      delivered (queues.set i (some (bytes.drop len))) (bytes.take len) else queues.refused
  | .peek i data len => do
    let bytes ← queues.queue i
    return if data = true ∧ 0 < len then queues.delivered (bytes.take len) else queues.refused
  | .peekFull i data len => do
    let bytes ← queues.queue i
    return if (data = true ∧ 0 < len) ∧ len ≤ bytes.length then queues.delivered (bytes.take len)
      else queues.refused
  | .moveto dest source => do
    let data ← queues.queue source
    let queues := queues.set source (some [])
    let bytes ← queue queues dest
    return (queues.set dest (some (bytes ++ data)), ⟨data.length, []⟩)
  | .length i => do
    let bytes ← queues.queue i
    return (queues, ⟨bytes.length, []⟩)
  | .free i => do
    let _ ← queues.queue i
    return (queues.set i none, ⟨0, []⟩)

end Queues

end Devent
