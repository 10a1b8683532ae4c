import Devent.Event.OutputStream
import Devent.Library.Pipe
import Mathlib.Logic.Relation

/-! The way of the bytes from an out-buffer through the kernel to the peer that reads them. As long as
no send is short it is a pipe: a send that is refused, and one that takes the whole head chunk, leave the
bytes in flight, in the out-buffer or in the kernel. -/
namespace Devent

/-- An out-buffer, and how much of what the kernel has accepted the peer has read. -/
structure Delivery where
  stream : OutputStream
  read : Nat

inductive DeliveryOp where
  | call (op : StreamOp)
  | peerReads (n : Nat)

namespace Delivery

/-- What has been accepted and not been read. -/
def arrived (delivery : Delivery) : List Byte := delivery.stream.accepted.drop delivery.read

/-- The peer reads what the kernel has accepted, in its order; it is returned the bytes. -/
def step (alloc : Allocator) (delivery : Delivery) : DeliveryOp → Option (Delivery × List Byte)
  | .call op => (delivery.stream.step alloc op).map fun (stream, _) => ({ delivery with stream := stream }, [])
  | .peerReads n =>
    if n ≤ delivery.arrived.length then
      some ({ delivery with read := delivery.read + n }, delivery.arrived.take n)
    else none

/-- A new out-buffer, and a peer that has read nothing. -/
def start (heap : Addr → Buffer) : Delivery := ⟨OutputStream.start heap, 0⟩

/-- No send is short. -/
def WholeChunk (delivery : Delivery) : DeliveryOp → Prop
  | .call op => delivery.stream.WholeChunk op
  | .peerReads _ => True

/-- The pipe holds what was put in, and what was read. -/
structure Piped (delivery : Delivery) (pipe : Pipe Byte) : Prop where
  balanced : delivery.stream.Balanced
  written : pipe.written = delivery.stream.put
  taken : pipe.taken = delivery.read
  within : delivery.read ≤ delivery.stream.accepted.length

variable {alloc : Allocator} {delivery next : Delivery} {pipe : Pipe Byte} {op : DeliveryOp} {out : List Byte}

/-- What is in flight has been accepted, or is still queued. -/
theorem Piped.flight (piped : Piped delivery pipe) :
    pipe.flight = delivery.arrived ++ delivery.stream.pending := by
  rw [Pipe.flight, piped.written, piped.taken, ← piped.balanced.total, List.drop_append_of_le_length piped.within,
    arrived]

theorem put_of_call {op : StreamOp} {stream stream' : OutputStream} {value : Int}
    (taken : stream.step alloc op = some (stream', value)) :
    (∃ items, stream'.put = stream.put ++ items) ∧ ∃ more, stream'.accepted = stream.accepted ++ more := by
  cases op with
  | write data =>
    obtain ⟨⟨world, result⟩, -, same⟩ := Option.bind_eq_some_iff.mp taken
    obtain ⟨rfl, -⟩ := Prod.mk.inj (Option.some.inj same)
    exact ⟨⟨_, rfl⟩, [], (List.append_nil _).symm⟩
  | moveto source =>
    obtain ⟨⟨world, result⟩, -, same⟩ := Option.bind_eq_some_iff.mp taken
    obtain ⟨rfl, -⟩ := Prod.mk.inj (Option.some.inj same)
    exact ⟨⟨_, rfl⟩, [], (List.append_nil _).symm⟩
  | send first retry =>
    obtain ⟨⟨world, value, accepted⟩, -, same⟩ := Option.bind_eq_some_iff.mp taken
    obtain ⟨rfl, -⟩ := Prod.mk.inj (Option.some.inj same)
    exact ⟨⟨[], (List.append_nil _).symm⟩, accepted, rfl⟩
  | other op =>
    rw [OutputStream.step] at taken
    split at taken
    · obtain ⟨⟨world, result⟩, -, same⟩ := Option.bind_eq_some_iff.mp taken
      obtain ⟨rfl, -⟩ := Prod.mk.inj (Option.some.inj same)
      exact ⟨⟨[], (List.append_nil _).symm⟩, [], (List.append_nil _).symm⟩
    · cases taken

/-- A call puts its bytes into the pipe, and the peer takes its own out. -/
theorem step_piped (piped : Piped delivery pipe) (whole : delivery.WholeChunk op)
    (taken : delivery.step alloc op = some (next, out)) :
    ∃ pipe', Pipe.Moves pipe pipe' ∧ Piped next pipe' ∧ pipe'.heard = pipe.heard ++ out := by
  cases op with
  | call op =>
    obtain ⟨⟨stream, value⟩, called, same⟩ := Option.map_eq_some_iff.mp taken
    obtain ⟨rfl, rfl⟩ := Prod.mk.inj same
    obtain ⟨⟨items, put⟩, more, accepted⟩ := put_of_call called
    refine ⟨pipe.write items, .write items, ⟨?_, ?_, piped.taken, ?_⟩, ?_⟩
    · exact OutputStream.step_balanced piped.balanced whole called
    · rw [Pipe.written_write, piped.written, put]
    · rw [accepted, List.length_append]
      exact Nat.le_trans piped.within (Nat.le_add_right ..)
    · rw [Pipe.heard_write, List.append_nil]
  | peerReads n =>
    rw [step] at taken
    split at taken
    · rename_i enough
      obtain ⟨rfl, rfl⟩ := Prod.mk.inj (Option.some.inj taken)
      have flight := piped.flight
      have there : n ≤ pipe.flight.length := by
        rw [flight, List.length_append]
        exact Nat.le_trans enough (Nat.le_add_right ..)
      refine ⟨pipe.advance n, .advance there, ⟨piped.balanced, piped.written, ?_, ?_⟩, ?_⟩
      · rw [Pipe.taken_advance _ there, piped.taken]
      · have within := piped.within
        rw [arrived, List.length_drop] at enough
        exact (Nat.le_sub_iff_add_le' within).mp enough
      · rw [Pipe.heard_advance, flight, List.take_append_of_le_length enough]
    · cases taken

theorem start_piped (heap : Addr → Buffer) : Piped (start heap) Pipe.empty :=
  ⟨OutputStream.start_balanced heap, rfl, rfl, Nat.le_refl 0⟩

theorem run_moves {ops : List DeliveryOp} {last : Delivery} {outs : List (List Byte)} (piped : Piped delivery pipe)
    (whole : Run.Along (step alloc) WholeChunk delivery ops)
    (path : Run.run (step alloc) delivery ops = some (last, outs)) :
    ∃ pipe', Relation.ReflTransGen Pipe.Moves pipe pipe' ∧ Piped last pipe' ∧
      pipe'.heard = pipe.heard ++ outs.flatten := by
  induction ops generalizing delivery pipe outs with
  | nil =>
    obtain ⟨rfl, rfl⟩ := Prod.mk.inj (Option.some.inj path)
    exact ⟨pipe, .refl, piped, (List.append_nil _).symm⟩
  | cons op rest ih =>
    obtain ⟨next, out, tail, taken, onward, rfl⟩ := Run.run_cons_iff.mp path
    obtain ⟨middle, move, piped, heard⟩ := step_piped piped whole.1 taken
    obtain ⟨pipe', moves, piped', heard'⟩ := ih piped (whole.2 next out taken) onward
    refine ⟨pipe', .head move moves, piped', ?_⟩
    rw [heard', heard, List.append_assoc, List.flatten_cons]

/-- A run whose sends are whole is a run of a pipe; what the peer reads is what the pipe hands out. -/
theorem run_piped {heap : Addr → Buffer} {ops : List DeliveryOp} {last : Delivery} {outs : List (List Byte)}
    (whole : Run.Along (step alloc) WholeChunk (start heap) ops)
    (path : Run.run (step alloc) (start heap) ops = some (last, outs)) :
    ∃ pipe, Relation.ReflTransGen Pipe.Moves Pipe.empty pipe ∧ Piped last pipe ∧ pipe.heard = outs.flatten :=
  run_moves (start_piped heap) whole path

end Delivery

end Devent
