import Devent.Dns.CDns
import Devent.Dns.Segments

/-! What the answer loop of `c_dns_gen_inet_response` writes: one answer behind the other, as
long as the callbacks answer. -/
namespace Devent.Dns
open Outcome

theorem exists_split (n : Nat) (bytes : List Byte) (enough : n ≤ bytes.length) :
    ∃ first rest, bytes = first ++ rest ∧ first.length = n :=
  ⟨bytes.take n, bytes.drop n, (List.take_append_drop n bytes).symm, List.length_take_of_le enough⟩

theorem length_writeBytes {block bytes after : List Byte} {i : Int}
    (written : writeBytes block i bytes = .value after) :
    after.length = block.length ∧ i + bytes.length ≤ block.length := by
  rw [writeBytes] at written
  split at written
  · cases written
  · rename_i positive
    split at written
    · rename_i fits
      cases written
      simp only [List.length_append, List.length_take, List.length_drop]
      omega
    · cases written

theorem writeBytes_fits (block bytes : List Byte) {i : Int} (nonneg : 0 ≤ i)
    (room : i + bytes.length ≤ block.length) :
    ∃ after, writeBytes block i bytes = .value after ∧ after.length = block.length := by
  have inside : i.toNat + bytes.length ≤ block.length := by omega
  have written : writeBytes block i bytes =
      .value (block.take i.toNat ++ (bytes ++ block.drop (i.toNat + bytes.length))) := by
    rw [writeBytes, if_neg (Int.not_lt.mpr nonneg), if_pos inside]
  exact ⟨_, written, (length_writeBytes written).1⟩

/-- RDLENGTH, by the type of the question. -/
def DomainOffset.dataLen (d : DomainOffset) : Nat := if d.type = typeA then 4 else 16

/-- The answers as they are written, where every callback answers. -/
def answersBytes (callbacks : Callbacks) : List DomainOffset → Option (List Byte)
  | [] => some []
  | d :: rest => do
    let address ← d.address callbacks
    let more ← answersBytes callbacks rest
    return answerHeader d.offset d.dataLen ++ (address ++ more)

variable {domains : List DomainOffset} {callbacks : Callbacks}

theorem length_address {d : DomainOffset} {address : List Byte} (found : d.address callbacks = some address) :
    address.length = d.dataLen := by
  rw [DomainOffset.address] at found
  rw [DomainOffset.dataLen]
  split at found <;> rename_i kind
  · obtain ⟨ip, -, rfl⟩ := Option.map_eq_some_iff.mp found
    rw [ip.property, if_pos kind]
  · obtain ⟨ip, -, rfl⟩ := Option.map_eq_some_iff.mp found
    rw [ip.property, if_neg kind]

theorem answersBytes_cons {d : DomainOffset} {bytes : List Byte}
    (written : answersBytes callbacks (d :: domains) = some bytes) : ∃ address more,
    d.address callbacks = some address ∧ answersBytes callbacks domains = some more ∧
      bytes = answerHeader d.offset d.dataLen ++ (address ++ more) := by
  rw [answersBytes] at written
  obtain ⟨address, found, written⟩ := Option.bind_eq_some_iff.mp written
  obtain ⟨more, later, same⟩ := Option.bind_eq_some_iff.mp written
  exact ⟨address, more, found, later, (Option.some.inj same).symm⟩

theorem length_answersBytes {bytes : List Byte} (written : answersBytes callbacks domains = some bytes) :
    bytes.length = (domains.map fun d => 12 + d.dataLen).sum := by
  induction domains generalizing bytes with
  | nil =>
    cases written
    rfl
  | cons d rest ih =>
    obtain ⟨address, more, found, later, rfl⟩ := answersBytes_cons written
    have header : (answerHeader d.offset d.dataLen).length = 12 := rfl
    rw [List.length_append, List.length_append, header, length_address found, ih later, List.map_cons,
      List.sum_cons, Nat.add_assoc]

/-- The loop asks for every domain and writes its answers over the room left for them. -/
theorem writeAnswers_bytes {before old bytes : List Byte} (rest : List Byte) {start : Int}
    (place : start = before.length) (written : answersBytes callbacks domains = some bytes)
    (room : old.length = bytes.length) :
    writeAnswers callbacks domains start (before ++ (old ++ rest)) =
      .value (domains.map DomainOffset.domain, some (before ++ (bytes ++ rest))) := by
  induction domains generalizing before old bytes start with
  | nil =>
    cases written
    cases List.length_eq_zero_iff.mp room
    rfl
  | cons d domains ih =>
    obtain ⟨address, more, found, later, rfl⟩ := answersBytes_cons written
    have header : (answerHeader d.offset d.dataLen).length = 12 := rfl
    rw [List.length_append, List.length_append, header] at room
    obtain ⟨hole, others, rfl, holeWidth⟩ := exists_split 12 old (by omega)
    rw [List.length_append] at room
    obtain ⟨slot, others, rfl, slotWidth⟩ := exists_split address.length others (by omega)
    rw [List.length_append] at room
    have headed := writeBytes_eq before hole (answerHeader d.offset d.dataLen) (slot ++ (others ++ rest)) place
      (holeWidth.trans header.symm)
    have next : start + (2 + 10) = (before ++ answerHeader d.offset d.dataLen).length := by
      rw [List.length_append, header, place]
      rfl
    have filled := writeBytes_eq (before ++ answerHeader d.offset d.dataLen) slot address (others ++ rest) next
      slotWidth
    have behind : start + (2 + 10 + (address.length : Int)) =
        (before ++ (answerHeader d.offset d.dataLen ++ address)).length := by
      rw [List.length_append, List.length_append, header, place]
      omega
    have left : others.length = more.length := by omega
    have continued := ih behind later left
    simp only [List.append_assoc] at headed filled continued ⊢
    rw [DomainOffset.dataLen] at headed filled continued ⊢
    simp only [writeAnswers, headed, value_bind, found, filled, continued, pure_eq, List.map_cons]

/-- Where a callback refuses, there is no response. -/
theorem writeAnswers_refused {start : Int} {rdata response : List Byte} {asked : List (Option Text)}
    (refused : answersBytes callbacks domains = none) :
    writeAnswers callbacks domains start rdata ≠ .value (asked, some response) := by
  induction domains generalizing start rdata asked with
  | nil => cases refused
  | cons d rest ih =>
    intro written
    obtain ⟨rdata, -, written⟩ := bind_value_iff.mp written
    cases found : d.address callbacks with
    | none =>
      rw [found] at written
      cases written
    | some address =>
      rw [found] at written
      obtain ⟨rdata, -, written⟩ := bind_value_iff.mp written
      obtain ⟨⟨asked, _⟩, later, same⟩ := bind_value_iff.mp written
      cases same
      refine ih ?_ later
      rw [answersBytes, found] at refused
      cases rest' : answersBytes callbacks rest with
      | none => rfl
      | some more =>
        rw [rest'] at refused
        cases refused

/-- The loop writes its answers, or stops at a refusal, wherever there is room for all of them. -/
theorem writeAnswers_fits (callbacks : Callbacks) (start : Int) (rdata : List Byte) (nonneg : 0 ≤ start)
    (room : start + ((domains.map fun d => 12 + d.dataLen).sum : Nat) ≤ rdata.length) :
    ∃ result, writeAnswers callbacks domains start rdata = .value result := by
  induction domains generalizing start rdata with
  | nil => exact ⟨_, rfl⟩
  | cons d rest ih =>
    have header : (answerHeader d.offset (if d.type = typeA then 4 else 16)).length = 12 := rfl
    rw [List.map_cons, List.sum_cons] at room
    obtain ⟨headed, written, length⟩ := writeBytes_fits rdata
      (answerHeader d.offset (if d.type = typeA then 4 else 16)) nonneg (by omega)
    cases found : d.address callbacks with
    | none =>
      refine ⟨([d.domain], none), ?_⟩
      simp only [writeAnswers, written, value_bind, found, pure_eq]
    | some address =>
      have width := length_address found
      have behind : 0 ≤ start + (2 + 10) := by omega
      obtain ⟨filled, written', length'⟩ := writeBytes_fits headed address behind (by omega)
      obtain ⟨⟨asked, response⟩, later⟩ := ih (start + (2 + 10 + address.length)) filled (by omega) (by omega)
      refine ⟨(d.domain :: asked, response), ?_⟩
      simp only [writeAnswers, written, value_bind, found, written', later, pure_eq]

end Devent.Dns
