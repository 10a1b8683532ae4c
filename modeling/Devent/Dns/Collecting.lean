import Devent.Dns.Parsing
import Devent.Dns.Writing

/-! The response generator in steps: the questions are collected by reading their names, and the
answers are written into a block that has room for all that were collected. -/
namespace Devent.Dns
open Outcome

variable {data : List Byte} {count : Nat} {qSize : Int} {respLen : Nat} {domains : List DomainOffset}

/-- What follows the name of a question. -/
def collectMore (data : List Byte) (count : Nat) (qSize : Int) (respLen : Nat) (domains : List DomainOffset)
    (name : Name) (fuel : Nat) : Access (Option (Int × Nat × List DomainOffset)) := do
  let type ← readNtohs data (headerLength + qSize + name.size)
  let cls ← readNtohs data (headerLength + qSize + name.size + 2)
  let qSize := qSize + name.size + 4
  if cls ≠ classIn ∨ (type ≠ typeA ∧ type ≠ typeAaaa) then
    collectQuestions data fuel count qSize respLen domains
  else
    collectQuestions data fuel count qSize
      (respLen + (2 + 10 + if type = typeA then 4 else 16))
      (domains ++ [⟨name.text, sizeT name.offset % 2 ^ 16, type⟩])

theorem collectQuestions_beyond (beyond : ¬headerLength + qSize ≤ data.length) (fuel : Nat) :
    collectQuestions data fuel (count + 1) qSize respLen domains = .value none := by
  have far : headerLength + qSize > data.length := by omega
  simp only [collectQuestions, if_pos far]

theorem collectQuestions_within (within : headerLength + qSize ≤ data.length) (fuel : Nat) :
    collectQuestions data fuel (count + 1) qSize respLen domains =
      afterName data (headerLength + qSize) (collectMore data count qSize respLen domains) fuel := by
  have near : ¬headerLength + qSize > data.length := by omega
  simp only [collectQuestions, if_neg near]
  rfl

/-- The bytes of the answers to these questions. -/
def answersLength (domains : List DomainOffset) : Nat := (domains.map fun d => 12 + d.dataLen).sum

theorem collectMore_inside (count : Nat) (respLen : Nat) (domains : List DomainOffset) {name : Name}
    (fields : Span data (headerLength + qSize + name.size) 4) :
    ∃ respLen' domains', respLen' + answersLength domains = respLen + answersLength domains' ∧
      ∀ fuel, collectMore data count qSize respLen domains name fuel =
        collectQuestions data fuel count (qSize + name.size + 4) respLen' domains' := by
  have type : Span data (headerLength + qSize + name.size) 2 := by simp only [Span] at fields ⊢; omega
  have cls : Span data (headerLength + qSize + name.size + 2) 2 := by simp only [Span] at fields ⊢; omega
  by_cases other : word data (headerLength + qSize + name.size + 2) ≠ classIn ∨
      (word data (headerLength + qSize + name.size) ≠ typeA ∧
        word data (headerLength + qSize + name.size) ≠ typeAaaa)
  · refine ⟨respLen, domains, rfl, fun fuel => ?_⟩
    simp only [collectMore, readNtohs_inside type, readNtohs_inside cls, value_bind, if_pos other]
  · refine ⟨respLen + (2 + 10 + if word data (headerLength + qSize + name.size) = typeA then 4 else 16),
      domains ++ [⟨name.text, sizeT name.offset % 2 ^ 16, word data (headerLength + qSize + name.size)⟩],
      ?_, fun fuel => ?_⟩
    · simp only [answersLength, DomainOffset.dataLen, List.map_append, List.sum_append, List.map_cons,
        List.map_nil, List.sum_cons, List.sum_nil]
      omega
    · simp only [collectMore, readNtohs_inside type, readNtohs_inside cls, value_bind, if_neg other]

theorem collectMore_outside (count : Nat) (respLen : Nat) (domains : List DomainOffset) {name : Name}
    (outside : ¬Span data (headerLength + qSize + name.size) 4) :
    ∃ e, ∀ fuel, collectMore data count qSize respLen domains name fuel = .fault e := by
  by_cases type : Span data (headerLength + qSize + name.size) 2
  · have cls : ¬Span data (headerLength + qSize + name.size + 2) 2 := by
      simp only [Span] at outside type ⊢
      omega
    obtain ⟨e, fault⟩ := readNtohs_outside cls
    exact ⟨e, fun fuel => by simp only [collectMore, readNtohs_inside type, fault, value_bind, fault_bind]⟩
  · obtain ⟨e, fault⟩ := readNtohs_outside type
    exact ⟨e, fun fuel => by simp only [collectMore, fault, fault_bind]⟩

theorem collectMore_stable (name : Name)
    (rest : ∀ qSize respLen domains,
      Stable fun fuel => collectQuestions data fuel count qSize respLen domains) :
    Stable (collectMore data count qSize respLen domains name) := by
  by_cases fields : Span data (headerLength + qSize + name.size) 4
  · obtain ⟨respLen', domains', -, more⟩ := collectMore_inside count respLen domains fields
    simp only [funext more]
    exact rest _ _ _
  · obtain ⟨e, more⟩ := collectMore_outside count respLen domains fields
    simp only [funext more]
    exact stable_const _

theorem collectQuestions_stable (data : List Byte) (count : Nat) (qSize : Int) (respLen : Nat)
    (domains : List DomainOffset) :
    Stable fun fuel => collectQuestions data fuel count qSize respLen domains := by
  induction count generalizing qSize respLen domains with
  | zero => exact stable_const _
  | succ count ih =>
    by_cases within : headerLength + qSize ≤ data.length
    · simp only [collectQuestions_within within]
      exact afterName_stable _ fun name => collectMore_stable name ih
    · simp only [collectQuestions_beyond within]
      exact stable_const _

/-- The block that is allocated has room for the answers to all questions that are kept, and they
are written where the last question ends. -/
theorem collectQuestions_room {fuel total : Nat} {qEnd : Int} {found : List DomainOffset}
    (ended : collectQuestions data fuel count qSize respLen domains = .value (some (qEnd, total, found))) :
    total + answersLength domains = respLen + answersLength found ∧
      (qEnd = qSize ∧ count = 0 ∨ 4 ≤ headerLength + qEnd ∧ headerLength + qEnd ≤ data.length) := by
  induction count generalizing qSize respLen domains with
  | zero =>
    cases ended
    exact ⟨rfl, .inl ⟨rfl, rfl⟩⟩
  | succ count ih =>
    by_cases within : headerLength + qSize ≤ data.length
    · rw [collectQuestions_within within, afterName] at ended
      obtain ⟨name, -, ended⟩ := bind_value_iff.mp ended
      split at ended
      · cases ended
      · by_cases fields : Span data (headerLength + qSize + name.size) 4
        · obtain ⟨respLen', domains', grown, more⟩ := collectMore_inside count respLen domains fields
          obtain ⟨counted, last⟩ := ih ((more fuel).symm.trans ended)
          refine ⟨by omega, .inr ?_⟩
          obtain ⟨rfl, -⟩ | later := last
          · simp only [Span] at fields
            omega
          · exact later
        · obtain ⟨e, fault⟩ := collectMore_outside count respLen domains fields
          cases (fault fuel).symm.trans ended
    · cases (collectQuestions_beyond within fuel).symm.trans ended

variable (malloc : Malloc) (callbacks : Callbacks)

/-- What follows the questions. -/
def respond (data : List Byte) (flags : Byte) :
    Option (Int × Nat × List DomainOffset) → Access (List (Option Text) × Option (List Byte))
  | none => return ([], none)
  | some (qSize, respLen, domains) => do
    let rdata := data ++ (malloc respLen).val.drop data.length
    let rdata ← writeBytes rdata 2 [flags ||| 0x80]
    let rdata ← writeBytes rdata 6 (htons domains.length)
    writeAnswers callbacks domains (headerLength + qSize) rdata

theorem respond_fits {flags : Byte} (long : headerLength ≤ data.length) (nonneg : 0 ≤ headerLength + qSize)
    (within : headerLength + qSize ≤ data.length)
    (room : respLen = data.length + answersLength domains) :
    ∃ result, respond malloc callbacks data flags (some (qSize, respLen, domains)) = .value result := by
  have block : (data ++ (malloc respLen).val.drop data.length).length = respLen := by
    rw [List.length_append, List.length_drop, (malloc respLen).property]
    omega
  simp only [headerLength] at long
  have two : (0 : Int) ≤ 2 := by decide
  obtain ⟨marked, written, length⟩ := writeBytes_fits (data ++ (malloc respLen).val.drop data.length)
    [flags ||| 0x80] two (by rw [block, List.length_singleton]; omega)
  have width : (htons domains.length).length = 2 := rfl
  have six : (0 : Int) ≤ 6 := by decide
  obtain ⟨counted, written', length'⟩ := writeBytes_fits marked (htons domains.length) six (by omega)
  have left : headerLength + qSize + ((domains.map fun d => 12 + d.dataLen).sum : Nat) ≤ counted.length := by
    rw [answersLength] at room
    omega
  obtain ⟨result, answered⟩ := writeAnswers_fits callbacks (headerLength + qSize) counted nonneg left
  exact ⟨result, by simp only [respond, written, value_bind, written', answered]⟩

theorem genInetResponse_short (short : ¬headerLength ≤ data.length) (fuel : Nat) :
    genInetResponse malloc callbacks data fuel = .value ([], none) := by
  simp only [genInetResponse, if_pos (Nat.not_le.mp short)]

theorem genInetResponse_response (long : headerLength ≤ data.length) (response : IsResponse data) (fuel : Nat) :
    genInetResponse malloc callbacks data fuel = .value ([], none) := by
  have flags : Span data 2 1 := by simp only [Span, headerLength] at long ⊢; omega
  have high : 0x80 ≤ octet data 2 := response
  simp only [genInetResponse, if_neg (Nat.not_lt.mpr long), hexDump_inside (span_all data), read_inside flags,
    value_bind, if_pos high, pure_eq]

theorem genInetResponse_query (long : headerLength ≤ data.length) (query : ¬IsResponse data) (fuel : Nat) :
    genInetResponse malloc callbacks data fuel =
      if word data 4 = 0 then return ([], none)
      else collectQuestions data fuel (word data 4) 0 data.length [] >>=
        respond malloc callbacks data (octet data 2) := by
  have enough : ¬data.length < headerLength := Nat.not_lt.mpr long
  have flags : Span data 2 1 := by simp only [Span, headerLength] at long ⊢; omega
  have questions : Span data 4 2 := by simp only [Span, headerLength] at long ⊢; omega
  have low : ¬0x80 ≤ octet data 2 := query
  simp only [genInetResponse, if_neg enough, hexDump_inside (span_all data), read_inside flags, value_bind,
    if_neg low, readNtohs_inside questions]
  rfl

end Devent.Dns
