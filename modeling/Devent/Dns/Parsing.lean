import Devent.Dns.Cursor

/-! The parser in steps, each the reading of a name or of a span and what follows it. What each
step asks of the message is proved once for all names: `Names` says of an index that the name there
is read as it is asked of, inside the message or to its end. -/
namespace Devent.Dns
open Outcome

variable {data : List Byte}

/-- A name read at `i`, and what follows when it is accepted. -/
def afterName (data : List Byte) (i : Int) {β : Type} (next : Name → Nat → Access (Option β))
    (fuel : Nat) : Access (Option β) := do
  let name ← getName data fuel i i none 0
  if name.size = -1 then return none else next name fuel

variable {β : Type} {next : Name → Nat → Access (Option β)} {p : Option β → Prop} {q : Int → Prop}

theorem afterName_rest_stable (stable : ∀ name, Stable (next name)) (name : Name) :
    Stable fun fuel => if name.size = -1 then (return none : Access (Option β)) else next name fuel :=
  (stable_const _).ite (stable name)

theorem afterName_stable (i : Int) (stable : ∀ name, Stable (next name)) : Stable (afterName data i next) :=
  (getName_stable data i i none 0).bind (afterName_rest_stable stable)

theorem skipQuestions_stable (data : List Byte) (n : Nat) (qSize : Int) :
    Stable fun fuel => skipQuestions data fuel n qSize := by
  induction n generalizing qSize with
  | zero => exact stable_const _
  | succ n ih => exact afterName_stable _ fun name => ih (qSize + name.size + 4)

variable {rr : Int} {host : HostEnt} {slots : Nat}

theorem rdataIsName_or (data : List Byte) (rr : Int) :
    (word data rr = typeA ∧ word data (rr + 2) = classIn) ∨
      (word data rr = typeCname ∧ word data (rr + 2) = classIn) ∨ RdataIsName data rr := by
  simp only [RdataIsName]
  omega

theorem parseOther_stable (type cls dataLen : Nat) :
    Stable fun fuel => parseOther data fuel rr type cls dataLen host := by
  refine Stable.ite ?_ (stable_const _)
  exact afterName_stable rr fun _ => stable_const _

theorem parseRdata_stable (type cls dataLen : Nat) :
    Stable fun fuel => parseRdata data fuel rr type cls dataLen host :=
  (parseOther_stable type cls dataLen).ite (stable_const _)

/-- How the record at `rr` is read, by its type and class. -/
theorem parseRdata_address (type : word data rr = typeA) (cls : word data (rr + 2) = classIn)
    (fields : Span data rr 10) (fuel : Nat) (host : HostEnt) :
    parseRdata data fuel rr (word data rr) (word data (rr + 2)) (rdataLength data rr) host =
      readBytes data (rr + 10) (rdataLength data rr) >>= fun rdata =>
        return some { host with addrList := host.addrList ++ [rdata] } := by
  have address : ¬(word data rr ≠ typeA ∨ word data (rr + 2) ≠ classIn) := by omega
  simp only [parseRdata, if_neg address, hexDump_inside fields, value_bind]

theorem parseRdata_cname (type : word data rr = typeCname) (cls : word data (rr + 2) = classIn)
    (fuel : Nat) (host : HostEnt) :
    parseRdata data fuel rr (word data rr) (word data (rr + 2)) (rdataLength data rr) host =
      hexDump data (rr + 10) (rdataLength data rr) >>= fun _ => return some host := by
  have other : word data rr ≠ typeA ∨ word data (rr + 2) ≠ classIn := by
    rw [type]
    exact .inl (by decide)
  have cname : ¬(word data rr ≠ typeCname ∨ word data (rr + 2) ≠ classIn) := by omega
  simp only [parseRdata, if_pos other, parseOther, if_neg cname]

theorem parseRdata_name (isName : RdataIsName data rr) (fuel : Nat) (host : HostEnt) :
    parseRdata data fuel rr (word data rr) (word data (rr + 2)) (rdataLength data rr) host =
      afterName data (rr + 10) (fun alia _ => hexDump data (rr + 10) (rdataLength data rr) >>= fun _ =>
        return some { host with aliases := host.aliases ++ [alia.text] }) fuel := by
  simp only [parseRdata, if_pos isName.1, parseOther, if_pos isName.2, afterName]

/-- The first name that is read becomes the host's. -/
def HostEnt.named (host : HostEnt) (text : Option Text) : HostEnt :=
  if host.name = none then { host with name := text } else host

/-- The record behind the name of an answer. -/
def parseRecord (data : List Byte) (start : Int) (host : HostEnt) (name : Name) (fuel : Nat) :
    Access (Option (HostEnt × Int)) := do
  let rr := start + name.size
  let type ← readNtohs data rr
  let cls ← readNtohs data (rr + 2)
  let _ ← readBytes data (rr + 4) 4
  let dataLen ← readNtohs data (rr + 8)
  let host := if host.name = none then { host with name := name.text } else host
  let parsed ← parseRdata data fuel rr type cls dataLen host
  return parsed.map fun host => (host, name.size + 10 + dataLen)

/-- What a round reads of the fixed part of its record. -/
structure RecordFields where
  type : Nat
  cls : Nat
  dataLen : Nat

def readRecord (data : List Byte) (rr : Int) : Access RecordFields := do
  let type ← readNtohs data rr
  let cls ← readNtohs data (rr + 2)
  let _ ← readBytes data (rr + 4) 4
  let dataLen ← readNtohs data (rr + 8)
  return ⟨type, cls, dataLen⟩

theorem parseAnswer_eq (data : List Byte) (fuel : Nat) (start : Int) (host : HostEnt) :
    parseAnswer data fuel start host =
      hexDump data start 2 >>= fun _ => afterName data start (parseRecord data start host) fuel := rfl

theorem readRecord_inside {rr : Int} (fields : Span data rr 10) :
    readRecord data rr = .value ⟨word data rr, word data (rr + 2), rdataLength data rr⟩ := by
  have type : Span data rr 2 := by simp only [Span] at fields ⊢; omega
  have cls : Span data (rr + 2) 2 := by simp only [Span] at fields ⊢; omega
  have ttl : Span data (rr + 4) 4 := by simp only [Span] at fields ⊢; omega
  have dataLen : Span data (rr + 8) 2 := by simp only [Span] at fields ⊢; omega
  obtain ⟨bytes, copied⟩ := readBytes_inside ttl
  simp only [readRecord, readNtohs_inside type, readNtohs_inside cls, copied, readNtohs_inside dataLen,
    value_bind, pure_eq, rdataLength]

theorem readRecord_outside {rr : Int} (outside : ¬Span data rr 10) : ∃ e, readRecord data rr = .fault e := by
  by_cases type : Span data rr 2
  · by_cases cls : Span data (rr + 2) 2
    · by_cases ttl : Span data (rr + 4) 4
      · obtain ⟨bytes, copied⟩ := readBytes_inside ttl
        have dataLen : ¬Span data (rr + 8) 2 := by
          simp only [Span] at outside type ⊢
          omega
        obtain ⟨e, fault⟩ := readNtohs_outside dataLen
        exact ⟨e, by
          simp only [readRecord, readNtohs_inside type, readNtohs_inside cls, copied, fault, value_bind,
            fault_bind]⟩
      · obtain ⟨e, fault⟩ := readBytes_outside ttl
        exact ⟨e, by
          simp only [readRecord, readNtohs_inside type, readNtohs_inside cls, fault, value_bind,
            fault_bind]⟩
    · obtain ⟨e, fault⟩ := readNtohs_outside cls
      exact ⟨e, by simp only [readRecord, readNtohs_inside type, fault, value_bind, fault_bind]⟩
  · obtain ⟨e, fault⟩ := readNtohs_outside type
    exact ⟨e, by simp only [readRecord, fault, fault_bind]⟩

theorem parseRecord_eq (data : List Byte) (start : Int) (host : HostEnt) (name : Name) (fuel : Nat) :
    parseRecord data start host name fuel = readRecord data (start + name.size) >>= fun fields =>
      parseRdata data fuel (start + name.size) fields.type fields.cls fields.dataLen (host.named name.text)
        >>= fun parsed => return parsed.map fun host => (host, name.size + 10 + fields.dataLen) := by
  simp only [parseRecord, readRecord, bind_bind, pure_eq, value_bind, HostEnt.named]

theorem parseRecord_inside (host : HostEnt) {start : Int} {name : Name}
    (fields : Span data (start + name.size) 10) (fuel : Nat) :
    parseRecord data start host name fuel =
      parseRdata data fuel (start + name.size) (word data (start + name.size))
        (word data (start + name.size + 2)) (rdataLength data (start + name.size))
        (host.named name.text) >>= fun parsed =>
          return parsed.map fun host => (host, name.size + 10 + rdataLength data (start + name.size)) := by
  rw [parseRecord_eq, readRecord_inside fields, value_bind]

theorem parseRecord_outside (host : HostEnt) {start : Int} {name : Name}
    (outside : ¬Span data (start + name.size) 10) :
    ∃ e, ∀ fuel, parseRecord data start host name fuel = .fault e := by
  obtain ⟨e, fault⟩ := readRecord_outside outside
  exact ⟨e, fun fuel => by rw [parseRecord_eq, fault, fault_bind]⟩

theorem parseRecord_stable (start : Int) (name : Name) : Stable (parseRecord data start host name) := by
  by_cases fields : Span data (start + name.size) 10
  · have record := parseRecord_inside host fields
    simp only [funext record]
    exact (parseRdata_stable _ _ _).bind fun _ => stable_const _
  · obtain ⟨e, record⟩ := parseRecord_outside host fields
    simp only [funext record]
    exact stable_const _

theorem parseAnswer_stable (start : Int) : Stable fun fuel => parseAnswer data fuel start host :=
  (stable_const (hexDump data start 2)).bind fun _ =>
    afterName_stable start fun name => parseRecord_stable start name

/-- What follows an answer. -/
def moreAnswers (data : List Byte) (count : Nat) (start : Int) (fuel : Nat) :
    Option (HostEnt × Int) → Access (Option HostEnt)
  | none => return none
  | some (host, size) => parseAnswers data fuel count (start + size) host

theorem parseAnswers_succ (data : List Byte) (fuel count : Nat) (start : Int) (host : HostEnt) :
    parseAnswers data fuel (count + 1) start host =
      parseAnswer data fuel start host >>= moreAnswers data count start fuel := by
  rfl

theorem parseAnswers_stable (count : Nat) (start : Int) (host : HostEnt) :
    Stable fun fuel => parseAnswers data fuel count start host := by
  induction count generalizing start host with
  | zero => exact stable_const _
  | succ count ih =>
    simp only [parseAnswers_succ]
    refine (parseAnswer_stable start).bind fun parsed => ?_
    cases parsed with
    | none => exact stable_const _
    | some pair => exact ih (start + pair.2) pair.1

theorem moreAnswers_stable (count : Nat) (start : Int) (parsed : Option (HostEnt × Int)) :
    Stable fun fuel => moreAnswers data count start fuel parsed := by
  cases parsed with
  | none => exact stable_const _
  | some pair => exact parseAnswers_stable count (start + pair.2) pair.1

/-- What follows the questions. -/
def answersAfter (data : List Byte) (fuel : Nat) : Option Int → Access (Option HostEnt)
  | none => return none
  | some qSize => do
    let answers ← readNtohs data 6
    if answers = 0 then return none
    else
      let slots := (answers % 256) * 256 + answers / 256 + 1
      parseAnswers data fuel answers (headerLength + qSize) ⟨none, [], [], slots⟩

theorem answersAfter_stable (data : List Byte) (skipped : Option Int) :
    Stable fun fuel => answersAfter data fuel skipped := by
  cases skipped with
  | none => exact stable_const _
  | some qSize =>
    refine (stable_const _).bind fun answers => (stable_const _).ite ?_
    exact parseAnswers_stable answers (headerLength + qSize) _

theorem not_isResponse_iff : ¬IsResponse data ↔ octet data 2 < 0x80 := UInt8.not_le

theorem parseA_query (flags : Span data 2 1) (query : ¬IsResponse data) (fuel : Nat) :
    parseA data fuel = .value none := by
  have low := not_isResponse_iff.mp query
  simp only [parseA, hexDump_inside (span_all data), read_inside flags, value_bind, if_pos low, pure_eq]

/-- The second byte of the flags decides between the two ways to read on. -/
theorem parseA_error (flags : Span data 2 1) (response : IsResponse data) (flags' : Span data 3 1)
    (error : IsError data) (fuel : Nat) :
    parseA data fuel = readNtohs data 6 >>= fun _ => return none := by
  have high : ¬octet data 2 < 0x80 := fun low => not_isResponse_iff.mpr low response
  have coded : octet data 3 &&& 15 ≠ 0 := error
  simp only [parseA, hexDump_inside (span_all data), read_inside flags, read_inside flags', value_bind,
    if_neg high, if_pos coded]

theorem parseA_success (flags : Span data 2 1) (response : IsResponse data) (flags' : Span data 3 1)
    (success : ¬IsError data) (fuel : Nat) :
    parseA data fuel = readNtohs data 4 >>= fun questions =>
      skipQuestions data fuel questions 0 >>= answersAfter data fuel := by
  have high : ¬octet data 2 < 0x80 := fun low => not_isResponse_iff.mpr low response
  have coded : ¬octet data 3 &&& 15 ≠ 0 := success
  simp only [parseA, hexDump_inside (span_all data), read_inside flags, read_inside flags', value_bind,
    if_neg high, if_neg coded]
  rfl

theorem parseA_unread (flags : Span data 2 1) (response : IsResponse data) (outside : ¬Span data 3 1)
    (fuel : Nat) : parseA data fuel = .fault 3 := by
  have high : ¬octet data 2 < 0x80 := fun low => not_isResponse_iff.mpr low response
  simp only [parseA, hexDump_inside (span_all data), read_inside flags, read_outside outside, value_bind,
    fault_bind, if_neg high]

theorem parseA_truncated (outside : ¬Span data 2 1) (fuel : Nat) : parseA data fuel = .fault 2 := by
  simp only [parseA, hexDump_inside (span_all data), read_outside outside, value_bind, fault_bind]

theorem questions_stable (questions : Nat) :
    Stable fun fuel => skipQuestions data fuel questions 0 >>= answersAfter data fuel :=
  (skipQuestions_stable data questions 0).bind (answersAfter_stable data)

theorem parseA_stable (data : List Byte) : Stable (parseA data) := by
  by_cases flags : Span data 2 1
  · by_cases response : IsResponse data
    · by_cases flags' : Span data 3 1
      · by_cases error : IsError data
        · simp only [funext (parseA_error flags response flags' error)]
          exact stable_const _
        · simp only [funext (parseA_success flags response flags' error)]
          exact (stable_const _).bind questions_stable
      · simp only [funext (parseA_unread flags response flags')]
        exact stable_const _
    · simp only [funext (parseA_query flags response)]
      exact stable_const _
  · simp only [funext (parseA_truncated flags)]
    exact stable_const _

/-- `Names` is exactly what the reading of a name asks of its index. -/
def ReadsNames (data : List Byte) (total : Prop) (Names : Int → Prop) : Prop :=
  ∀ i, Meets total (fun fuel => getName data fuel i i none 0) (fun _ => True) ↔ Names i

namespace ReadsNames

variable {total : Prop} {Names : Int → Prop} {i : Int}

theorem within (names : ReadsNames data total Names) (readable : Names i) : NameWithin data i :=
  nameWithin_iff.mpr ((names i).mpr readable).safe

theorem afterName_iff {β : Type} {next : Name → Nat → Access (Option β)} {p : Option β → Prop}
    {q : Int → Prop} (names : ReadsNames data total Names) (stable : ∀ name, Stable (next name))
    (rejected : p none) (agree : ∀ name, Meets total (next name) p ↔ q name.size) :
    Meets total (afterName data i next) p ↔ Names i ∧ ∀ size, Accepted data i size → q size := by
  refine ((getName_stable data i i none 0).meets_bind_iff (afterName_rest_stable stable)).trans ?_
  refine meets_iff.trans ((and_congr_left' (names i)).trans (and_congr_right fun readable => ?_))
  constructor
  · intro results size accepted
    obtain ⟨name, ended, rfl⟩ := accepted.ends (names.within readable)
    have result := results name ended
    simp only [if_neg accepted.2] at result
    exact (agree name).mp result
  · intro results name ended
    by_cases refused : name.size = -1
    · simp only [if_pos refused, pure_eq]
      exact meets_value_iff.mpr rejected
    · simp only [if_neg refused]
      obtain ⟨N, reached⟩ := ended
      obtain ⟨more, ends, sum⟩ := getName_size (reached N (Nat.le_refl N))
      exact (agree name).mpr (results name.size (accepted_of_ends ends sum refused))

theorem skipQuestions_iff {p : Option Int → Prop} {after : Int → Prop} {n : Nat} {qSize : Int}
    (names : ReadsNames data total Names) (rejected : p none)
    (agree : ∀ qSize, p (some qSize) ↔ after (headerLength + qSize)) :
    Meets total (fun fuel => skipQuestions data fuel n qSize) p ↔
      QuestionsRead data Names after n (headerLength + qSize) := by
  induction n generalizing qSize with
  | zero => exact meets_value_iff.trans (agree qSize)
  | succ n ih =>
    refine names.afterName_iff (fun name => skipQuestions_stable data n (qSize + name.size + 4)) rejected ?_
    intro name
    rw [ih]
    simp only [Int.add_assoc]

/-- A dump of the RDATA, then a host. -/
theorem dumped_iff {p : Option HostEnt → Prop} {after : Prop} {n : Nat} (agree : p (some host) ↔ after) :
    Meets total (fun _ => hexDump data i n >>= fun _ => return some host) p ↔ Span data i n ∧ after := by
  have dumped : Span data i n → hexDump data i n = .value () := hexDump_inside
  rw [meets_step_iff dumped hexDump_outside, pure_eq, meets_value_iff, agree]

theorem parseRdata_iff {p : Option HostEnt → Prop} {after : Prop} (names : ReadsNames data total Names)
    (fields : Span data rr 10) (rejected : p none) (agree : ∀ host, p (some host) ↔ after) :
    Meets total (fun fuel => parseRdata data fuel rr (word data rr) (word data (rr + 2))
      (rdataLength data rr) host) p ↔ RdataRead data Names rr after := by
  obtain ⟨type, cls⟩ | ⟨type, cls⟩ | isName := rdataIsName_or data rr
  · have notName : ¬RdataIsName data rr := fun isName => by
      have other := isName.1
      omega
    simp only [parseRdata_address type cls fields, RdataRead, notName, false_implies, true_and,
      forall_const]
    by_cases inside : Span data (rr + 10) (rdataLength data rr)
    · obtain ⟨rdata, copied⟩ := readBytes_inside inside
      simp only [copied, value_bind, pure_eq, meets_value_iff, agree, inside, true_and]
    · obtain ⟨e, fault⟩ := readBytes_outside inside
      simp only [fault, fault_bind, not_meets_fault, inside, false_and]
  · have notName : ¬RdataIsName data rr := fun isName => by
      have other := isName.2
      omega
    simp only [parseRdata_cname type cls, RdataRead, notName, false_implies, true_and, forall_const]
    exact dumped_iff (agree host)
  · simp only [parseRdata_name isName, RdataRead, isName, true_implies, forall_exists_index]
    exact names.afterName_iff (fun _ => stable_const _) rejected fun _ => dumped_iff (agree _)

variable {p : Option (HostEnt × Int) → Prop} {start : Int}

theorem parseRecord_iff {after : Int → Prop} {name : Name} (names : ReadsNames data total Names)
    (rejected : p none) (agree : ∀ host size, p (some (host, size)) ↔ after (start + size)) :
    Meets total (parseRecord data start host name) p ↔ Span data (start + name.size) 10 ∧
      RdataRead data Names (start + name.size)
        (after (start + name.size + 10 + rdataLength data (start + name.size))) := by
  by_cases fields : Span data (start + name.size) 10
  · have record := parseRecord_inside host fields
    rw [funext record, (parseRdata_stable _ _ _).meets_bind_iff fun _ => stable_const _]
    simp only [fields, true_and]
    refine names.parseRdata_iff fields (meets_value_iff.mpr rejected) fun host => ?_
    have place : start + (name.size + 10 + rdataLength data (start + name.size)) =
        start + name.size + 10 + rdataLength data (start + name.size) := by omega
    rw [← place]
    exact meets_value_iff.trans (agree host _)
  · obtain ⟨e, record⟩ := parseRecord_outside host fields
    simp only [funext record, not_meets_fault, fields, false_and]

theorem parseAnswer_iff (names : ReadsNames data total Names) (after : Int → Prop) (rejected : p none)
    (agree : ∀ host size, p (some (host, size)) ↔ after (start + size)) :
    Meets total (fun fuel => parseAnswer data fuel start host) p ↔ Span data start 2 ∧
      Names start ∧ ∀ size, Accepted data start size → Span data (start + size) 10 ∧
        RdataRead data Names (start + size) (after (start + size + 10 + rdataLength data (start + size))) := by
  simp only [parseAnswer_eq]
  rw [meets_step_iff hexDump_inside hexDump_outside]
  refine and_congr_right fun _ => ?_
  exact names.afterName_iff (q := fun size => Span data (start + size) 10 ∧
      RdataRead data Names (start + size) (after (start + size + 10 + rdataLength data (start + size))))
    (parseRecord_stable start) rejected fun _ => names.parseRecord_iff rejected agree

theorem parseAnswers_iff (names : ReadsNames data total Names) {count : Nat} :
    Meets total (fun fuel => parseAnswers data fuel count start host) (fun _ => True) ↔
      AnswersRead data Names count start := by
  induction count generalizing start host with
  | zero => exact meets_value_iff
  | succ count ih =>
    simp only [parseAnswers_succ]
    rw [(parseAnswer_stable start).meets_bind_iff (moreAnswers_stable count start)]
    exact names.parseAnswer_iff (AnswersRead data Names count) (meets_value_iff.mpr trivial) fun _ _ => ih

theorem answersAfter_iff (names : ReadsNames data total Names) {qSize : Int} :
    Meets total (fun fuel => answersAfter data fuel (some qSize)) (fun _ => True) ↔
      Span data 6 2 ∧ AnswersRead data Names (word data 6) (headerLength + qSize) := by
  have answers : Span data 6 2 → readNtohs data 6 = .value (word data 6) := readNtohs_inside
  refine (meets_step_iff answers readNtohs_outside).trans (and_congr_right fun _ => ?_)
  by_cases empty : word data 6 = 0
  · simp only [empty, if_true, pure_eq, meets_value_iff, AnswersRead]
  · simp only [if_neg empty, names.parseAnswers_iff]

theorem questions_iff (names : ReadsNames data total Names) {questions : Nat} :
    Meets total (fun fuel => skipQuestions data fuel questions 0 >>= answersAfter data fuel) (fun _ => True) ↔
      QuestionsRead data Names (fun i => Span data 6 2 ∧ AnswersRead data Names (word data 6) i) questions
        headerLength := by
  rw [(skipQuestions_stable data questions 0).meets_bind_iff (answersAfter_stable data)]
  exact names.skipQuestions_iff (meets_value_iff.mpr trivial) fun _ => names.answersAfter_iff

/-- What the parser asks of a message. -/
theorem parseA_iff (names : ReadsNames data total Names) :
    Meets total (parseA data) (fun _ => True) ↔ MessageRead data Names := by
  by_cases flags : Span data 2 1
  · by_cases response : IsResponse data
    · by_cases flags' : Span data 3 1
      · simp only [MessageRead, flags, response, flags', true_and, true_implies]
        by_cases error : IsError data
        · have answers : Span data 6 2 → readNtohs data 6 = .value (word data 6) := readNtohs_inside
          simp only [funext (parseA_error flags response flags' error), error, true_implies,
            not_true_eq_false, false_implies]
          rw [meets_step_iff answers readNtohs_outside, pure_eq, meets_value_iff]
        · have questions : Span data 4 2 → readNtohs data 4 = .value (word data 4) := readNtohs_inside
          simp only [funext (parseA_success flags response flags' error), error, not_false_eq_true,
            true_implies, false_implies, true_and]
          rw [meets_step_iff questions readNtohs_outside, names.questions_iff]
      · simp only [funext (parseA_unread flags response flags'), not_meets_fault, MessageRead, response,
          flags', false_and, true_implies, and_false]
    · simp only [funext (parseA_query flags response), meets_value_iff, MessageRead, flags, response,
        false_implies, and_self]
  · simp only [funext (parseA_truncated flags), not_meets_fault, MessageRead, flags, false_and]

end ReadsNames

end Devent.Dns
