import Devent.Dns.Decompression
import Devent.Dns.Termination

/-! The rounds of the answer loop of `c_dns_parse_a`: where the loop starts, the record that
an answer leads to, and what a round makes of the host. -/
namespace Devent.Dns
open Outcome

section Layout

variable (data : List Byte)

def IsAddress (rr : Int) : Prop := word data rr = typeA ∧ word data (rr + 2) = classIn

def IsCname (rr : Int) : Prop := word data rr = typeCname ∧ word data (rr + 2) = classIn

instance : DecidablePred (IsAddress data) := fun _ => inferInstanceAs (Decidable (_ ∧ _))

instance : DecidablePred (RdataIsName data) := fun _ =>
  inferInstanceAs (Decidable ((_ ∨ _) ∧ (_ ∨ _)))

/-- Where the questions end. -/
inductive QuestionsEnd : Nat → Int → Int → Prop
  | none {i} : QuestionsEnd 0 i i
  | question {n i size j} : NameWithin data i → Accepted data i size →
      QuestionsEnd n (i + size + 4) j → QuestionsEnd (n + 1) i j

/-- The message is taken for a response with answers, which start here. -/
structure Begins (i : Int) : Prop where
  flags : Span data 2 1 ∧ IsResponse data
  code : Span data 3 1 ∧ ¬IsError data
  questions : Span data 4 2 ∧ QuestionsEnd data (word data 4) headerLength i
  answers : Span data 6 2 ∧ word data 6 ≠ 0

/-- The name of the answer at `i` leads to the record at `rr`. -/
structure Recorded (i rr : Int) : Prop where
  dumped : Span data i 2
  within : NameWithin data i
  accepted : ∃ size, Accepted data i size ∧ rr = i + size
  fields : Span data rr 10

/-- Where the answer behind the record starts. -/
def behindRecord (rr : Int) : Int := rr + 10 + rdataLength data rr

/-- What the record at `rr` makes of the host. -/
inductive Parsed (rr : Int) (host : HostEnt) : HostEnt → Prop
  | address {rdata} : IsAddress data rr → readBytes data (rr + 10) (rdataLength data rr) = .value rdata →
      Parsed rr host { host with addrList := host.addrList ++ [rdata] }
  | cname : IsCname data rr → Span data (rr + 10) (rdataLength data rr) → Parsed rr host host
  | name {alia : Name} : RdataIsName data rr → Gives data (rr + 10) (rr + 10) none 0 alia → alia.size ≠ -1 →
      Span data (rr + 10) (rdataLength data rr) →
      Parsed rr host { host with aliases := host.aliases ++ [alia.text] }

/-- A whole round: the answer at `i` is read and takes the host along. -/
structure Answered (i rr : Int) (host host' : HostEnt) : Prop where
  dumped : Span data i 2
  fields : Span data rr 10
  parsed : ∃ name, Gives data i i none 0 name ∧ name.size ≠ -1 ∧ rr = i + name.size ∧
    Parsed data rr (host.named name.text) host'

end Layout

variable {data : List Byte} {i rr start : Int} {host host' : HostEnt}

theorem IsAddress.not_name (address : IsAddress data rr) : ¬RdataIsName data rr := by
  rintro ⟨type | cls, -⟩
  · exact type address.1
  · exact cls address.2

theorem IsCname.not_name (cname : IsCname data rr) : ¬RdataIsName data rr := by
  rintro ⟨-, type | cls⟩
  · exact type cname.1
  · exact cls cname.2

theorem IsCname.not_address (cname : IsCname data rr) : ¬IsAddress data rr := by
  intro address
  cases address.1.symm.trans cname.1

theorem record_cases (data : List Byte) (rr : Int) :
    IsAddress data rr ∨ IsCname data rr ∨ RdataIsName data rr := rdataIsName_or data rr

@[simp] theorem named_addrList (text : Option Text) : (host.named text).addrList = host.addrList := by
  rw [HostEnt.named]
  split <;> rfl

@[simp] theorem named_aliases (text : Option Text) : (host.named text).aliases = host.aliases := by
  rw [HostEnt.named]
  split <;> rfl

@[simp] theorem named_slots (text : Option Text) : (host.named text).slots = host.slots := by
  rw [HostEnt.named]
  split <;> rfl

theorem NameWithin.of_next {i : Int} (legible : Legible data i)
    (next : ∀ j, Moves data i j → NameWithin data j) : NameWithin data i := by
  intro c walk
  obtain rfl | ⟨j, move, rest⟩ := walk.cases_head
  · exact legible
  · exact next j move c rest

theorem root_within {i : Int} (legible : Legible data i) (root : octet data i = 0) : NameWithin data i := by
  refine .of_next legible fun j move => ?_
  cases move with
  | label nonzero _ => exact absurd root nonzero
  | pointer pointer _ => exact absurd root (pointer_nonzero pointer)

theorem readBytes_value {n : Nat} {bytes : List Byte} (read : readBytes data i n = .value bytes) :
    Span data i n := by
  by_contra outside
  obtain ⟨e, fault⟩ := readBytes_outside outside
  cases fault.symm.trans read

theorem Gives.accepted {name : Name} (gives : Gives data i i none 0 name) (accepted : name.size ≠ -1) :
    NameWithin data i ∧ Accepted data i name.size := by
  obtain ⟨N, reached⟩ := gives
  obtain ⟨more, ends, total⟩ := getName_size (reached N (Nat.le_refl N))
  exact ⟨.of_ends ⟨N, reached⟩, accepted_of_ends ends total accepted⟩

theorem afterName_ends_iff {β : Type} {next : Name → Nat → Access (Option β)}
    (stable : ∀ name, Stable (next name)) {b : β} :
    Ends (afterName data i next) (.value (some b)) ↔
      ∃ name, Gives data i i none 0 name ∧ name.size ≠ -1 ∧ Ends (next name) (.value (some b)) := by
  refine ((getName_stable data i i none 0).ends_value_iff (afterName_rest_stable stable)).trans ?_
  refine exists_congr fun name => and_congr_right fun _ => ?_
  by_cases refused : name.size = -1
  · simp only [if_pos refused, pure_eq, ends_const_iff, value.injEq, reduceCtorEq, false_iff]
    exact fun accepted => accepted.1 refused
  · simp only [if_neg refused]
    exact (and_iff_right refused).symm

/-- A round up to its record, and what is made of it. -/
def inRecord {β : Type} (data : List Byte) (start : Int)
    (next : Int → RecordFields → Nat → Access (Option β)) (fuel : Nat) : Access (Option β) := do
  hexDump data start 2
  afterName data start (fun name fuel => do
    let fields ← readRecord data (start + name.size)
    next (start + name.size) fields fuel) fuel

theorem inRecord_ends_iff {β : Type} (next : Int → RecordFields → Nat → Access (Option β)) {b : β}
    (stable : ∀ rr fields, Stable (next rr fields)) :
    Ends (inRecord data start next) (.value (some b)) ↔ ∃ rr, Recorded data start rr ∧
      Ends (next rr ⟨word data rr, word data (rr + 2), rdataLength data rr⟩) (.value (some b)) := by
  have dumped : Span data start 2 → hexDump data start 2 = .value () := hexDump_inside
  have record : ∀ rr, Span data rr 10 → readRecord data rr =
      .value ⟨word data rr, word data (rr + 2), rdataLength data rr⟩ := fun _ => readRecord_inside
  have continued : ∀ name : Name, Stable fun fuel => readRecord data (start + name.size) >>= fun fields =>
      next (start + name.size) fields fuel :=
    fun name => (stable_const _).bind fun fields => stable _ fields
  unfold inRecord
  rw [ends_step_iff dumped hexDump_outside, afterName_ends_iff continued]
  constructor
  · rintro ⟨dumped, name, gives, refused, ended⟩
    obtain ⟨fields, ended⟩ := (ends_step_iff (record _) readRecord_outside).mp ended
    obtain ⟨within, accepted⟩ := gives.accepted refused
    exact ⟨start + name.size, ⟨dumped, within, ⟨_, accepted, rfl⟩, fields⟩, ended⟩
  · rintro ⟨_, ⟨dumped, within, ⟨_, accepted, rfl⟩, fields⟩, ended⟩
    obtain ⟨name, gives, rfl⟩ := accepted.ends within
    exact ⟨dumped, name, gives, accepted.2, (ends_step_iff (record _) readRecord_outside).mpr ⟨fields, ended⟩⟩

theorem dumped_ends_iff {n : Nat} :
    Ends (fun _ => hexDump data i n >>= fun _ => return some host) (.value (some host')) ↔
      Span data i n ∧ host = host' := by
  have dumped : Span data i n → hexDump data i n = .value () := hexDump_inside
  rw [ends_step_iff dumped hexDump_outside, pure_eq, ends_const_iff, value.injEq, Option.some.injEq]

/-- The record is parsed as its type and class say. -/
theorem parseRdata_ends_iff (fields : Span data rr 10) :
    Ends (fun fuel => parseRdata data fuel rr (word data rr) (word data (rr + 2)) (rdataLength data rr) host)
      (.value (some host')) ↔ Parsed data rr host host' := by
  obtain address | cname | isName := record_cases data rr
  · simp only [parseRdata_address address.1 address.2 fields]
    constructor
    · intro ended
      obtain ⟨rdata, copied, same⟩ := bind_value_iff.mp (ends_const_iff.mp ended)
      cases same
      exact .address address copied
    · rintro (⟨-, copied⟩ | ⟨cname, -⟩ | ⟨isName, -⟩)
      · rw [copied, value_bind, pure_eq, ends_const_iff]
      · exact absurd address cname.not_address
      · exact absurd isName address.not_name
  · simp only [parseRdata_cname cname.1 cname.2]
    rw [dumped_ends_iff]
    constructor
    · rintro ⟨span, rfl⟩
      exact .cname cname span
    · rintro (⟨address, -⟩ | ⟨-, span⟩ | ⟨isName, -⟩)
      · exact absurd address cname.not_address
      · exact ⟨span, rfl⟩
      · exact absurd isName cname.not_name
  · simp only [parseRdata_name isName]
    rw [afterName_ends_iff fun _ => stable_const _]
    constructor
    · rintro ⟨alia, gives, accepted, ended⟩
      obtain ⟨span, rfl⟩ := dumped_ends_iff.mp ended
      exact .name isName gives accepted span
    · rintro (⟨address, -⟩ | ⟨cname, -⟩ | ⟨-, gives, accepted, span⟩)
      · exact absurd isName address.not_name
      · exact absurd isName cname.not_name
      · exact ⟨_, gives, accepted, dumped_ends_iff.mpr ⟨span, rfl⟩⟩

theorem parseRecord_ends_iff {name : Name} {size : Int} :
    Ends (parseRecord data start host name) (.value (some (host', size))) ↔
      Span data (start + name.size) 10 ∧ Parsed data (start + name.size) (host.named name.text) host' ∧
        start + size = behindRecord data (start + name.size) := by
  by_cases fields : Span data (start + name.size) 10
  · rw [funext (parseRecord_inside host fields), (parseRdata_stable _ _ _).ends_value_iff fun _ => stable_const _]
    simp only [pure_eq, ends_const_iff, value.injEq, Option.map_eq_some_iff, Prod.mk.injEq, fields, true_and,
      behindRecord]
    constructor
    · rintro ⟨_, ended, host'', rfl, rfl, rfl⟩
      exact ⟨(parseRdata_ends_iff fields).mp ended, by omega⟩
    · rintro ⟨parsed, place⟩
      exact ⟨_, (parseRdata_ends_iff fields).mpr parsed, host', rfl, rfl, by omega⟩
  · obtain ⟨e, record⟩ := parseRecord_outside host fields
    simp only [funext record, ends_const_iff, reduceCtorEq, fields, false_and]

/-- A round of the answer loop. -/
theorem parseAnswer_ends_iff {size : Int} :
    Ends (fun fuel => parseAnswer data fuel start host) (.value (some (host', size))) ↔
      ∃ rr, Answered data start rr host host' ∧ start + size = behindRecord data rr := by
  simp only [parseAnswer_eq]
  have dumped : Span data start 2 → hexDump data start 2 = .value () := hexDump_inside
  rw [ends_step_iff dumped hexDump_outside, afterName_ends_iff (parseRecord_stable start)]
  constructor
  · rintro ⟨dumped, name, gives, accepted, ended⟩
    obtain ⟨fields, parsed, place⟩ := parseRecord_ends_iff.mp ended
    exact ⟨start + name.size, ⟨dumped, fields, name, gives, accepted, rfl, parsed⟩, place⟩
  · rintro ⟨rr, ⟨dumped, fields, name, gives, accepted, rfl, parsed⟩, place⟩
    exact ⟨dumped, name, gives, accepted, parseRecord_ends_iff.mpr ⟨fields, parsed, place⟩⟩

theorem skipQuestions_ends_iff {n : Nat} {qSize qEnd : Int} :
    Ends (fun fuel => skipQuestions data fuel n qSize) (.value (some qEnd)) ↔
      QuestionsEnd data n (headerLength + qSize) (headerLength + qEnd) := by
  induction n generalizing qSize with
  | zero =>
    simp only [skipQuestions, ends_const_iff, value.injEq, Option.some.injEq]
    constructor
    · rintro rfl
      exact .none
    · intro ends
      generalize same : (headerLength : Int) + qSize = i at ends
      generalize same' : (headerLength : Int) + qEnd = j at ends
      cases ends
      omega
  | succ n ih =>
    refine (afterName_ends_iff fun name => skipQuestions_stable data n (qSize + name.size + 4)).trans ?_
    constructor
    · rintro ⟨name, gives, refused, ended⟩
      obtain ⟨within, accepted⟩ := gives.accepted refused
      have later := ih.mp ended
      simp only [← Int.add_assoc] at later
      exact .question within accepted later
    · intro ends
      generalize same : (headerLength : Int) + qSize = i at ends
      generalize same' : (headerLength : Int) + qEnd = j at ends
      obtain _ | @⟨_, _, size, _, within, accepted, later⟩ := ends
      subst same same'
      obtain ⟨name, gives, rfl⟩ := accepted.ends within
      refine ⟨name, gives, accepted.2, ih.mpr ?_⟩
      simp only [← Int.add_assoc]
      exact later

end Devent.Dns
