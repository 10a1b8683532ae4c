import Devent.Dns.Answers

/-! The tables of `c_dns_parse_a`: each store into `h_addr_list` and `h_aliases` with its index,
beside the slots that were allocated. The allocation takes the answer count as the host reads
it, the loop the count that was sent. -/
namespace Devent.Dns
open Outcome

inductive Table where
  | addrList
  | aliases
  deriving DecidableEq

structure Store where
  table : Table
  index : Nat
  deriving DecidableEq

/-- The size of both tables, `header->answer_count + 1`. -/
def tableSlots (answers : Nat) : Nat := answers % 256 * 256 + answers / 256 + 1

/-- `get_name` stores through `result` unless a pointer leads beyond the message. -/
def Name.stored (name : Name) : Bool := decide (name.size ≠ -1) || name.text.isSome

def otherStore (data : List Byte) (fuel : Nat) (rdata : Int) (type cls : Nat) (host : HostEnt) :
    Access (Option Store) :=
  if type ≠ typeCname ∨ cls ≠ classIn then do
    let alia ← getName data fuel rdata rdata none 0
    if alia.stored then return some ⟨.aliases, host.aliases.length⟩ else return none
  else return none

def rdataStore (data : List Byte) (fuel : Nat) (rr : Int) (type cls dataLen : Nat) (host : HostEnt) :
    Access (Option Store) :=
  if type ≠ typeA ∨ cls ≠ classIn then otherStore data fuel (rr + 10) type cls host
  else do
    hexDump data rr 10
    let _ ← readBytes data (rr + 10) dataLen
    return some ⟨.addrList, host.addrList.length⟩

/-- What a round stores before it ends, however it ends. -/
def answerStore (data : List Byte) (fuel : Nat) (start : Int) (host : HostEnt) : Access (Option Store) := do
  hexDump data start 2
  let name ← getName data fuel start start none 0
  if name.size = -1 then return none
  else
    let fields ← readRecord data (start + name.size)
    rdataStore data fuel (start + name.size) fields.type fields.cls fields.dataLen host

/-- `c_dns_parse_a` up to the allocation: the answer count and where the answers start. -/
def answersStart (data : List Byte) (fuel : Nat) : Access (Option (Nat × Int)) := do
  hexDump data 0 data.length
  let flags ← read data 2
  if flags < 0x80 then return none
  else
    let flags ← read data 3
    if flags &&& 15 ≠ 0 then
      let _ ← readNtohs data 6
      return none
    else
      let questions ← readNtohs data 4
      match ← skipQuestions data fuel questions 0 with
      | none => return none
      | some qSize =>
        let answers ← readNtohs data 6
        if answers = 0 then return none else return some (answers, headerLength + qSize)

/-- The head of the answer loop. -/
structure AnswerHead where
  left : Nat
  start : Int
  host : HostEnt

/-- The loop as it is entered. -/
def AnswerHead.first (answers : Nat) (start : Int) : AnswerHead :=
  ⟨answers, start, ⟨none, [], [], tableSlots answers⟩⟩

/-- A round that does not leave the loop. -/
inductive AnswerRound (data : List Byte) : AnswerHead → AnswerHead → Prop
  | next {left start host host' size} :
      Ends (fun fuel => parseAnswer data fuel start host) (.value (some (host', size))) →
      AnswerRound data ⟨left + 1, start, host⟩ ⟨left, start + size, host'⟩

/-- The parser begins a round here. -/
def Reached (data : List Byte) (head : AnswerHead) : Prop :=
  ∃ answers start, Ends (answersStart data) (.value (some (answers, start))) ∧
    Relation.ReflTransGen (AnswerRound data) (.first answers start) head ∧ 0 < head.left

/-- The parser makes this store, into a table with so many slots. -/
def Stores (data : List Byte) (store : Store) (slots : Nat) : Prop :=
  ∃ head, Reached data head ∧
    Ends (fun fuel => answerStore data fuel head.start head.host) (.value (some store)) ∧
    head.host.slots = slots

/-- Behind every store a NULL is left. -/
def TablesTerminated (data : List Byte) : Prop :=
  ∀ store slots, Stores data store slots → store.index < slots - 1

/-- Nothing is read outside the message, so that every store has been counted, and behind every
store a NULL is left. -/
structure TablesKept (data : List Byte) : Prop where
  inside : ∀ fuel e, parseA data fuel ≠ .fault e
  terminated : TablesTerminated data

section Layout

variable (data : List Byte)

def StoresAddress (rr : Int) : Prop := IsAddress data rr ∧ Span data (rr + 10) (rdataLength data rr)

def StoresAlias (rr : Int) : Prop := RdataIsName data rr ∧ NameWithin data (rr + 10) ∧
  ∃ size, NameSize data (rr + 10) (some size)

/-- The record is read in full, and its name if it is one is not refused. -/
structure Passes (rr : Int) : Prop where
  span : Span data (rr + 10) (rdataLength data rr)
  named : RdataIsName data rr → NameWithin data (rr + 10) ∧ ∃ size, Accepted data (rr + 10) size

/-- The records of the answers that follow one another from `i` to `j`. -/
inductive Reads : Int → List Int → Int → Prop
  | none {i} : Reads i [] i
  | answer {i rr records j} : Recorded data i rr → Passes data rr → Reads (behindRecord data rr) records j →
      Reads i (rr :: records) j

/-- The records with an address, and those with a name, stay within the byte-swapped count. -/
def TablesFit : Prop :=
  ∀ i, Begins data i → ∀ records j rr, Reads data i records j → records.length < word data 6 →
    Recorded data j rr →
    (StoresAddress data rr → records.countP (IsAddress data) < word data 6 % 256 * 256 + word data 6 / 256) ∧
    (StoresAlias data rr → records.countP (RdataIsName data) < word data 6 % 256 * 256 + word data 6 / 256)

end Layout

variable {data : List Byte} {i rr start : Int} {host host' : HostEnt} {store : Store}

/-- The prefix and the loop are the parser. -/
theorem parseA_eq (data : List Byte) (fuel : Nat) :
    parseA data fuel = answersStart data fuel >>= fun
      | none => return none
      | some (answers, start) => parseAnswers data fuel answers start (AnswerHead.first answers start).host := by
  simp only [parseA, answersStart, bind_bind]
  refine congrArg _ (funext fun _ => congrArg _ (funext fun flags => ?_))
  by_cases query : flags < 0x80
  · simp only [if_pos query, pure_eq, value_bind]
  · simp only [if_neg query, bind_bind]
    refine congrArg _ (funext fun flags => ?_)
    by_cases error : flags &&& 15 ≠ 0
    · simp only [if_pos error, bind_bind, pure_eq, value_bind]
    · simp only [if_neg error, bind_bind]
      refine congrArg _ (funext fun questions => congrArg _ (funext fun skipped => ?_))
      cases skipped with
      | none => rfl
      | some qSize =>
        simp only [bind_bind]
        refine congrArg _ (funext fun answers => ?_)
        by_cases empty : answers = 0
        · simp only [if_pos empty, pure_eq, value_bind]
        · simp only [if_neg empty, pure_eq, value_bind]
          rfl

/-- What follows the questions, up to the loop. -/
theorem questions_ends_iff {questions answers : Nat} :
    Ends (fun fuel => skipQuestions data fuel questions 0 >>= fun
      | none => return none
      | some qSize => readNtohs data 6 >>= fun answers =>
          if answers = 0 then return none else return some (answers, headerLength + qSize))
      (.value (some (answers, start))) ↔
      QuestionsEnd data questions headerLength start ∧ Span data 6 2 ∧ word data 6 ≠ 0 ∧
        answers = word data 6 := by
  refine ((skipQuestions_stable data questions 0).ends_value_iff fun _ => stable_const _).trans ?_
  have count : Span data 6 2 → readNtohs data 6 = .value (word data 6) := readNtohs_inside
  constructor
  · rintro ⟨_ | qSize, skipped, ended⟩
    · cases ends_const_iff.mp ended
    · obtain ⟨header, ended⟩ := (ends_step_iff count readNtohs_outside).mp ended
      split at ended
      · cases ends_const_iff.mp ended
      · rename_i nonempty
        cases ends_const_iff.mp ended
        exact ⟨skipQuestions_ends_iff.mp skipped, header, nonempty, rfl⟩
  · rintro ⟨ends, header, nonempty, rfl⟩
    have place : start = headerLength + (start - headerLength) := by omega
    refine ⟨some (start - headerLength), skipQuestions_ends_iff.mpr (place ▸ ends), ?_⟩
    refine (ends_step_iff count readNtohs_outside).mpr ⟨header, ?_⟩
    simp only [if_neg nonempty, pure_eq, ends_const_iff, ← place]

theorem answersStart_ends_iff {answers : Nat} :
    Ends (answersStart data) (.value (some (answers, start))) ↔
      Begins data start ∧ answers = word data 6 := by
  have flags : Span data 2 1 → read data 2 = .value (octet data 2) := read_inside
  have code : Span data 3 1 → read data 3 = .value (octet data 3) := read_inside
  have questions : Span data 4 2 → readNtohs data 4 = .value (word data 4) := readNtohs_inside
  unfold answersStart
  simp only [hexDump_inside (span_all data), value_bind]
  rw [ends_step_iff flags fun outside => ⟨2, read_outside outside⟩]
  by_cases response : IsResponse data
  · have high : ¬octet data 2 < 0x80 := fun low => not_isResponse_iff.mpr low response
    simp only [if_neg high]
    rw [ends_step_iff code fun outside => ⟨3, read_outside outside⟩]
    by_cases error : IsError data
    · have coded : octet data 3 &&& 15 ≠ 0 := error
      simp only [if_pos coded]
      constructor
      · rintro ⟨-, -, ended⟩
        obtain ⟨_, -, none⟩ := bind_value_iff.mp (ends_const_iff.mp ended)
        cases none
      · exact fun begins => absurd error begins.1.code.2
    · have coded : ¬octet data 3 &&& 15 ≠ 0 := error
      simp only [if_neg coded]
      rw [ends_step_iff questions readNtohs_outside]
      refine Iff.trans (and_congr_right fun _ => and_congr_right fun _ => and_congr_right fun _ =>
        questions_ends_iff) ?_
      constructor
      · rintro ⟨flags, code, header, ends, count, nonempty, rfl⟩
        exact ⟨⟨⟨flags, response⟩, ⟨code, error⟩, ⟨header, ends⟩, ⟨count, nonempty⟩⟩, rfl⟩
      · rintro ⟨begins, rfl⟩
        exact ⟨begins.flags.1, begins.code.1, begins.questions.1, begins.questions.2, begins.answers.1,
          begins.answers.2, rfl⟩
  · have low := not_isResponse_iff.mp response
    simp only [if_pos low, pure_eq, ends_const_iff, value.injEq, reduceCtorEq, and_false, false_iff]
    exact fun begins => response begins.1.flags.2

theorem NameSize.unique {size size' : Option Int} (ends : NameSize data i size)
    (ends' : NameSize data i size') : size = size' := by
  induction ends generalizing size' with
  | root root =>
    cases ends' with
    | root _ => rfl
    | far pointer _ => exact absurd root (pointer_nonzero pointer)
    | pointer pointer _ _ => exact absurd root (pointer_nonzero pointer)
    | label nonzero _ _ => exact absurd root nonzero
  | far pointer far =>
    cases ends' with
    | root root => exact absurd root (pointer_nonzero pointer)
    | far _ _ => rfl
    | pointer _ near _ => exact absurd near (Nat.not_le.mpr far)
    | label _ plain _ => exact absurd pointer plain
  | pointer pointer near _ _ =>
    cases ends' with
    | root root => exact absurd root (pointer_nonzero pointer)
    | far _ far => exact absurd near (Nat.not_le.mpr far)
    | pointer _ _ _ => rfl
    | label _ plain _ => exact absurd pointer plain
  | label nonzero plain _ ih =>
    cases ends' with
    | root root => exact absurd root nonzero
    | far pointer _ => exact absurd pointer plain
    | pointer pointer _ _ => exact absurd pointer plain
    | label _ _ rest => rw [ih rest]

/-- Without a label there is no size of -1 but that of the refusal. -/
theorem Gives.stored_eq {offset size : Int} {text : Option Text} {name : Name}
    (gives : Gives data offset i text size name) (fresh : text = none → size = 0) :
    ∃ more, NameSize data i more ∧ name.stored = more.isSome := by
  refine Gives.induction (motive := fun _ i text size name => (text = none → size = 0) →
    ∃ more, NameSize data i more ∧ name.stored = more.isSome) ?_ ?_ ?_ ?_ gives fresh
  · intro _ i text size _ root fresh
    refine ⟨some 1, .root root, ?_⟩
    cases text with
    | none => simp [Name.stored, fresh rfl]
    | some gathered => simp [Name.stored]
  · intro _ i text size _ pointer far _
    exact ⟨none, .far pointer far, rfl⟩
  · intro _ i text size left _ pointer near nested fresh
    obtain ⟨more, ends, -⟩ := nested fun _ => rfl
    refine ⟨some 2, .pointer pointer near ends, ?_⟩
    cases text with
    | none => simp [Name.stored, append, fresh rfl]
    | some gathered => simp [Name.stored, append]
  · intro _ i text size copied name _ root plain _ rest _
    obtain ⟨more, ends, stored⟩ := rest fun none => absurd none (Option.some_ne_none _)
    exact ⟨_, .label root plain ends, by rw [stored, Option.isSome_map]⟩

theorem Gives.stored_iff {alia : Name} (gives : Gives data i i none 0 alia) :
    alia.stored = true ↔ ∃ size, NameSize data i (some size) := by
  obtain ⟨more, ends, stored⟩ := gives.stored_eq fun _ => rfl
  rw [stored, Option.isSome_iff_exists]
  constructor
  · rintro ⟨size, rfl⟩
    exact ⟨size, ends⟩
  · rintro ⟨size, ends'⟩
    exact ⟨size, ends.unique ends'⟩

theorem exists_gives {size : Option Int} (ends : NameSize data i size) (within : NameWithin data i) :
    ∃ name, Gives data i i none 0 name := by
  obtain ⟨fuel, name, value, -⟩ := getName_ends i none 0 ends within
  exact ⟨name, ((getName_stable data i i none 0).ends_iff (by simp)).mpr ⟨fuel, value⟩⟩

/-- The store of a record is that of its kind. -/
theorem rdataStore_ends_iff (fields : Span data rr 10) :
    Ends (fun fuel => rdataStore data fuel rr (word data rr) (word data (rr + 2)) (rdataLength data rr) host)
      (.value (some store)) ↔
      StoresAddress data rr ∧ store = ⟨.addrList, host.addrList.length⟩ ∨
        StoresAlias data rr ∧ store = ⟨.aliases, host.aliases.length⟩ := by
  obtain address | cname | isName := record_cases data rr
  · have kept : ¬(word data rr ≠ typeA ∨ word data (rr + 2) ≠ classIn) := by
      simp only [address.1, address.2, ne_eq, not_true_eq_false, or_self, not_false_eq_true]
    simp only [rdataStore, if_neg kept, hexDump_inside fields, value_bind, StoresAddress, address, true_and,
      StoresAlias, address.not_name, false_and, or_false]
    constructor
    · intro ended
      obtain ⟨rdata, copied, same⟩ := bind_value_iff.mp (ends_const_iff.mp ended)
      cases same
      exact ⟨readBytes_value copied, rfl⟩
    · rintro ⟨span, rfl⟩
      obtain ⟨rdata, copied⟩ := readBytes_inside span
      rw [copied, value_bind, pure_eq, ends_const_iff]
  · have other : word data rr ≠ typeA ∨ word data (rr + 2) ≠ classIn := by
      rw [cname.1]
      exact .inl (by decide)
    have skipped : ¬(word data rr ≠ typeCname ∨ word data (rr + 2) ≠ classIn) := by
      simp only [cname.1, cname.2, ne_eq, not_true_eq_false, or_self, not_false_eq_true]
    simp only [rdataStore, if_pos other, otherStore, if_neg skipped, pure_eq, ends_const_iff, value.injEq,
      reduceCtorEq, StoresAddress, cname.not_address, StoresAlias, cname.not_name, false_and, or_self]
  · have notAddress : ¬IsAddress data rr := fun address => address.not_name isName
    simp only [rdataStore, if_pos isName.1, otherStore, if_pos isName.2, StoresAddress, notAddress,
      StoresAlias, isName, true_and, false_and, false_or]
    rw [(getName_stable data _ _ none 0).ends_value_iff fun _ => stable_const _]
    constructor
    · rintro ⟨alia, gives, ended⟩
      split at ended
      · rename_i stored
        cases ends_const_iff.mp ended
        exact ⟨⟨.of_ends gives, (Gives.stored_iff gives).mp stored⟩, rfl⟩
      · cases ends_const_iff.mp ended
    · rintro ⟨⟨within, size, ends⟩, rfl⟩
      obtain ⟨alia, gives⟩ := exists_gives ends within
      have stored := gives.stored_iff.mpr ⟨size, ends⟩
      exact ⟨alia, gives, by simp only [if_pos stored, pure_eq, ends_const_iff]⟩

theorem rdataStore_stable (type cls dataLen : Nat) :
    Stable fun fuel => rdataStore data fuel rr type cls dataLen host := by
  refine Stable.ite (Stable.ite ?_ (stable_const _)) (stable_const _)
  exact (getName_stable data _ _ none 0).bind fun _ => stable_const _

theorem answerStore_ends_iff :
    Ends (fun fuel => answerStore data fuel start host) (.value (some store)) ↔
      ∃ rr, Recorded data start rr ∧
        (StoresAddress data rr ∧ store = ⟨.addrList, host.addrList.length⟩ ∨
          StoresAlias data rr ∧ store = ⟨.aliases, host.aliases.length⟩) := by
  refine (inRecord_ends_iff (fun rr fields fuel =>
    rdataStore data fuel rr fields.type fields.cls fields.dataLen host) ?_).trans ?_
  · exact fun rr fields => rdataStore_stable fields.type fields.cls fields.dataLen
  · exact exists_congr fun rr => and_congr_right fun recorded => rdataStore_ends_iff recorded.fields

/-- The records read between two hosts are counted by their tables. -/
structure Grows (data : List Byte) (records : List Int) (host host' : HostEnt) : Prop where
  addresses : host'.addrList.length = host.addrList.length + records.countP (IsAddress data)
  aliases : host'.aliases.length = host.aliases.length + records.countP (RdataIsName data)
  slots : host'.slots = host.slots

theorem Grows.cons {records : List Int} {host'' : HostEnt} (first : Grows data [rr] host host')
    (later : Grows data records host' host'') : Grows data (rr :: records) host host'' := by
  have split : rr :: records = [rr] ++ records := rfl
  constructor
  · rw [later.addresses, first.addresses, split, List.countP_append, Nat.add_assoc]
  · rw [later.aliases, first.aliases, split, List.countP_append, Nat.add_assoc]
  · exact later.slots.trans first.slots

theorem Grows.snoc {records : List Int} {host'' : HostEnt} (before : Grows data records host host')
    (last : Grows data [rr] host' host'') : Grows data (records ++ [rr]) host host'' := by
  constructor
  · rw [last.addresses, before.addresses, List.countP_append, Nat.add_assoc]
  · rw [last.aliases, before.aliases, List.countP_append, Nat.add_assoc]
  · exact last.slots.trans before.slots

theorem Parsed.grows (parsed : Parsed data rr host host') : Grows data [rr] host host' := by
  cases parsed with
  | address address _ => constructor <;> simp [address, address.not_name]
  | cname cname _ => constructor <;> simp [cname.not_address, cname.not_name]
  | name isName _ _ _ =>
    have notAddress : ¬IsAddress data rr := fun address => address.not_name isName
    constructor <;> simp [isName, notAddress]

theorem Answered.grows (answered : Answered data i rr host host') : Grows data [rr] host host' := by
  obtain ⟨name, -, -, -, parsed⟩ := answered.parsed
  obtain ⟨addresses, aliases, slots⟩ := parsed.grows
  rw [named_addrList] at addresses
  rw [named_aliases] at aliases
  rw [named_slots] at slots
  exact ⟨addresses, aliases, slots⟩

theorem Answered.recorded (answered : Answered data i rr host host') : Recorded data i rr := by
  obtain ⟨name, gives, refused, place, -⟩ := answered.parsed
  obtain ⟨within, accepted⟩ := gives.accepted refused
  exact ⟨answered.dumped, within, ⟨_, accepted, place⟩, answered.fields⟩

theorem Answered.passes (answered : Answered data i rr host host') : Passes data rr := by
  obtain ⟨_, -, -, -, parsed⟩ := answered.parsed
  cases parsed with
  | address address copied => exact ⟨readBytes_value copied, fun isName => absurd isName address.not_name⟩
  | cname cname span => exact ⟨span, fun isName => absurd isName cname.not_name⟩
  | name isName gives refused span =>
    obtain ⟨within, accepted⟩ := gives.accepted refused
    exact ⟨span, fun _ => ⟨within, _, accepted⟩⟩

theorem exists_answered (recorded : Recorded data i rr) (passes : Passes data rr) (host : HostEnt) :
    ∃ host', Answered data i rr host host' := by
  obtain ⟨_, accepted, rfl⟩ := recorded.accepted
  obtain ⟨name, gives, rfl⟩ := accepted.ends recorded.within
  suffices parsed : ∃ host', Parsed data (i + name.size) (host.named name.text) host' by
    obtain ⟨host', parsed⟩ := parsed
    exact ⟨host', recorded.dumped, recorded.fields, name, gives, accepted.2, rfl, parsed⟩
  obtain address | cname | isName := record_cases data (i + name.size)
  · obtain ⟨rdata, copied⟩ := readBytes_inside passes.span
    exact ⟨_, .address address copied⟩
  · exact ⟨_, .cname cname passes.span⟩
  · obtain ⟨within, _, accepted⟩ := passes.named isName
    obtain ⟨alia, gives, rfl⟩ := accepted.ends within
    exact ⟨_, .name isName gives accepted.2 passes.span⟩

theorem Reads.snoc {records : List Int} {j : Int} (reads : Reads data i records j)
    (recorded : Recorded data j rr) (passes : Passes data rr) :
    Reads data i (records ++ [rr]) (behindRecord data rr) := by
  induction reads with
  | none => exact .answer recorded passes .none
  | answer first passed _ ih => exact .answer first passed (ih recorded)

/-- The rounds of a run read one record after the other. -/
theorem rounds_read {first head : AnswerHead} (run : Relation.ReflTransGen (AnswerRound data) first head) :
    ∃ records, Reads data first.start records head.start ∧ first.left = head.left + records.length ∧
      Grows data records first.host head.host := by
  induction run with
  | refl => exact ⟨[], .none, rfl, rfl, rfl, rfl⟩
  | tail _ round ih =>
    obtain ⟨records, reads, count, grown⟩ := ih
    obtain @⟨left, start, host, host', size, ended⟩ := round
    obtain ⟨rr, answered, place⟩ := parseAnswer_ends_iff.mp ended
    refine ⟨records ++ [rr], ?_, ?_, grown.snoc answered.grows⟩
    · rw [place]
      exact reads.snoc answered.recorded answered.passes
    · have count : first.left = left + 1 + records.length := count
      rw [count, List.length_append, List.length_singleton]
      exact Nat.succ_add_eq_add_succ left records.length

theorem reads_rounds {records : List Int} {j : Int} (reads : Reads data i records j) (left : Nat)
    (host : HostEnt) : ∃ host', Grows data records host host' ∧
      Relation.ReflTransGen (AnswerRound data) ⟨left + records.length, i, host⟩ ⟨left, j, host'⟩ := by
  induction reads generalizing host with
  | none => exact ⟨host, ⟨rfl, rfl, rfl⟩, .refl⟩
  | @answer i rr records j recorded passes _ ih =>
    obtain ⟨host', answered⟩ := exists_answered recorded passes host
    obtain ⟨host'', grown, run⟩ := ih host'
    refine ⟨host'', answered.grows.cons grown, ?_⟩
    have place : behindRecord data rr = i + (behindRecord data rr - i) := by omega
    have ended := parseAnswer_ends_iff.mpr ⟨rr, answered, place.symm⟩
    rw [place] at run
    exact run.head (.next ended)

/-- The loop returns a host exactly when a run of its rounds ends with it. -/
theorem parseAnswers_ends_iff {left : Nat} :
    Ends (fun fuel => parseAnswers data fuel left start host) (.value (some host')) ↔
      ∃ stop, Relation.ReflTransGen (AnswerRound data) ⟨left, start, host⟩ ⟨0, stop, host'⟩ := by
  induction left generalizing start host with
  | zero =>
    simp only [parseAnswers, ends_const_iff, value.injEq, Option.some.injEq]
    constructor
    · rintro rfl
      exact ⟨start, .refl⟩
    · rintro ⟨stop, run⟩
      obtain same | ⟨_, round, -⟩ := run.cases_head
      · cases same
        rfl
      · cases round
  | succ left ih =>
    simp only [parseAnswers_succ]
    rw [(parseAnswer_stable start).ends_value_iff (moreAnswers_stable left start)]
    constructor
    · rintro ⟨_ | ⟨host'', size⟩, ended, later⟩
      · cases ends_const_iff.mp later
      · obtain ⟨stop, run⟩ := ih.mp later
        exact ⟨stop, run.head (.next ended)⟩
    · rintro ⟨stop, run⟩
      obtain same | ⟨_, round, run⟩ := run.cases_head
      · cases same
      · cases round with
        | next ended => exact ⟨_, ended, ih.mpr ⟨stop, run⟩⟩

theorem answersStart_stable (data : List Byte) : Stable (answersStart data) := by
  refine (stable_const _).bind fun _ => (stable_const _).bind fun flags => (stable_const _).ite ?_
  refine (stable_const _).bind fun flags => (stable_const _).ite ?_
  refine (stable_const _).bind fun questions => (skipQuestions_stable data questions 0).bind fun skipped => ?_
  cases skipped <;> exact stable_const _

/-- So does the parser, from the head where the loop is entered. -/
theorem parseA_ends_iff : Ends (parseA data) (.value (some host)) ↔
    ∃ answers start stop, Ends (answersStart data) (.value (some (answers, start))) ∧
      Relation.ReflTransGen (AnswerRound data) (.first answers start) ⟨0, stop, host⟩ := by
  let rest (fuel : Nat) : Option (Nat × Int) → Access (Option HostEnt)
    | none => return none
    | some (answers, start) => parseAnswers data fuel answers start (AnswerHead.first answers start).host
  have split : ∀ fuel, parseA data fuel = answersStart data fuel >>= rest fuel := parseA_eq data
  have stable : ∀ begun, Stable fun fuel => rest fuel begun := by
    rintro (_ | ⟨answers, start⟩)
    · exact stable_const _
    · exact parseAnswers_stable answers start _
  rw [funext split, (answersStart_stable data).ends_value_iff stable]
  constructor
  · rintro ⟨_ | ⟨answers, start⟩, begun, later⟩
    · cases ends_const_iff.mp later
    · obtain ⟨stop, run⟩ := parseAnswers_ends_iff.mp later
      exact ⟨answers, start, stop, begun, run⟩
  · rintro ⟨answers, start, stop, begun, run⟩
    exact ⟨_, begun, parseAnswers_ends_iff.mpr ⟨stop, run⟩⟩

/-- A round begins behind records that were read one after the other. -/
theorem Reached.reads {head : AnswerHead} (reached : Reached data head) : ∃ i records, Begins data i ∧
    Reads data i records head.start ∧ records.length < word data 6 ∧
    Grows data records (AnswerHead.first (word data 6) i).host head.host := by
  obtain ⟨answers, start, begun, run, more⟩ := reached
  obtain ⟨begins, rfl⟩ := answersStart_ends_iff.mp begun
  obtain ⟨records, reads, count, grown⟩ := rounds_read run
  have count : word data 6 = head.left + records.length := count
  exact ⟨start, records, begins, reads, by omega, grown⟩

theorem Reads.reached {i j : Int} {records : List Int} (reads : Reads data i records j)
    (begins : Begins data i) (more : records.length < word data 6) : ∃ left host,
    Reached data ⟨left, j, host⟩ ∧ Grows data records (AnswerHead.first (word data 6) i).host host := by
  obtain ⟨left, count⟩ := Nat.exists_eq_add_of_lt more
  have total : word data 6 = left + 1 + records.length := by omega
  obtain ⟨host, grown, run⟩ := reads_rounds reads (left + 1) (AnswerHead.first (word data 6) i).host
  rw [← total] at run
  exact ⟨left + 1, host, ⟨_, i, answersStart_ends_iff.mpr ⟨begins, rfl⟩, run, Nat.succ_pos left⟩, grown⟩

/-- A store is made for the record of its kind, at the index its kind has reached. -/
theorem stores_iff {slots : Nat} : Stores data store slots ↔ ∃ i records j rr, Begins data i ∧
    Reads data i records j ∧ records.length < word data 6 ∧ Recorded data j rr ∧
    slots = tableSlots (word data 6) ∧
    (StoresAddress data rr ∧ store = ⟨.addrList, records.countP (IsAddress data)⟩ ∨
      StoresAlias data rr ∧ store = ⟨.aliases, records.countP (RdataIsName data)⟩) := by
  constructor
  · rintro ⟨head, reached, ended, rfl⟩
    obtain ⟨i, records, begins, reads, more, grown⟩ := reached.reads
    obtain ⟨rr, recorded, kind⟩ := answerStore_ends_iff.mp ended
    have addresses : head.host.addrList.length = _ := grown.addresses.trans (Nat.zero_add _)
    have aliases : head.host.aliases.length = _ := grown.aliases.trans (Nat.zero_add _)
    rw [addresses, aliases] at kind
    exact ⟨i, records, head.start, rr, begins, reads, more, recorded, grown.slots, kind⟩
  · rintro ⟨i, records, j, rr, begins, reads, more, recorded, rfl, kind⟩
    obtain ⟨left, host, reached, grown⟩ := reads.reached begins more
    have addresses : host.addrList.length = _ := grown.addresses.trans (Nat.zero_add _)
    have aliases : host.aliases.length = _ := grown.aliases.trans (Nat.zero_add _)
    rw [← addresses, ← aliases] at kind
    exact ⟨⟨left, j, host⟩, reached, answerStore_ends_iff.mpr ⟨rr, recorded, kind⟩, grown.slots⟩

theorem terminated_iff_fit : TablesTerminated data ↔ TablesFit data := by
  have room : tableSlots (word data 6) - 1 = word data 6 % 256 * 256 + word data 6 / 256 := rfl
  constructor
  · intro terminated i begins records j rr reads more recorded
    rw [← room]
    constructor
    · intro kind
      exact terminated _ _ (stores_iff.mpr
        ⟨i, records, j, rr, begins, reads, more, recorded, rfl, .inl ⟨kind, rfl⟩⟩)
    · intro kind
      exact terminated _ _ (stores_iff.mpr
        ⟨i, records, j, rr, begins, reads, more, recorded, rfl, .inr ⟨kind, rfl⟩⟩)
  · intro fit store slots stores
    obtain ⟨i, records, j, rr, begins, reads, more, recorded, rfl, kind⟩ := stores_iff.mp stores
    rw [room]
    obtain ⟨addresses, aliases⟩ := fit i begins records j rr reads more recorded
    obtain ⟨kind, rfl⟩ | ⟨kind, rfl⟩ := kind
    · exact addresses kind
    · exact aliases kind

/-- The parser reads inside its message and every store leaves room for the terminator exactly when the
layout lies inside, and the records with an address, and those whose RDATA is read as a name, are no
more than the byte-swapped count. -/
theorem tables_terminated_iff (data : List Byte) : TablesKept data ↔ Contained data ∧ TablesFit data := by
  rw [← parseA_safe_iff, ← terminated_iff_fit]
  exact ⟨fun kept => ⟨kept.inside, kept.terminated⟩, fun ⟨inside, terminated⟩ => ⟨inside, terminated⟩⟩

/-- The root's address in class IN, without RDATA. -/
def rootRecord : List Byte := [0, 0, 1, 0, 1, 0, 0, 0, 0, 0, 0]

/-- 256 answers, for which the host reads a count of one. -/
def manyAddresses : List Byte :=
  [0, 0, 0x80, 0, 0, 0, 1, 0, 0, 0, 0, 0] ++ (List.replicate 256 rootRecord).flatten

theorem length_manyAddresses : manyAddresses.length = 2828 := by
  simp only [manyAddresses, List.length_append, List.length_flatten, List.map_replicate, List.sum_replicate]
  rfl

theorem root_recorded (fields : Span data i 11) (positive : 0 ≤ i) (root : octet data i = 0) :
    Recorded data i (i + 1) := by
  have inside : Span data i 1 := by simp only [Span] at fields ⊢; omega
  have legible : Legible data i :=
    ⟨inside, fun pointer => absurd root (pointer_nonzero pointer), fun nonzero => absurd root nonzero⟩
  constructor
  · simp only [Span] at fields ⊢
    omega
  · exact root_within legible root
  · exact ⟨1, ⟨.root root, by decide⟩, rfl⟩
  · simp only [Span] at fields ⊢
    omega

theorem manyAddresses_overflow : ¬TablesTerminated manyAddresses := by
  intro terminated
  have size := length_manyAddresses
  have inside : ∀ i n : Nat, i + n ≤ 2828 → Span manyAddresses i n := by
    intro i n short
    rw [Span, size]
    omega
  have begins : Begins manyAddresses 12 := by
    have flags : octet manyAddresses 2 = 0x80 := by decide
    have code : octet manyAddresses 3 = 0 := by decide
    refine ⟨⟨inside 2 1 (by decide), ?_⟩, ⟨inside 3 1 (by decide), ?_⟩, ⟨inside 4 2 (by decide), .none⟩,
      inside 6 2 (by decide), by decide⟩
    · rw [IsResponse, flags]
      exact UInt8.le_refl 0x80
    · rw [IsError, code]
      decide
  have first := root_recorded (inside 12 11 (by decide)) (by decide) (by decide)
  have second := root_recorded (inside 23 11 (by decide)) (by decide) (by decide)
  have address : IsAddress manyAddresses 13 := by decide
  have passes : Passes manyAddresses 13 := by
    exact ⟨inside 23 0 (by decide), fun isName => absurd isName address.not_name⟩
  have reads : Reads manyAddresses 12 [13] 23 := .answer first passes .none
  have counted : [(13 : Int)].countP (IsAddress manyAddresses) = 1 := by
    rw [List.countP_singleton, if_pos (decide_eq_true address)]
  have stored : Stores manyAddresses ⟨.addrList, 1⟩ 2 := stores_iff.mpr ⟨12, [13], 23, 24, begins, reads,
    by decide, second, by decide, .inl ⟨⟨by decide, inside 34 0 (by decide)⟩, by rw [counted]⟩⟩
  exact absurd (terminated _ _ stored) (by decide)

end Devent.Dns
