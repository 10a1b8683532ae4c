import Devent.Dns.Sections
import Devent.Dns.Tables

/-! Which records of a well-formed response `c_dns_parse_a` extracts. It reads the RDATA of every
type but A and CNAME as a name, keeps no target of a CNAME, and takes an address of any length. -/
namespace Devent.Dns
open Outcome

/-- A response with at least one answer. -/
structure Response where
  questions : List Question
  first : Answer
  rest : List Answer

namespace Response

def answers (response : Response) : List Answer := response.first :: response.rest

/-- The response stands in the message; nothing is asked of what follows its answers. -/
structure Stands (data : List Byte) (response : Response) : Prop where
  flags : ∃ flags, At data 2 [flags] ∧ 0x80 ≤ flags
  code : ∃ code, At data 3 [code] ∧ code &&& 15 = 0
  questionCount : response.questions.length < 2 ^ 16 ∧ At data 4 (htons response.questions.length)
  answerCount : response.answers.length < 2 ^ 16 ∧ At data 6 (htons response.answers.length)
  questions : QuestionsStand data response.questions headerLength ∧
    ∀ question ∈ response.questions, question.name.Near
  answers : AnswersStand data response.answers (questionsEnd response.questions headerLength)

def addresses (response : Response) : List (List Byte) :=
  response.answers.filterMap fun answer => answer.content.address

def targets (response : Response) : List CompressedName :=
  response.answers.filterMap fun answer => answer.content.target

end Response

/-- The record whose RDATA a round hands to `get_name`, beside `parse_rdata`. -/
def namedRecord (data : List Byte) (fuel : Nat) (start : Int) : Access (Option Int) :=
  inRecord data start (fun rr fields _ =>
    if fields.type ≠ typeA ∨ fields.cls ≠ classIn then
      if fields.type ≠ typeCname ∨ fields.cls ≠ classIn then return some rr else return none
    else return none) fuel

/-- The parser reads the RDATA of the record as a name. -/
def NamesRdata (data : List Byte) (rr : Int) : Prop :=
  ∃ head, Reached data head ∧ Ends (fun fuel => namedRecord data fuel head.start) (.value (some rr))

/-- The host holds the addresses of four bytes, the canonical names and the first owner, and both
tables end with a NULL. -/
structure Extracts (response : Response) (host : HostEnt) : Prop where
  addresses : host.addrList = response.addresses.filter (·.length = 4)
  aliases : host.aliases = response.targets.map fun target => joined target.labels
  name : host.name = joined response.first.owner.labels
  terminated : host.addrList.length < host.slots ∧ host.aliases.length < host.slots

/-- The parser returns. It extracts the records, or refuses an address of another length; no
RDATA but that of a CNAME is read as a name. -/
def ExtractsRecords (data : List Byte) (response : Response) : Prop :=
  ∃ result, Ends (parseA data) (.value result) ∧
    (∀ host, result = some host → Extracts response host) ∧
    (result = none → ∃ address ∈ response.addresses, address.length ≠ 4) ∧
    ∀ rr, NamesRdata data rr → IsCname data rr

/-- Only addresses of four bytes, no more of them than the byte-swapped count, and a first owner
that is read as it is written. (Owners that are all the root leave the name NULL.) -/
structure Extractable (data : List Byte) (response : Response) : Prop where
  addresses : ∀ answer ∈ response.answers, ∃ address, answer.content.address = some address ∧
    address.length = 4
  count : response.answers.length < tableSlots response.answers.length
  name : response.first.owner.labels ≠ [] ∧ response.first.owner.Faithful data .text ∨
    ∀ answer ∈ response.answers, answer.owner.labels = []

variable {data : List Byte} {i : Nat} {answer : Answer} {answers rest : List Answer} {response : Response}
  {host host' host'' : HostEnt}

/-- The record is an address or a canonical name. -/
def Answer.Known (answer : Answer) : Prop :=
  answer.content.address ≠ none ∨ answer.content.target ≠ none

/-- What these answers leave in the host. -/
structure Collects (answers : List Answer) (host host' : HostEnt) : Prop where
  addresses : host'.addrList = host.addrList ++ answers.filterMap fun answer => answer.content.address
  aliases : host'.aliases = host.aliases
  slots : host'.slots = host.slots
  kept : host.name ≠ none → host'.name = host.name
  unnamed : host.name = none → (host'.name = none ↔ ∀ answer ∈ answers, answer.owner.labels = [])

theorem Collects.nil : Collects [] host host := by
  refine ⟨(List.append_nil _).symm, rfl, rfl, fun _ => rfl, fun none => iff_of_true none ?_⟩
  exact fun _ member => absurd member List.not_mem_nil

theorem Collects.cons (first : Collects [answer] host host') (later : Collects rest host' host'') :
    Collects (answer :: rest) host host'' := by
  have split : answer :: rest = [answer] ++ rest := rfl
  constructor
  · rw [later.addresses, first.addresses, split, List.filterMap_append, List.append_assoc]
  · exact later.aliases.trans first.aliases
  · exact later.slots.trans first.slots
  · intro named
    have same := first.kept named
    exact (later.kept (same ▸ named)).trans same
  · intro unnamed
    have firstUnnamed := first.unnamed unnamed
    rw [List.forall_mem_singleton] at firstUnnamed
    rw [List.forall_mem_cons, ← firstUnnamed]
    by_cases none : host'.name = none
    · rw [later.unnamed none]
      exact (and_iff_right none).symm
    · rw [later.kept none]
      exact iff_of_false none fun both => none both.1

theorem HostEnt.named_name (host : HostEnt) (text : Option Text) :
    (host.named text).name = if host.name = none then text else host.name := by
  rw [HostEnt.named]
  split <;> rfl

theorem Answer.Stands.recorded (stands : answer.Stands data i) :
    Recorded data i ↑(i + answer.owner.size) := by
  obtain ⟨within, accepted⟩ := stands.owner.1.accepted stands.owner.2
  have fields := stands.content.fields.fields
  have positive := answer.owner.size_pos
  refine ⟨?_, within, ⟨_, accepted, Nat.cast_add ..⟩, fields⟩
  simp only [Span] at fields ⊢
  omega

theorem RecordData.Stands.parsed {content : RecordData} {rr : Nat} (stands : content.Stands data rr)
    (known : content.address ≠ none ∨ content.target ≠ none) (host : HostEnt) :
    Parsed data rr host { host with addrList := host.addrList ++ content.address.toList } := by
  cases found : content.address with
  | some bytes =>
    obtain ⟨isAddress, copied⟩ := stands.isAddress found
    exact .address isAddress copied
  | none =>
    obtain address | named := known
    · exact absurd found address
    · obtain ⟨target, named⟩ := Option.ne_none_iff_exists'.mp named
      have fields := stands.fields
      rw [Option.toList_none, List.append_nil]
      exact .cname (stands.isCname named) (fields.length ▸ fields.span)

/-- A known record stands for one round, which leaves the owner's text where there is none. -/
theorem Answer.Stands.answered (stands : answer.Stands data i) (known : answer.Known) (host : HostEnt) :
    ∃ left host', Gives data i i none 0 left ∧ (host.name = none → host'.name = left.text) ∧
      Answered data i ↑(i + answer.owner.size) host host' ∧ Collects [answer] host host' := by
  obtain ⟨left, gives, total, named⟩ := stands.owner.1.gives_near stands.owner.2 i none 0
  have recorded := stands.recorded
  have positive := answer.owner.size_pos
  have place : ((i + answer.owner.size : Nat) : Int) = i + left.size := by omega
  have parsed := stands.content.parsed known (host.named left.text)
  refine ⟨left, _, gives, ?_, ⟨recorded.dumped, recorded.fields, left, gives, by omega, place, parsed⟩, ?_⟩
  · intro unnamed
    exact (host.named_name left.text).trans (if_pos unnamed)
  · constructor
    · cases found : answer.content.address <;> simp [found]
    · exact named_aliases left.text
    · exact named_slots left.text
    · exact fun kept => (host.named_name left.text).trans (if_neg kept)
    · intro unnamed
      have name : (host.named left.text).name = left.text := (host.named_name left.text).trans (if_pos unnamed)
      rw [List.forall_mem_singleton, name, named]
      exact and_iff_right rfl

theorem behindRecord_eq (stands : answer.Stands data i) :
    behindRecord data ↑(i + answer.owner.size) = ↑(i + answer.size) := by
  have length := stands.content.fields.length
  rw [behindRecord, length, Answer.size]
  push_cast
  omega

theorem Answered.round (answered : Answered data i ↑(i + answer.owner.size) host host')
    (stands : answer.Stands data i) (left : Nat) :
    AnswerRound data ⟨left + 1, i, host⟩ ⟨left, ↑(i + answer.size), host'⟩ := by
  have place : (i : Int) + ((i + answer.size : Nat) - i) = ↑(i + answer.size) := by omega
  have round : AnswerRound data ⟨left + 1, i, host⟩ _ :=
    .next (parseAnswer_ends_iff.mpr ⟨_, answered, place.trans (behindRecord_eq stands).symm⟩)
  rwa [place] at round

/-- The rounds over answers of known records. -/
theorem answers_run (stands : AnswersStand data answers i) (known : ∀ answer ∈ answers, answer.Known)
    (left : Nat) (host : HostEnt) : ∃ host', Collects answers host host' ∧
      Relation.ReflTransGen (AnswerRound data) ⟨left + answers.length, i, host⟩
        ⟨left, ↑(i + (answers.map Answer.size).sum), host'⟩ := by
  induction answers generalizing i host with
  | nil => exact ⟨host, .nil, .refl⟩
  | cons answer rest ih =>
    obtain ⟨here, later⟩ := stands
    obtain ⟨knownHere, knownLater⟩ := List.forall_mem_cons.mp known
    obtain ⟨_, host', -, -, answered, collects⟩ := here.answered knownHere host
    obtain ⟨host'', collected, run⟩ := ih later knownLater host'
    refine ⟨host'', collects.cons collected, ?_⟩
    rw [List.map_cons, List.sum_cons, ← Nat.add_assoc]
    exact run.head (answered.round here (left + rest.length))

theorem questions_end {questions : List Question} (stands : QuestionsStand data questions i)
    (near : ∀ question ∈ questions, question.name.Near) :
    QuestionsEnd data questions.length i ↑(questionsEnd questions i) := by
  induction questions generalizing i with
  | nil => exact .none
  | cons question rest ih =>
    obtain ⟨here, later⟩ := stands
    obtain ⟨nearHere, nearLater⟩ := List.forall_mem_cons.mp near
    obtain ⟨within, accepted⟩ := here.name.accepted nearHere
    have ends := ih later nearLater
    have place : ((i + question.size : Nat) : Int) = i + question.name.size + 4 := by
      rw [Question.size]
      omega
    rw [place, ← questionsEnd_cons] at ends
    exact .question within accepted ends

namespace Response

theorem Stands.begins (stands : response.Stands data) :
    Begins data ↑(questionsEnd response.questions headerLength) ∧ word data 6 = response.answers.length := by
  obtain ⟨flags, flagsHere, high⟩ := stands.flags
  obtain ⟨code, codeHere, success⟩ := stands.code
  obtain ⟨flagsSpan, flagsByte⟩ := flagsHere.octet
  obtain ⟨codeSpan, codeByte⟩ := codeHere.octet
  obtain ⟨questionSpan, questionCount⟩ := At.word stands.questionCount
  obtain ⟨answerSpan, answerCount⟩ := At.word stands.answerCount
  simp only [Nat.cast_ofNat] at flagsByte codeByte questionCount answerCount
  have ends := questions_end stands.questions.1 stands.questions.2
  rw [← questionCount] at ends
  refine ⟨⟨⟨flagsSpan, ?_⟩, ⟨codeSpan, ?_⟩, ⟨questionSpan, ends⟩, answerSpan, ?_⟩, answerCount⟩
  · rw [IsResponse, flagsByte]
    exact high
  · rw [IsError, codeByte]
    exact fun error => error success
  · rw [answerCount]
    exact Nat.succ_ne_zero _

/-- Where every record is known, the parser returns what the rounds collect. -/
theorem Stands.parse (stands : response.Stands data)
    (known : ∀ answer ∈ response.answers, answer.Known) : ∃ left host,
    Gives data ↑(questionsEnd response.questions headerLength)
      ↑(questionsEnd response.questions headerLength) none 0 left ∧
    Ends (parseA data) (.value (some host)) ∧
    Collects response.answers ⟨none, [], [], tableSlots response.answers.length⟩ host ∧
    (response.first.owner.labels ≠ [] → host.name = left.text) := by
  obtain ⟨begins, count⟩ := stands.begins
  obtain ⟨here, later⟩ := stands.answers
  obtain ⟨knownHere, knownLater⟩ := List.forall_mem_cons.mp known
  obtain ⟨left, host', gives, named, answered, collects⟩ :=
    here.answered knownHere ⟨none, [], [], tableSlots response.answers.length⟩
  obtain ⟨host, collected, run⟩ := answers_run later knownLater 0 host'
  have round := answered.round here (0 + response.rest.length)
  have begun := answersStart_ends_iff.mpr ⟨begins, rfl⟩
  have total : 0 + response.rest.length + 1 = word data 6 := by
    rw [count, Nat.zero_add]
    rfl
  rw [total, ← count] at round
  refine ⟨left, host, gives, parseA_ends_iff.mpr ⟨_, _, _, begun, run.head round⟩, collects.cons collected, ?_⟩
  intro labels
  have unread : host'.name ≠ none := fun none =>
    labels ((collects.unnamed rfl).mp none response.first List.mem_cons_self)
  exact (collected.kept unread).trans (named rfl)

end Response

theorem namesRdata_iff {rr : Int} : NamesRdata data rr ↔
    ∃ head, Reached data head ∧ Recorded data head.start rr ∧ RdataIsName data rr := by
  refine exists_congr fun head => and_congr_right fun _ => ?_
  refine (inRecord_ends_iff _ fun _ _ => stable_const _).trans ?_
  constructor
  · rintro ⟨_, recorded, ended⟩
    have ended := ends_const_iff.mp ended
    split at ended
    · rename_i other
      split at ended
      · rename_i other'
        cases ended
        exact ⟨recorded, other, other'⟩
      · cases ended
    · cases ended
  · rintro ⟨recorded, other, other'⟩
    exact ⟨rr, recorded, by simp only [if_pos other, if_pos other', pure_eq, ends_const_iff]⟩

/-- Where no other RDATA is read as a name, every answer is known. -/
theorem all_known (head : AnswerHead) (run : ∀ head', Relation.ReflTransGen (AnswerRound data) head head' →
    0 < head'.left → Reached data head') (left : head.left = answers.length) (start : head.start = i)
    (stands : AnswersStand data answers i) (spared : ∀ rr, NamesRdata data rr → IsCname data rr) :
    ∀ answer ∈ answers, answer.Known := by
  induction answers generalizing i head with
  | nil => exact fun _ member => absurd member List.not_mem_nil
  | cons answer rest ih =>
    obtain ⟨count, start', host⟩ := head
    obtain rfl : count = rest.length + 1 := left
    obtain rfl : start' = i := start
    obtain ⟨here, later⟩ := stands
    have known : answer.Known := by
      by_contra unknown
      obtain ⟨unaddressed, untargeted⟩ := not_or.mp unknown
      have isName := here.content.isName (not_ne_iff.mp unaddressed) (not_ne_iff.mp untargeted)
      have named := namesRdata_iff.mpr ⟨_, run _ .refl (Nat.succ_pos _), here.recorded, isName⟩
      exact (spared _ named).not_name isName
    obtain ⟨_, host', -, -, answered, -⟩ := here.answered known host
    have round := answered.round here rest.length
    exact List.forall_mem_cons.mpr ⟨known, ih _ (fun _ later => run _ (later.head round)) rfl rfl later⟩

theorem Accepted.unique {i size size' : Int} (accepted : Accepted data i size)
    (accepted' : Accepted data i size') : size = size' :=
  Option.some.inj (accepted.1.unique accepted'.1)

/-- The rounds come to the records of the answers, one after the other. -/
theorem reads_answers {records : List Int} {j rr : Int} (stands : AnswersStand data answers i)
    (reads : Reads data i records j) (more : records.length < answers.length) (recorded : Recorded data j rr) :
    ∃ answer ∈ answers, ∃ i : Nat, answer.content.Stands data i ∧ rr = i := by
  induction answers generalizing i records with
  | nil => exact absurd more (Nat.not_lt_zero _)
  | cons answer rest ih =>
    obtain ⟨here, later⟩ := stands
    obtain ⟨size, accepted, place⟩ := here.recorded.accepted
    generalize start : (i : Int) = start at reads
    cases reads with
    | none =>
      subst start
      obtain ⟨size', accepted', rfl⟩ := recorded.accepted
      rw [accepted.unique accepted'] at place
      exact ⟨answer, List.mem_cons_self, _, here.content, place.symm⟩
    | answer recorded' _ reads =>
      subst start
      obtain ⟨size', accepted', rfl⟩ := recorded'.accepted
      rw [accepted.unique accepted'] at place
      rw [← place, behindRecord_eq here] at reads
      obtain ⟨found, member, there⟩ := ih later reads (Nat.lt_of_succ_lt_succ more)
      exact ⟨found, List.mem_cons_of_mem answer member, there⟩

theorem length_addresses
    (addressed : ∀ answer ∈ response.answers, ∃ address, answer.content.address = some address) :
    response.addresses.length = response.answers.length := by
  rw [Response.addresses, List.filterMap_length_eq_length]
  intro answer member
  obtain ⟨address, found⟩ := addressed answer member
  rw [found, Option.isSome_some]

theorem RecordData.untargeted {content : RecordData} {address : List Byte}
    (found : content.address = some address) : content.target = none := by
  cases content with
  | cname target => cases found
  | plain type cls bytes => rfl

theorem targets_eq_nil_iff : response.targets = [] ↔ ∀ answer ∈ response.answers, answer.content.target = none :=
  List.filterMap_eq_nil_iff

/-- The name of the host is that of the first answer. -/
theorem name_iff {left : Name} {j : Nat} {slots : Nat} (stands : response.first.Stands data j)
    (gives : Gives data j j none 0 left) (collects : Collects response.answers ⟨none, [], [], slots⟩ host)
    (named : response.first.owner.labels ≠ [] → host.name = left.text) :
    host.name = joined response.first.owner.labels ↔
      response.first.owner.labels ≠ [] ∧ response.first.owner.Faithful data .text ∨
        ∀ answer ∈ response.answers, answer.owner.labels = [] := by
  by_cases labels : response.first.owner.labels = []
  · have unnamed := collects.unnamed rfl
    rw [labels, joined, unnamed]
    exact (or_iff_right fun both => both.1 rfl).symm
  · have some : ¬∀ answer ∈ response.answers, answer.owner.labels = [] :=
      fun all => labels (all _ List.mem_cons_self)
    rw [named labels, or_iff_left some, and_iff_right labels]
    constructor
    · exact stands.owner.1.telling.text labels left gives
    · intro faithful
      obtain ⟨left', gives', same⟩ := stands.owner.1.found.text faithful
      rw [← same, Outcome.value.inj (gives.unique gives')]

/-- Known answers without a target are addresses. -/
theorem only_addresses_iff (known : ∀ answer ∈ response.answers, answer.Known) :
    response.targets = [] ∧ (∀ address ∈ response.addresses, address.length = 4) ↔
      ∀ answer ∈ response.answers, ∃ address, answer.content.address = some address ∧ address.length = 4 := by
  rw [targets_eq_nil_iff]
  constructor
  · rintro ⟨untargeted, four⟩ answer member
    obtain found | target := known answer member
    · obtain ⟨address, found⟩ := Option.ne_none_iff_exists'.mp found
      exact ⟨address, found, four address (List.mem_filterMap.mpr ⟨answer, member, found⟩)⟩
    · exact absurd (untargeted answer member) target
  · intro only
    constructor
    · intro answer member
      obtain ⟨address, found, -⟩ := only answer member
      exact RecordData.untargeted found
    · intro address listed
      obtain ⟨answer, member, found⟩ := List.mem_filterMap.mp listed
      obtain ⟨address', found', four⟩ := only answer member
      cases found.symm.trans found'
      exact four

theorem extracts_iff {left : Name} {j : Nat} (stands : response.first.Stands data j)
    (gives : Gives data j j none 0 left)
    (collects : Collects response.answers ⟨none, [], [], tableSlots response.answers.length⟩ host)
    (named : response.first.owner.labels ≠ [] → host.name = left.text)
    (known : ∀ answer ∈ response.answers, answer.Known) :
    Extracts response host ↔ Extractable data response := by
  have name := name_iff stands gives collects named
  have addresses : host.addrList = response.addresses := collects.addresses
  have aliases : host.aliases = [] := collects.aliases
  have slots : host.slots = tableSlots response.answers.length := collects.slots
  have whole : response.addresses = response.addresses.filter (·.length = 4) ↔
      ∀ address ∈ response.addresses, address.length = 4 := by
    rw [eq_comm, List.filter_eq_self]
    simp only [decide_eq_true_eq]
  have lengths (only : ∀ answer ∈ response.answers, ∃ address, answer.content.address = some address ∧
      address.length = 4) : response.addresses.length = response.answers.length :=
    length_addresses fun answer member => (only answer member).imp fun _ found => found.1
  constructor
  · intro extracts
    have untargeted := extracts.aliases
    rw [aliases, eq_comm, List.map_eq_nil_iff] at untargeted
    have four := extracts.addresses
    rw [addresses, whole] at four
    have only := (only_addresses_iff known).mp ⟨untargeted, four⟩
    have count := extracts.terminated.1
    rw [addresses, lengths only, slots] at count
    exact ⟨only, count, name.mp extracts.name⟩
  · intro extractable
    obtain ⟨untargeted, four⟩ := (only_addresses_iff known).mpr extractable.addresses
    constructor
    · rw [addresses]
      exact whole.mpr four
    · rw [aliases, untargeted, List.map_nil]
    · exact name.mpr extractable.name
    · rw [addresses, lengths extractable.addresses, slots, aliases]
      exact ⟨extractable.count, Nat.succ_pos _⟩

/-- A well-formed response is extracted exactly when it holds nothing but addresses of four bytes,
fits the tables, and its first owner is read as it is written. -/
theorem extracts_records_iff (data : List Byte) (response : Response) (stands : response.Stands data) :
    ExtractsRecords data response ↔ Extractable data response := by
  obtain ⟨begins, count⟩ := stands.begins
  have begun := answersStart_ends_iff.mpr ⟨begins, rfl⟩
  constructor
  · rintro ⟨result, ended, extracted, -, spared⟩
    have known : ∀ answer ∈ response.answers, answer.Known := by
      refine all_known (.first (word data 6) _) ?_ count rfl stands.answers spared
      exact fun head run more => ⟨_, _, begun, run, more⟩
    obtain ⟨left, host, gives, ended', collects, named⟩ := stands.parse known
    cases ended.unique ended'
    exact (extracts_iff stands.answers.1 gives collects named known).mp (extracted host rfl)
  · intro extractable
    have known : ∀ answer ∈ response.answers, answer.Known := by
      intro answer member
      obtain ⟨address, found, -⟩ := extractable.addresses answer member
      exact .inl (found ▸ Option.some_ne_none address)
    obtain ⟨left, host, gives, ended, collects, named⟩ := stands.parse known
    have extracts := (extracts_iff stands.answers.1 gives collects named known).mpr extractable
    refine ⟨some host, ended, ?_, ?_, ?_⟩
    · rintro _ ⟨⟩
      exact extracts
    · rintro ⟨⟩
    · intro rr named
      obtain ⟨head, reached, recorded, isName⟩ := namesRdata_iff.mp named
      obtain ⟨i, records, begins', reads, more, -⟩ := reached.reads
      cases begun.unique (answersStart_ends_iff.mpr ⟨begins', rfl⟩)
      rw [count] at more
      obtain ⟨answer, member, i, there, rfl⟩ := reads_answers stands.answers reads more recorded
      obtain ⟨address, found, -⟩ := extractable.addresses answer member
      exact absurd isName (there.isAddress found).1.not_name

/-- The question of both messages below, "a" of type A. -/
def askedA : Question := ⟨.label [97] .root, typeA, classIn⟩

/-- One address, for the name of the question. -/
def loopbackMessage : List Byte :=
  [0, 1, 0x80, 0, 0, 1, 0, 1, 0, 0, 0, 0] ++ [1, 97, 0, 0, 1, 0, 1] ++
    [0xC0, 12, 0, 1, 0, 1, 0, 0, 0, 0, 0, 4, 127, 0, 0, 1]

def loopbackAnswer : Response where
  questions := [askedA]
  first := ⟨.pointer 12 (.label [97] .root), .plain typeA classIn [127, 0, 0, 1]⟩
  rest := []

theorem loopbackAnswer_stands : loopbackAnswer.Stands loopbackMessage where
  flags := ⟨0x80, by decide, by decide⟩
  code := ⟨0, by decide, by decide⟩
  questionCount := by decide
  answerCount := by decide
  questions := by decide
  answers := by decide

theorem loopback_extracted : ExtractsRecords loopbackMessage loopbackAnswer := by
  refine (extracts_records_iff _ _ loopbackAnswer_stands).mpr
    ⟨?_, by decide, .inl ⟨by decide, by decide, trivial⟩⟩
  exact List.forall_mem_singleton.mpr ⟨_, rfl, rfl⟩

/-- An alias of "b" in front of its address. -/
def aliasMessage : List Byte :=
  [0, 1, 0x80, 0, 0, 1, 0, 2, 0, 0, 0, 0] ++ [1, 97, 0, 0, 1, 0, 1] ++
    [0xC0, 12, 0, 5, 0, 1, 0, 0, 0, 0, 0, 3, 1, 98, 0] ++
    [0xC0, 31, 0, 1, 0, 1, 0, 0, 0, 0, 0, 4, 127, 0, 0, 1]

def aliasAnswers : Response where
  questions := [askedA]
  first := ⟨.pointer 12 (.label [97] .root), .cname (.label [98] .root)⟩
  rest := [⟨.pointer 31 (.label [98] .root), .plain typeA classIn [127, 0, 0, 1]⟩]

theorem aliasAnswers_stands : aliasAnswers.Stands aliasMessage where
  flags := ⟨0x80, by decide, by decide⟩
  code := ⟨0, by decide, by decide⟩
  questionCount := by decide
  answerCount := by decide
  questions := by decide
  answers := by decide

/-- The alias of a CNAME is not found. -/
theorem alias_lost : aliasAnswers.Stands aliasMessage ∧ ¬ExtractsRecords aliasMessage aliasAnswers := by
  refine ⟨aliasAnswers_stands, ?_⟩
  rintro ⟨result, ended, extracted, -, -⟩
  have known : ∀ answer ∈ aliasAnswers.answers, answer.Known := by
    refine List.forall_mem_cons.mpr ⟨.inr (Option.some_ne_none _), List.forall_mem_singleton.mpr ?_⟩
    exact .inl (Option.some_ne_none _)
  obtain ⟨left, host, -, ended', collects, -⟩ := aliasAnswers_stands.parse known
  cases ended.unique ended'
  have aliases := (extracted host rfl).aliases.symm.trans collects.aliases
  cases aliases

end Devent.Dns
