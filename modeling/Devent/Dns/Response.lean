import Devent.Dns.Generation

/-! Which queries `c_dns_gen_inet_response` answers with a well-formed response. Every answer is
typed A, and answers are written over whatever follows the questions. -/
namespace Devent.Dns
open Outcome

/-- No pointer of the name leads into the header. -/
def CompressedName.Beyond : CompressedName → Prop
  | root => True
  | label _ rest => rest.Beyond
  | pointer offset target => headerLength ≤ offset ∧ target.Beyond

/-- What the callback for the question's type makes of its name. -/
def Question.resolve (callbacks : Callbacks) (question : Question) : Option (List Byte) :=
  if question.type = typeA then (callbacks.ipv4 (joined question.name.labels)).map Subtype.val
  else (callbacks.ipv6 (joined question.name.labels)).map Subtype.val

/-- So many records follow one another from `i` to the end of the message. -/
def RecordsFill (data : List Byte) : Nat → Nat → Prop
  | 0, i => i = data.length
  | n + 1, i => ∃ owner : CompressedName, owner.Stands data i ∧ owner.Beyond ∧
      RecordsFill data n (i + owner.size + 10 + rdataLength data ↑(i + owner.size))

/-- The answer at `a` to the question at `i`. -/
structure AnswerMatches (callbacks : Callbacks) (response : List Byte) (question : Question) (i a : Nat)
    (address : List Byte) : Prop where
  owner : question.name.first i < 2 ^ 14 ∧ At response a (htons (192 * 256 + question.name.first i))
  kind : At response (a + 2) (htons question.type ++ htons question.cls)
  rdata : question.resolve callbacks = some address ∧ At response (a + 10) (htons address.length ++ address)

/-- One answer for each answered question, in order, then what is asked of the offset behind. -/
def AnswersMatch (callbacks : Callbacks) (response : List Byte) (after : Nat → Prop) :
    List Question → Nat → List (Option Text) → Nat → Prop
  | [], _, asked, a => asked = [] ∧ after a
  | question :: rest, i, asked, a =>
    if question.Answered then ∃ address asked', asked = joined question.name.labels :: asked' ∧
      AnswerMatches callbacks response question i a address ∧
      AnswersMatch callbacks response after rest (i + question.size) asked' (a + 12 + address.length)
    else AnswersMatch callbacks response after rest (i + question.size) asked a

/-- The counts describe the bytes that follow, the answers are those of the questions and the
callbacks, and no byte is left as the allocation held it. -/
structure WellFormedResponse (callbacks : Callbacks) (data : List Byte) (questions : List Question)
    (asked : List (Option Text)) (response : List Byte) : Prop where
  posed : QuestionSection response questions
  count : At response 6 (htons (questions.countP fun question => question.Answered))
  answers : AnswersMatch callbacks response (RecordsFill response (word response 8 + word response 10))
    questions headerLength asked (questionsEnd questions headerLength)
  written : ∀ malloc, Ends (genInetResponse malloc callbacks data) (.value (asked, some response))

/-- The questions of the query get a well-formed response. -/
def AnsweredWell (callbacks : Callbacks) (data : List Byte) (asked : List (Option Text))
    (response : List Byte) : Prop :=
  ∃ questions, QuestionSection data questions ∧ (∀ question ∈ questions, question.name.Beyond) ∧
    WellFormedResponse callbacks data questions asked response

/-- Each answered question is of type A, and its name is read as it is written. -/
def QuestionsAnswerable (data : List Byte) : List Question → Nat → Prop
  | [], _ => True
  | question :: rest, i => (question.Answered → question.type = typeA ∧
      question.name.Faithful data .whole ∧ question.name.first i < 2 ^ 14) ∧
      QuestionsAnswerable data rest (i + question.size)

/-- The query is well formed, its questions can be answered, and nothing follows them where one is. -/
structure Answerable (data : List Byte) (questions : List Question) : Prop where
  posed : QuestionSection data questions
  beyond : ∀ question ∈ questions, question.name.Beyond
  answerable : QuestionsAnswerable data questions headerLength
  records : RecordsFill data (word data 8 + word data 10) (questionsEnd questions headerLength)
  alone : (∃ question ∈ questions, question.Answered) → questionsEnd questions headerLength = data.length

variable {data response segment : List Byte} {callbacks : Callbacks} {questions : List Question}
  {i : Nat}

/-- What stands in a message of the shape of both. -/
theorem parts_at {id code count answers records tail : List Byte} {flags : Byte}
    (widths : id.length = 2 ∧ code.length = 1 ∧ count.length = 2 ∧ records.length = 4)
    (width : answers.length = 2)
    (whole : data = id ++ ([flags] ++ (code ++ (count ++ (answers ++ (records ++ tail)))))) :
    At data 4 count ∧ At data 6 answers ∧ At data 8 records ∧ data.drop headerLength = tail := by
  obtain ⟨idWidth, codeWidth, countWidth, recordsWidth⟩ := widths
  have here := at_whole data
  rw [whole, at_append_iff, at_append_iff, at_append_iff, at_append_iff, at_append_iff, at_append_iff,
    ← whole] at here
  obtain ⟨-, -, -, countHere, answersHere, recordsHere, -⟩ := here
  simp only [idWidth, codeWidth, countWidth, width, List.length_singleton, Nat.zero_add, Nat.reduceAdd]
    at countHere answersHere recordsHere
  refine ⟨countHere, answersHere, recordsHere, ?_⟩
  have front : headerLength = (id ++ ([flags] ++ (code ++ (count ++ (answers ++ records))))).length := by
    simp only [List.length_append, List.length_singleton, idWidth, codeWidth, countWidth, width, recordsWidth]
    rfl
  have split : data = (id ++ ([flags] ++ (code ++ (count ++ (answers ++ records))))) ++ tail := by
    simp only [whole, List.append_assoc]
  rw [front, split, List.drop_left]

namespace Generation

variable (generation : Generation data callbacks questions) (malloc : Malloc)

theorem data_at : At data 4 generation.count ∧ At data 8 generation.records ∧
    data.drop headerLength = generation.asked ++ generation.more := by
  obtain ⟨answers, width, whole⟩ := generation.cut.whole
  obtain ⟨count, -, records, tail⟩ := parts_at generation.cut.widths width whole
  exact ⟨count, records, tail⟩

theorem response_at : At (generation.response malloc) 4 generation.count ∧
    At (generation.response malloc) 6 (htons generation.domains.length) ∧
    At (generation.response malloc) 8 generation.records ∧ (generation.response malloc).drop headerLength =
      generation.asked ++ (generation.bytes ++ generation.spare malloc) := by
  have whole : generation.response malloc = generation.id ++ ([octet data 2 ||| 0x80] ++ (generation.code ++
      (generation.count ++ (htons generation.domains.length ++ (generation.records ++
        (generation.asked ++ (generation.bytes ++ generation.spare malloc))))))) := by
    simp only [response, front, responseFront, List.append_assoc]
  exact parts_at generation.cut.widths rfl whole

theorem count_eq {n : Nat} (here : At data 4 (htons n)) : At (generation.response malloc) 4 (htons n) := by
  have width : (htons n).length = generation.count.length := generation.cut.widths.2.2.1.symm
  rw [here.unique generation.data_at.1 width]
  exact (generation.response_at malloc).1

theorem length_front : generation.front.length = questionsEnd questions headerLength := by
  obtain ⟨idWidth, codeWidth, countWidth, recordsWidth⟩ := generation.cut.widths
  have place := generation.place
  simp only [front, responseFront, List.length_append, idWidth, codeWidth, countWidth,
    recordsWidth, htons, List.length_cons, List.length_nil, headerLength] at place ⊢
  omega

theorem bytes_at : At (generation.response malloc) (questionsEnd questions headerLength) generation.bytes := by
  have here := at_whole (generation.response malloc)
  rw [response, at_append_iff, at_append_iff, ← response, Nat.zero_add, generation.length_front] at here
  exact here.2.1

end Generation

theorem At.octet_eq {k : Nat} (here : At data i segment) (inside : k < segment.length) :
    Dns.octet data ↑(i + k) = segment[k] := by
  rw [← List.take_append_drop k segment, List.drop_eq_getElem_cons inside] at here
  obtain ⟨-, here⟩ := at_append_iff.mp here
  rw [List.length_take_of_le (Nat.le_of_lt inside)] at here
  exact here.octet.2

/-- The counts of the other records are those of the query. -/
theorem Generation.records_eq (generation : Generation data callbacks questions) (malloc : Malloc) :
    word (generation.response malloc) 8 + word (generation.response malloc) 10 = word data 8 + word data 10 := by
  obtain ⟨-, there, -⟩ := generation.data_at
  obtain ⟨-, -, here, -⟩ := generation.response_at malloc
  have width := generation.cut.widths.2.2.2
  have same : ∀ k : Nat, k < 4 → octet (generation.response malloc) ↑(8 + k) = octet data ↑(8 + k) := by
    intro k inside
    rw [← width] at inside
    rw [here.octet_eq inside, there.octet_eq inside]
  have first := same 0 (by decide)
  have second := same 1 (by decide)
  have third := same 2 (by decide)
  have fourth := same 3 (by decide)
  simp only [Nat.reduceAdd, Nat.cast_ofNat] at first second third fourth
  simp only [word, Int.reduceAdd, first, second, third, fourth]

theorem or_marked : ∀ b < 256, ((0xC0 : Byte) ||| UInt8.ofNat b).toNat = 192 + b % 64 := by decide +kernel

/-- The pointer that is written leads to the low fourteen bits of the offset. -/
theorem marked_eq_iff {offset first : Nat} (small : offset < 2 ^ 16) (low : first < 2 ^ 14) :
    [0xC0 ||| UInt8.ofNat (offset / 256), UInt8.ofNat offset] = htons (192 * 256 + first) ↔
      offset % 2 ^ 14 = first := by
  have high := or_marked (offset / 256) (by omega)
  simp only [htons, List.cons.injEq, and_true, ← UInt8.toNat_inj, high, UInt8.toNat_ofNat']
  omega

theorem pointerTarget_lt (data : List Byte) (i : Int) : pointerTarget data i < 304 := by
  have bits : (octet data i &&& 3).toNat < 4 := by
    rw [UInt8.toNat_and]
    exact Nat.lt_of_le_of_lt Nat.and_le_right (by decide)
  have byte := (octet data (i + 1)).toNat_lt
  rw [pointerTarget, Nat.shiftLeft_eq]
  omega

theorem lands_cases {i j : Int} (lands : Lands data i j) : j = i ∨ 0 ≤ j ∧ j < 304 := by
  induction lands with
  | here => exact .inl rfl
  | @through i j _ _ _ ih =>
    have low := pointerTarget_lt data i
    omega

/-- A name that is not refused starts where it is written, or where a misread pointer leads. -/
theorem offset_cases {name : CompressedName} {left : Name} (stands : name.Stands data i)
    (gives : Gives data i i none 0 left) (size : left.size = name.size) :
    left.offset = name.first i ∨ 0 ≤ left.offset ∧ left.offset < 304 := by
  have lands := gives.offset_cases.2 rfl rfl
  cases name with
  | root =>
    obtain ⟨legible, root⟩ := root_stands stands
    exact .inl (congrArg Name.offset ((gives_root legible root).mp gives))
  | label bytes rest =>
    obtain ⟨⟨positive, short⟩, here, -⟩ := stands
    obtain ⟨-, -, plain, -⟩ := label_stands positive short here
    exact .inl (lands.unique (.here fun pointer => plain pointer.1))
  | pointer place target =>
    obtain ⟨legible, pointer, -⟩ := CompressedName.pointer_taken stands
    have near : pointerTarget data i ≤ data.length := by
      by_contra far
      have refused := congrArg Name.size ((gives_far legible pointer (Nat.not_le.mp far)).mp gives)
      have positive := (CompressedName.pointer place target).size_pos
      simp only at refused
      omega
    generalize left.offset = offset at lands
    cases lands with
    | here last => exact absurd ⟨pointer, near⟩ last
    | through _ _ rest =>
      have low := pointerTarget_lt data i
      obtain rfl | reached := lands_cases rest
      · exact .inr ⟨Int.natCast_nonneg _, by omega⟩
      · exact .inr reached

theorem offset_eq_iff {name : CompressedName} {left : Name} (stands : name.Stands data i)
    (gives : Gives data i i none 0 left) (size : left.size = name.size) (low : name.first i < 2 ^ 14) :
    sizeT left.offset % 2 ^ 16 % 2 ^ 14 = name.first i ↔ left.offset = name.first i := by
  obtain same | ⟨positive, small⟩ := offset_cases stands gives size
  · refine iff_of_true ?_ same
    rw [same, sizeT_natCast (by omega)]
    omega
  · obtain ⟨offset, same⟩ := Int.eq_ofNat_of_zero_le positive
    rw [same] at small ⊢
    have wide : sizeT ((offset : Nat) : Int) = offset := sizeT_natCast (by omega)
    rw [wide]
    omega

/-- A name is read as it is written exactly when its text and its first label are found. -/
theorem faithful_iff {name : CompressedName} {left : Name} (stands : name.Stands data i)
    (gives : Gives data i i none 0 left) :
    name.Faithful data .whole ↔ left.text = joined name.labels ∧ left.offset = name.first i := by
  constructor
  · intro faithful
    cases Outcome.value.inj (gives.unique (stands.found.whole faithful))
    exact ⟨rfl, rfl⟩
  · rintro ⟨text, offset⟩
    exact stands.telling.whole left gives text offset

section Answer

variable {question : Question} {name : Name} {address more : List Byte} {offset dataLen a : Nat}

/-- The parts of an answer as it is written. -/
theorem answer_parts (here : At response a (answerHeader offset dataLen ++ (address ++ more))) :
    At response a [0xC0 ||| UInt8.ofNat (offset / 256), UInt8.ofNat offset] ∧
      At response (a + 2) (htons typeA ++ htons classIn) ∧
      At response (a + 10) (htons dataLen ++ address) ∧ At response (a + 12 + address.length) more := by
  have parts : At response a ([0xC0 ||| UInt8.ofNat (offset / 256), UInt8.ofNat offset] ++
      ((htons typeA ++ htons classIn) ++ ([0, 0, 0, 0] ++ ((htons dataLen ++ address) ++ more)))) := by
    simp only [answerHeader, List.append_assoc] at here ⊢
    exact here
  obtain ⟨marked, parts⟩ := at_append_iff.mp parts
  obtain ⟨kind, parts⟩ := at_append_iff.mp parts
  obtain ⟨-, parts⟩ := at_append_iff.mp parts
  obtain ⟨rdata, after⟩ := at_append_iff.mp parts
  have behind : a + 2 + (htons typeA ++ htons classIn).length + 4 + (htons dataLen ++ address).length =
      a + 12 + address.length := by
    simp only [htons, List.length_append, List.length_cons, List.length_nil]
    omega
  exact ⟨marked, kind, rdata, behind ▸ after⟩

theorem htons_inj {m n : Nat} (small : m < 2 ^ 16) (small' : n < 2 ^ 16) (same : htons m = htons n) :
    m = n := by
  obtain ⟨high, low⟩ := List.cons.inj same
  obtain ⟨low, -⟩ := List.cons.inj low
  have value := htons_value small
  rw [high, low, htons_value small'] at value
  exact value.symm

/-- The answer to an answered question matches it for a question of type A whose name is found. -/
theorem answer_matches_iff (stands : question.Stands data i) (answered : question.Answered)
    (gives : Gives data i i none 0 name) (size : name.size = question.name.size)
    (here : At response a (answerHeader (sizeT name.offset % 2 ^ 16)
      (DomainOffset.mk name.text (sizeT name.offset % 2 ^ 16) question.type).dataLen ++ (address ++ more)))
    (found : (DomainOffset.mk name.text (sizeT name.offset % 2 ^ 16) question.type).address callbacks =
      some address) (address' : List Byte) :
    (name.text = joined question.name.labels ∧ AnswerMatches callbacks response question i a address') ↔
      (question.type = typeA ∧ question.name.Faithful data .whole ∧ question.name.first i < 2 ^ 14) ∧
        address' = address := by
  have width := length_address found
  obtain ⟨marked, kind, rdata, -⟩ := answer_parts here
  have offsetSmall : sizeT name.offset % 2 ^ 16 < 2 ^ 16 := Nat.mod_lt _ (by decide)
  simp only [DomainOffset.address] at found
  constructor
  · rintro ⟨text, matched⟩
    obtain ⟨low, owner⟩ := matched.owner
    have target := (marked_eq_iff offsetSmall low).mp (marked.unique owner rfl)
    have start := (offset_eq_iff stands.name gives size low).mp target
    have typeSame := kind.unique matched.kind rfl
    have type := htons_inj (by decide) stands.type.1 (List.append_inj typeSame rfl).1
    have resolved := matched.rdata.1
    rw [Question.resolve, if_pos type.symm] at resolved
    rw [if_pos type.symm, text, resolved] at found
    exact ⟨⟨type.symm, (faithful_iff stands.name gives).mpr ⟨text, start⟩, low⟩, Option.some.inj found⟩
  · rintro ⟨⟨type, faithful, low⟩, rfl⟩
    obtain ⟨text, start⟩ := (faithful_iff stands.name gives).mp faithful
    have target := (offset_eq_iff stands.name gives size low).mpr start
    rw [(marked_eq_iff offsetSmall low).mpr target] at marked
    rw [text] at found
    rw [← type, ← answered.1] at kind
    rw [← width] at rdata
    exact ⟨text, ⟨low, marked⟩, kind, found, rdata⟩

end Answer

/-- The answers are those of the questions exactly when each answered question can be answered. -/
theorem answers_match_iff {domains : List DomainOffset} {bytes : List Byte} (after : Nat → Prop) {a : Nat}
    (stands : QuestionsStand data questions i) (collected : Collected data questions i domains)
    (written : answersBytes callbacks domains = some bytes) (here : At response a bytes) :
    AnswersMatch callbacks response after questions i (domains.map DomainOffset.domain) a ↔
      QuestionsAnswerable data questions i ∧ after (a + bytes.length) := by
  induction collected generalizing bytes a with
  | nil =>
    cases written
    simp only [AnswersMatch, QuestionsAnswerable, List.map_nil, true_and, List.length_nil, Nat.add_zero]
  | skip unanswered _ ih =>
    rw [AnswersMatch, if_neg unanswered, ih stands.2 written here, QuestionsAnswerable,
      and_iff_right fun answered => absurd answered unanswered]
  | @answer question rest domains i name answered gives size _ ih =>
    obtain ⟨address, more, found, later, rfl⟩ := answersBytes_cons written
    obtain ⟨-, -, -, behind⟩ := answer_parts here
    have header (offset dataLen : Nat) : (answerHeader offset dataLen).length = 12 := rfl
    have next := ih stands.2 later behind
    have width (x : Nat) : a + (12 + (address.length + x)) = a + 12 + address.length + x := by omega
    have one := answer_matches_iff stands.1 answered gives size here found
    rw [AnswersMatch, if_pos answered, QuestionsAnswerable, forall_prop_of_true answered, List.length_append,
      List.length_append, header, width, and_assoc, ← next]
    constructor
    · rintro ⟨address', asked', same, matched, rest⟩
      obtain ⟨text, same⟩ := List.cons.inj same
      obtain ⟨answerable, rfl⟩ := (one address').mp ⟨text, matched⟩
      rw [← same] at rest
      exact ⟨answerable, rest⟩
    · rintro ⟨answerable, rest⟩
      obtain ⟨text, matched⟩ := (one address).mpr ⟨answerable, rfl⟩
      exact ⟨address, _, congrArg (· :: _) text, matched, rest⟩

section Kept

variable (tail : data.drop headerLength <+: response.drop headerLength)
include tail

theorem At.kept (behind : headerLength ≤ i) (here : At data i segment) : At response i segment := by
  obtain ⟨rest, whole⟩ := here
  have later : data.drop i <+: response.drop i := by
    have both := tail.drop (i - headerLength)
    simp only [List.drop_drop, Nat.add_sub_cancel' behind] at both
    exact both
  obtain ⟨more, same⟩ := later
  rw [whole, List.append_assoc] at same
  exact ⟨rest ++ more, same.symm⟩

theorem CompressedName.Stands.kept {name : CompressedName} (behind : headerLength ≤ i) (beyond : name.Beyond)
    (stands : name.Stands data i) : name.Stands response i := by
  induction name generalizing i with
  | root => exact At.kept tail behind stands
  | label bytes rest ih =>
    obtain ⟨short, here, later⟩ := stands
    exact ⟨short, At.kept tail behind here, ih (by omega) beyond later⟩
  | pointer offset target ih =>
    obtain ⟨earlier, here, there⟩ := stands
    exact ⟨earlier, At.kept tail behind here, ih beyond.1 beyond.2 there⟩

theorem questionsStand_kept (behind : headerLength ≤ i) (beyond : ∀ question ∈ questions, question.name.Beyond)
    (stands : QuestionsStand data questions i) : QuestionsStand response questions i := by
  induction questions generalizing i with
  | nil => exact trivial
  | cons question rest ih =>
    obtain ⟨here, later⟩ := stands
    obtain ⟨first, others⟩ := List.forall_mem_cons.mp beyond
    have name := here.name.kept tail behind first
    have type := At.kept tail (by omega) here.type.2
    have cls := At.kept tail (by omega) here.cls.2
    exact ⟨⟨name, ⟨here.type.1, type⟩, here.cls.1, cls⟩, ih (by omega) others later⟩

end Kept

/-- Records take room, so none stands at the end of a message. -/
theorem RecordsFill.le_length {n : Nat} (fill : RecordsFill data n i) : i + n ≤ data.length := by
  induction n generalizing i with
  | zero => exact Nat.le_of_eq fill
  | succ n ih =>
    obtain ⟨owner, -, -, rest⟩ := fill
    have room := ih rest
    omega

theorem recordsFill_end_iff {n : Nat} (end' : i = data.length) : RecordsFill data n i ↔ n = 0 := by
  constructor
  · intro fill
    have room := fill.le_length
    omega
  · rintro rfl
    exact end'

/-- Messages that differ in the header only hold the same records. -/
theorem RecordsFill.kept {n : Nat} (same : data.drop headerLength = response.drop headerLength)
    (length : data.length = response.length) (behind : headerLength ≤ i) (fill : RecordsFill data n i) :
    RecordsFill response n i := by
  induction n generalizing i with
  | zero => exact Eq.trans fill length
  | succ n ih =>
    obtain ⟨owner, stands, beyond, rest⟩ := fill
    have bytes (j : Nat) (behind : headerLength ≤ j) : octet data j = octet response j := by
      have there := congrArg (fun tail => tail[j - headerLength]?) same
      simp only [List.getElem?_drop, Nat.add_sub_cancel' behind] at there
      have positive : 0 ≤ (j : Int) := Int.natCast_nonneg j
      simp only [octet, byteAt, if_pos positive, Int.toNat_natCast, there]
    have rdata : rdataLength data ↑(i + owner.size) = rdataLength response ↑(i + owner.size) := by
      have high := bytes (i + owner.size + 8) (by omega)
      have low := bytes (i + owner.size + 8 + 1) (by omega)
      simp only [rdataLength, word]
      push_cast at high low ⊢
      rw [high, low]
    rw [rdata] at rest
    exact ⟨owner, stands.kept (same ▸ List.prefix_rfl) behind beyond, beyond, ih (by omega) rest⟩

theorem Collected.length_eq {domains : List DomainOffset} (collected : Collected data questions i domains) :
    domains.length = questions.countP fun question => question.Answered := by
  induction collected with
  | nil => rfl
  | skip unanswered _ ih =>
    rw [List.countP_cons_of_neg (by simpa using unanswered), ih]
  | answer answered _ _ _ ih =>
    rw [List.countP_cons_of_pos (by simpa using answered), List.length_cons, ih]

/-- An allocation that holds one byte throughout. -/
def filled (b : Byte) : Malloc := fun n => ⟨List.replicate n b, List.length_replicate⟩

namespace Generation

variable (generation : Generation data callbacks questions)

theorem count_answered :
    generation.domains.length = questions.countP fun question => question.Answered :=
  generation.collected.length_eq

theorem bytes_nil_iff : generation.bytes = [] ↔ ¬∃ question ∈ questions, question.Answered := by
  have length := length_answersBytes generation.written
  have counted : (∃ question ∈ questions, question.Answered) ↔ 0 < generation.domains.length := by
    rw [generation.count_answered, List.countP_pos_iff]
    simp only [decide_eq_true_eq]
  rw [counted, List.length_pos_iff, not_not, ← List.length_eq_zero_iff, length]
  cases generation.domains with
  | nil => exact iff_of_true rfl rfl
  | cons d rest =>
    rw [List.map_cons, List.sum_cons]
    exact iff_of_false (by omega) (List.cons_ne_nil d rest)

theorem length_data : data.length = questionsEnd questions headerLength + generation.more.length := by
  obtain ⟨answers, width, whole⟩ := generation.cut.whole
  obtain ⟨idWidth, codeWidth, countWidth, recordsWidth⟩ := generation.cut.widths
  have place := generation.place
  have total := congrArg List.length whole
  simp only [List.length_append, List.length_singleton, idWidth, codeWidth, countWidth, width,
    recordsWidth] at total
  have header : headerLength = 12 := rfl
  omega

/-- Nothing is left of the allocation where no answer is put in front of other bytes. -/
theorem spare_settled (settled : generation.bytes = [] ∨ generation.more = []) (malloc : Malloc) :
    generation.spare malloc = generation.more := by
  have room : ((malloc (data.length + generation.bytes.length)).val.drop data.length).length =
      generation.bytes.length := by
    rw [List.length_drop, (malloc _).property, Nat.add_sub_cancel_left]
  obtain none' | none' := settled
  · have empty := List.length_eq_zero_iff.mp (room.trans (congrArg List.length none'))
    rw [spare, empty, none', List.append_nil, List.length_nil, List.drop_zero]
  · rw [spare, none', List.nil_append]
    exact List.drop_eq_nil_of_le (Nat.le_of_eq room)

/-- The response is written throughout unless an answer is put in front of other bytes. -/
theorem written_iff : (∀ malloc malloc', generation.response malloc = generation.response malloc') ↔
    generation.bytes = [] ∨ generation.more = [] := by
  constructor
  · intro same
    by_contra open'
    obtain ⟨answered, follows⟩ := not_or.mp open'
    have last (b : Byte) : (generation.response (filled b)).getLast? = some b := by
      have width := List.length_pos_iff.mpr answered
      have rest := List.length_pos_iff.mpr follows
      have beyond : ¬generation.more.length + generation.bytes.length ≤ generation.bytes.length := by omega
      have tail : (generation.spare (filled b)).getLast? = some b := by
        simp only [spare, filled, List.drop_replicate, Nat.add_sub_cancel_left, List.getLast?_drop,
          List.length_append, List.length_replicate, if_neg beyond, List.getLast?_append,
          List.getLast?_replicate, if_neg (Nat.ne_of_gt width), Option.some_or]
      simp only [response, List.getLast?_append, tail, Option.some_or]
    have clash := last 0
    rw [same (filled 0) (filled 1), last 1] at clash
    exact absurd clash (by decide)
  · intro settled malloc malloc'
    rw [response, response, generation.spare_settled settled, generation.spare_settled settled]

theorem drop_settled (settled : generation.bytes = [] ∨ generation.more = []) (malloc : Malloc) :
    (generation.response malloc).drop headerLength =
      generation.asked ++ (generation.bytes ++ generation.more) := by
  rw [(generation.response_at malloc).2.2.2, generation.spare_settled settled]

theorem length_settled (settled : generation.bytes = [] ∨ generation.more = []) (malloc : Malloc) :
    (generation.response malloc).length =
      questionsEnd questions headerLength + generation.bytes.length + generation.more.length := by
  rw [response, List.length_append, List.length_append, generation.length_front,
    generation.spare_settled settled, Nat.add_assoc]

/-- The query's questions and what follows them are still there. -/
theorem prefix_settled (settled : generation.bytes = [] ∨ generation.more = []) (malloc : Malloc) :
    data.drop headerLength <+: (generation.response malloc).drop headerLength := by
  rw [generation.drop_settled settled, generation.data_at.2.2]
  obtain none' | none' := settled
  · rw [none', List.nil_append]
  · rw [none', List.append_nil, List.append_nil]
    exact List.prefix_append _ _

theorem records_settled (settled : generation.bytes = [] ∨ generation.more = []) (malloc : Malloc) (n : Nat) :
    RecordsFill (generation.response malloc) n
        (questionsEnd questions headerLength + generation.bytes.length) ↔
      RecordsFill data n (questionsEnd questions headerLength) := by
  have length := generation.length_settled settled malloc
  have length' := generation.length_data
  have tail := generation.drop_settled settled malloc
  have tail' := generation.data_at.2.2
  obtain none' | none' := settled
  · have least : headerLength ≤ questionsEnd questions headerLength := Nat.le_add_right _ _
    rw [none', List.nil_append] at tail
    rw [none', List.length_nil, Nat.add_zero] at length ⊢
    have same := tail.trans tail'.symm
    have lengths := length.trans length'.symm
    exact ⟨RecordsFill.kept same lengths least, RecordsFill.kept same.symm lengths.symm least⟩
  · rw [none', List.length_nil, Nat.add_zero] at length length'
    rw [recordsFill_end_iff length.symm, recordsFill_end_iff length'.symm]

theorem settled_iff : (generation.bytes = [] ∨ generation.more = []) ↔
    ((∃ question ∈ questions, question.Answered) → questionsEnd questions headerLength = data.length) := by
  have length := generation.length_data
  have last : generation.more = [] ↔ questionsEnd questions headerLength = data.length := by
    rw [← List.length_eq_zero_iff]
    omega
  rw [generation.bytes_nil_iff, last, Decidable.imp_iff_not_or]

/-- Where the questions are read as they stand, what the response is decides whether it is well formed. -/
theorem well_formed_iff (posed : QuestionSection data questions)
    (beyond : ∀ question ∈ questions, question.name.Beyond) (malloc : Malloc)
    (ended : ∀ malloc, Ends (genInetResponse malloc callbacks data)
      (.value (generation.domains.map DomainOffset.domain, some (generation.response malloc)))) :
    WellFormedResponse callbacks data questions (generation.domains.map DomainOffset.domain)
      (generation.response malloc) ↔ Answerable data questions := by
  have answers (after : Nat → Prop) := answers_match_iff after posed.stands generation.collected
    generation.written (generation.bytes_at malloc)
  have records := generation.records_eq malloc
  constructor
  · intro formed
    have settled := generation.written_iff.mp fun one other => by
      obtain ⟨_, first⟩ := Prod.mk.inj (value.inj ((ended one).unique (formed.written one)))
      obtain ⟨_, second⟩ := Prod.mk.inj (value.inj ((ended other).unique (formed.written other)))
      exact Option.some.inj (first.trans second.symm)
    obtain ⟨answerable, fill⟩ := (answers _).mp formed.answers
    rw [records, generation.records_settled settled] at fill
    exact ⟨posed, beyond, answerable, fill, generation.settled_iff.mp settled⟩
  · intro answerable
    have settled := generation.settled_iff.mpr answerable.alone
    have tail := generation.prefix_settled settled malloc
    have count := generation.count_eq malloc posed.count.2
    have stands := questionsStand_kept tail (Nat.le_refl _) beyond posed.stands
    have answered := (generation.response_at malloc).2.1
    rw [generation.count_answered] at answered
    refine ⟨⟨⟨posed.count.1, count⟩, stands⟩, answered, (answers _).mpr ⟨answerable.answerable, ?_⟩, ?_⟩
    · rw [records, generation.records_settled settled]
      exact answerable.records
    · intro other
      rw [generation.written_iff.mpr settled malloc other]
      exact ended other

end Generation

/-- An accepted query gets a well-formed response exactly when it is itself well formed, its
answered questions are of type A with names that are found, and nothing follows them. -/
theorem response_well_formed_iff {malloc : Malloc} {callbacks : Callbacks} {data : List Byte}
    {asked : List (Option Text)} {response : List Byte}
    (accepted : Ends (genInetResponse malloc callbacks data) (.value (asked, some response))) :
    AnsweredWell callbacks data asked response ↔ ∃ questions, Answerable data questions := by
  have made {questions : List Question} (posed : QuestionSection data questions)
      (beyond : ∀ question ∈ questions, question.name.Beyond) :
      WellFormedResponse callbacks data questions asked response ↔ Answerable data questions := by
    obtain ⟨generation, ended⟩ := exists_generation posed accepted
    obtain ⟨rfl, same⟩ := Prod.mk.inj (value.inj (accepted.unique (ended malloc)))
    cases same
    exact generation.well_formed_iff posed beyond malloc ended
  constructor
  · rintro ⟨questions, posed, beyond, formed⟩
    exact ⟨questions, (made posed beyond).mp formed⟩
  · rintro ⟨questions, answerable⟩
    have formed := (made answerable.posed answerable.beyond).mpr answerable
    exact ⟨questions, answerable.posed, answerable.beyond, formed⟩

def letterA : DomainName where
  first := ⟨[97], by decide, by decide, by decide, nul_notMem_a⟩
  rest := []

/-- "a" is asked for its address. -/
def addressQuery : List Byte := [0, 1, 1, 0, 0, 1, 0, 0, 0, 0, 0, 0] ++ [1, 97, 0, 0, 1, 0, 1]

theorem addressQuery_answered : ∃ response, AnsweredWell testCallbacks addressQuery [some [97]] response := by
  have name : At addressQuery headerLength letterA.encode := by decide
  have collects : Ends (fun fuel => collectQuestions addressQuery fuel 1 0 19 [])
      (.value (some (7, 35, [⟨some [97], 12, typeA⟩]))) :=
    ⟨2, fun _ enough => collectQuestions_one 19 enough name (by decide) (by decide)⟩
  have query : ¬IsResponse addressQuery := by
    rw [IsResponse]
    decide
  have accepted : Ends (genInetResponse zeroed testCallbacks addressQuery) (.value ([some [97]], some _)) :=
    accepted_iff.mpr ⟨⟨by decide, query, by decide⟩, _, collects, rfl⟩
  have fits : RecordsFill addressQuery 0 19 := rfl
  refine ⟨_, (response_well_formed_iff accepted).mpr ⟨[⟨.label [97] .root, typeA, classIn⟩], ?_⟩⟩
  exact ⟨⟨by decide, by decide⟩, List.forall_mem_singleton.mpr trivial,
    ⟨fun _ => ⟨rfl, ⟨by decide, trivial⟩, by decide⟩, trivial⟩, fits, fun _ => rfl⟩

/-- The same query with an OPT record in its additional section. -/
def ednsQuery : List Byte :=
  [0, 1, 1, 0, 0, 1, 0, 0, 0, 0, 0, 1] ++ [1, 97, 0, 0, 1, 0, 1] ++ [0, 0, 41, 4, 208, 0, 0, 0, 0, 0, 0]

/-- The end of the response is what the allocation held. -/
theorem edns_unwritten : ∃ response, Ends (genInetResponse zeroed testCallbacks ednsQuery)
    (.value ([some [97]], some response)) ∧ ¬AnsweredWell testCallbacks ednsQuery [some [97]] response := by
  have name : At ednsQuery headerLength letterA.encode := by decide
  have collects : Ends (fun fuel => collectQuestions ednsQuery fuel 1 0 30 [])
      (.value (some (7, 46, [⟨some [97], 12, typeA⟩]))) :=
    ⟨2, fun _ enough => collectQuestions_one 30 enough name (by decide) (by decide)⟩
  have query : ¬IsResponse ednsQuery := by
    rw [IsResponse]
    decide
  have zeros : Ends (genInetResponse zeroed testCallbacks ednsQuery) (.value ([some [97]], some _)) :=
    accepted_iff.mpr ⟨⟨by decide, query, by decide⟩, _, collects, rfl⟩
  have ones : Ends (genInetResponse (filled 1) testCallbacks ednsQuery) (.value ([some [97]], some _)) :=
    accepted_iff.mpr ⟨⟨by decide, query, by decide⟩, _, collects, rfl⟩
  refine ⟨_, zeros, ?_⟩
  rintro ⟨questions, -, -, formed⟩
  have same := ones.unique (formed.written (filled 1))
  cases same

end Devent.Dns
