import Devent.Dns.Sections

/-! What `c_dns_gen_inet_response` makes of a query whose questions stand in it: the domains it
collects, the bytes of its answers, and the message around them. -/
namespace Devent.Dns
open Outcome

/-- The question gets an answer. -/
def Question.Answered (question : Question) : Prop :=
  question.cls = classIn ∧ (question.type = typeA ∨ question.type = typeAaaa)

instance : DecidablePred Question.Answered := fun _ => inferInstanceAs (Decidable (_ ∧ _))

/-- The question section of a message, with its count. -/
structure QuestionSection (data : List Byte) (questions : List Question) : Prop where
  count : questions.length < 2 ^ 16 ∧ At data 4 (htons questions.length)
  stands : QuestionsStand data questions headerLength

/-- What the question loop keeps of the questions from `i` on. -/
inductive Collected (data : List Byte) : List Question → Nat → List DomainOffset → Prop
  | nil {i : Nat} : Collected data [] i []
  | skip {question rest domains} {i : Nat} : ¬question.Answered →
      Collected data rest (i + question.size) domains → Collected data (question :: rest) i domains
  | answer {question rest domains} {i : Nat} {name : Name} : question.Answered → Gives data i i none 0 name →
      name.size = question.name.size → Collected data rest (i + question.size) domains →
      Collected data (question :: rest) i
        (⟨name.text, sizeT name.offset % 2 ^ 16, question.type⟩ :: domains)

variable {data : List Byte} {i : Nat} {questions : List Question} {domains : List DomainOffset}
  {callbacks : Callbacks}

/-- A standing name has its size, unless a misread pointer refuses it. -/
theorem CompressedName.Stands.size_cases {name : CompressedName} (stands : name.Stands data i)
    {offset size : Int} {text : Option Text} {left : Name} (gives : Gives data offset i text size left) :
    left.size = size + name.size ∨ left.size = -1 := by
  induction name generalizing i text size with
  | root =>
    obtain ⟨legible, root⟩ := root_stands stands
    exact .inl (congrArg Name.size ((gives_root legible root).mp gives))
  | label bytes rest ih =>
    obtain ⟨⟨positive, short⟩, here, later⟩ := stands
    obtain ⟨legible, nonzero, plain, step, copied⟩ := label_stands positive short here
    have next := (gives_label legible nonzero plain copied).mp gives
    have place : (i : Int) + labelStep data i = ((i + 1 + bytes.length : Nat) : Int) := by
      rw [step]
      omega
    rw [place] at next
    obtain total | refused := ih later next
    · rw [total, step, CompressedName.size]
      omega
    · exact .inr refused
  | pointer place target _ =>
    obtain ⟨legible, pointer, -⟩ := CompressedName.pointer_taken stands
    obtain far | near := Nat.lt_or_ge data.length (pointerTarget data i)
    · exact .inr (congrArg Name.size ((gives_far legible pointer far).mp gives))
    · obtain ⟨left', -, rfl⟩ := (Dns.gives_near legible pointer near).mp gives
      cases text <;> exact .inl rfl

theorem collectQuestions_standing {qSize qEnd : Int} {respLen total : Nat} {before after : List DomainOffset}
    (stands : QuestionsStand data questions i) (place : headerLength + qSize = i)
    (ended : Ends (fun fuel => collectQuestions data fuel questions.length qSize respLen before)
      (.value (some (qEnd, total, after)))) :
    headerLength + qEnd = questionsEnd questions i ∧ ∃ domains, Collected data questions i domains ∧
      after = before ++ domains ∧ total = respLen + (domains.map fun d => 12 + d.dataLen).sum := by
  induction questions generalizing i qSize respLen before with
  | nil =>
    cases ends_const_iff.mp ended
    exact ⟨place, [], .nil, (List.append_nil _).symm, rfl⟩
  | cons question rest ih =>
    obtain ⟨here, later⟩ := stands
    have inside := here.name.inside
    have within : headerLength + qSize ≤ data.length := by omega
    simp only [List.length_cons, collectQuestions_within within] at ended
    obtain ⟨name, gives, accepted, ended⟩ := (afterName_ends_iff fun name =>
      collectMore_stable name (collectQuestions_stable data rest.length)).mp ended
    rw [place] at gives
    have size : name.size = question.name.size := by
      obtain total | refused := here.name.size_cases gives
      · exact total.trans (Int.zero_add _)
      · exact absurd refused accepted
    have fields : headerLength + qSize + name.size = ↑(i + question.name.size) := by omega
    have next : headerLength + (qSize + name.size + 4) = ↑(i + question.size) := by
      rw [Question.size]
      omega
    obtain ⟨typeSpan, type⟩ := At.word here.type
    obtain ⟨clsSpan, cls⟩ := At.word here.cls
    rw [Nat.cast_add _ 2, Nat.cast_ofNat] at clsSpan cls
    unfold collectMore at ended
    simp only [fields, readNtohs_inside typeSpan, readNtohs_inside clsSpan, value_bind, type, cls] at ended
    split at ended
    · rename_i other
      obtain ⟨ends, domains, collected, grown, counted⟩ := ih later next ended
      refine ⟨questionsEnd_cons question rest i ▸ ends, domains, .skip ?_ collected, grown, counted⟩
      rintro ⟨cls, type | type⟩
      all_goals simp [cls, type] at other
    · rename_i known
      obtain ⟨ends, domains, collected, grown, counted⟩ := ih later next ended
      have answered : question.Answered := by
        simp only [not_or, not_and_or, not_not] at known
        exact known
      refine ⟨questionsEnd_cons question rest i ▸ ends, _, .answer answered gives size collected, ?_, ?_⟩
      · rw [grown, List.append_assoc]
        rfl
      · rw [counted, List.map_cons, List.sum_cons, Nat.add_assoc]
        rfl

/-- A message cut at the fields that the response changes or keeps. -/
structure Cut (data id code count records body : List Byte) (flags : Byte) : Prop where
  whole : ∃ answers, answers.length = 2 ∧
    data = id ++ ([flags] ++ (code ++ (count ++ (answers ++ (records ++ body)))))
  widths : id.length = 2 ∧ code.length = 1 ∧ count.length = 2 ∧ records.length = 4

/-- The header and the questions of the response, in front of its answers. -/
def responseFront (id code count records : List Byte) (flags : Byte) (answers : Nat)
    (questions : List Byte) : List Byte :=
  id ++ ([flags ||| 0x80] ++ (code ++ (count ++ (htons answers ++ (records ++ questions)))))

theorem exists_cut (long : headerLength ≤ data.length) :
    ∃ id code count records, Cut data id code count records (data.drop headerLength) (octet data 2) := by
  have whole : data = data.take 12 ++ data.drop 12 := (List.take_append_drop 12 data).symm
  have width : (data.take 12).length = 12 := List.length_take_of_le long
  obtain ⟨id, rest, split, idWidth⟩ := exists_split 2 (data.take 12) (by omega)
  rw [split, List.length_append] at width
  obtain ⟨flags, rest, rfl, flagsWidth⟩ := exists_split 1 rest (by omega)
  rw [List.length_append] at width
  obtain ⟨code, rest, rfl, codeWidth⟩ := exists_split 1 rest (by omega)
  rw [List.length_append] at width
  obtain ⟨count, rest, rfl, countWidth⟩ := exists_split 2 rest (by omega)
  rw [List.length_append] at width
  obtain ⟨answers, records, rfl, answersWidth⟩ := exists_split 2 rest (by omega)
  rw [List.length_append] at width
  obtain ⟨byte, rfl⟩ := List.length_eq_one_iff.mp flagsWidth
  have parts : data = id ++ ([byte] ++ (code ++ (count ++ (answers ++ (records ++ data.drop 12))))) := by
    simp only [split, List.append_assoc] at whole
    exact whole
  have here : At data 0 (id ++ ([byte] ++ (code ++ (count ++ (answers ++ (records ++ data.drop 12)))))) := by
    rw [← parts]
    exact at_whole data
  obtain ⟨-, here⟩ := at_append_iff.mp here
  obtain ⟨-, flagsByte⟩ := here.octet
  rw [idWidth] at flagsByte
  have flags : octet data 2 = byte := flagsByte
  rw [flags]
  exact ⟨id, code, count, records, ⟨answers, answersWidth, parts⟩, idWidth, codeWidth, countWidth, by omega⟩

/-- The response to a query, for the questions in front of the rest of the body. -/
theorem respond_bytes (malloc : Malloc) {id code count records questions more bytes : List Byte} {flags : Byte}
    {qSize : Int} (cut : Cut data id code count records (questions ++ more) flags)
    (place : qSize = questions.length) (written : answersBytes callbacks domains = some bytes) :
    respond malloc callbacks data flags (some (qSize, data.length + bytes.length, domains)) =
      .value (domains.map DomainOffset.domain,
        some (responseFront id code count records flags domains.length questions ++
          (bytes ++ (more ++ (malloc (data.length + bytes.length)).val.drop data.length).drop bytes.length))) := by
  obtain ⟨answers, answersWidth, whole⟩ := cut.whole
  obtain ⟨idWidth, codeWidth, countWidth, recordsWidth⟩ := cut.widths
  have room := (malloc (data.length + bytes.length)).property
  simp only [respond]
  generalize (malloc (data.length + bytes.length)).val = block at room ⊢
  have spareWidth : (block.drop data.length).length = bytes.length := by
    rw [List.length_drop]
    omega
  generalize block.drop data.length = spare at spareWidth ⊢
  obtain ⟨old, left, split, oldWidth⟩ := exists_split bytes.length (more ++ spare)
    (by rw [List.length_append]; omega)
  have flagged := writeBytes_eq (i := 2) id [flags] [flags ||| 0x80]
    (code ++ (count ++ (answers ++ (records ++ (questions ++ (old ++ left)))))) (by rw [idWidth]; rfl) rfl
  have counted := writeBytes_eq (i := 6) (id ++ ([flags ||| 0x80] ++ (code ++ count))) answers
    (htons domains.length) (records ++ (questions ++ (old ++ left)))
    (by simp only [List.length_append, idWidth, codeWidth, countWidth]; rfl) answersWidth
  have start : (headerLength : Int) + qSize =
      (responseFront id code count records flags domains.length questions).length := by
    simp only [responseFront, List.length_append, idWidth, codeWidth, countWidth, recordsWidth, place]
    rw [htons, headerLength]
    simp only [List.length_cons, List.length_nil]
    omega
  have answered : writeAnswers callbacks domains (headerLength + qSize)
      (responseFront id code count records flags domains.length questions ++ (old ++ left)) =
      .value (domains.map DomainOffset.domain,
        some (responseFront id code count records flags domains.length questions ++ (bytes ++ left))) :=
    writeAnswers_bytes left start written oldWidth
  have query : data ++ spare =
      id ++ ([flags] ++ (code ++ (count ++ (answers ++ (records ++ (questions ++ (old ++ left))))))) := by
    rw [whole, ← split]
    simp only [List.append_assoc]
  have dropped : (more ++ spare).drop bytes.length = left := by
    rw [split, ← oldWidth, List.drop_left]
  simp only [List.append_assoc] at counted
  simp only [responseFront, List.append_assoc] at answered
  simp only [query, flagged, value_bind, counted, answered, dropped, responseFront, List.append_assoc]

theorem respond_refused (malloc : Malloc) {qSize : Int} {respLen : Nat} {flags : Byte}
    {asked : List (Option Text)} {response : List Byte} (refused : answersBytes callbacks domains = none) :
    respond malloc callbacks data flags (some (qSize, respLen, domains)) ≠ .value (asked, some response) := by
  intro responded
  obtain ⟨_, -, responded⟩ := bind_value_iff.mp responded
  obtain ⟨_, -, written⟩ := bind_value_iff.mp responded
  exact writeAnswers_refused refused written

/-- What a response is made of, whatever the allocation held. -/
structure Generation (data : List Byte) (callbacks : Callbacks) (questions : List Question) where
  domains : List DomainOffset
  bytes : List Byte
  id : List Byte
  code : List Byte
  count : List Byte
  records : List Byte
  asked : List Byte
  more : List Byte
  collected : Collected data questions headerLength domains
  written : answersBytes callbacks domains = some bytes
  cut : Cut data id code count records (asked ++ more) (octet data 2)
  place : headerLength + asked.length = questionsEnd questions headerLength

namespace Generation

def front (generation : Generation data callbacks questions) : List Byte :=
  responseFront generation.id generation.code generation.count generation.records (octet data 2)
    generation.domains.length generation.asked

/-- What is behind the answers: the rest of the query, then bytes that are never written. -/
def spare (generation : Generation data callbacks questions) (malloc : Malloc) : List Byte :=
  (generation.more ++ (malloc (data.length + generation.bytes.length)).val.drop data.length).drop
    generation.bytes.length

def response (generation : Generation data callbacks questions) (malloc : Malloc) : List Byte :=
  generation.front ++ (generation.bytes ++ generation.spare malloc)

end Generation

/-- What is accepted: a query with questions that are collected and answered. -/
theorem accepted_iff {malloc : Malloc} {asked : List (Option Text)} {response : List Byte} :
    Ends (genInetResponse malloc callbacks data) (.value (asked, some response)) ↔
      (headerLength ≤ data.length ∧ ¬IsResponse data ∧ word data 4 ≠ 0) ∧ ∃ collected,
        Ends (fun fuel => collectQuestions data fuel (word data 4) 0 data.length []) (.value collected) ∧
        respond malloc callbacks data (octet data 2) collected = .value (asked, some response) := by
  by_cases long : headerLength ≤ data.length
  · by_cases isResponse : IsResponse data
    · rw [funext (genInetResponse_response malloc callbacks long isResponse)]
      refine iff_of_false (fun ended => ?_) fun accepted => accepted.1.2.1 isResponse
      cases ends_const_iff.mp ended
    · rw [funext (genInetResponse_query malloc callbacks long isResponse)]
      by_cases empty : word data 4 = 0
      · simp only [if_pos empty]
        refine iff_of_false (fun ended => ?_) fun accepted => accepted.1.2.2 empty
        cases ends_const_iff.mp ended
      · simp only [if_neg empty]
        have stable := collectQuestions_stable data (word data 4) 0 data.length []
        rw [stable.ends_value_iff fun _ => stable_const _, and_iff_right ⟨long, isResponse, empty⟩]
        exact exists_congr fun collected => and_congr_right fun _ => ends_const_iff
  · rw [funext (genInetResponse_short malloc callbacks long)]
    refine iff_of_false (fun ended => ?_) fun accepted => long accepted.1.1
    cases ends_const_iff.mp ended

/-- An accepted query whose questions stand in it is answered so for every allocation. -/
theorem exists_generation {malloc : Malloc} {asked : List (Option Text)} {response : List Byte}
    (stands : QuestionSection data questions)
    (accepted : Ends (genInetResponse malloc callbacks data) (.value (asked, some response))) :
    ∃ generation : Generation data callbacks questions, ∀ malloc,
      Ends (genInetResponse malloc callbacks data)
        (.value (generation.domains.map DomainOffset.domain, some (generation.response malloc))) := by
  obtain ⟨query, collected, ended, responded⟩ := accepted_iff.mp accepted
  obtain _ | ⟨qSize, respLen, domains⟩ := collected
  · cases responded
  · cases written : answersBytes callbacks domains with
    | none => exact absurd responded (respond_refused malloc written)
    | some bytes =>
      have count : word data 4 = questions.length := (At.word stands.count).2
      have ended' := ended
      rw [count] at ended'
      obtain ⟨place, _, collected, same, total⟩ :=
        collectQuestions_standing stands.stands (Int.add_zero _) ended'
      rw [List.nil_append] at same
      subst same
      rw [← length_answersBytes written] at total
      subst total
      obtain ⟨id, code, counted, records, cut⟩ := exists_cut query.1
      have inside := questionsEnd_le stands.stands query.1
      have least : headerLength ≤ questionsEnd questions headerLength := Nat.le_add_right _ _
      have width : (data.drop headerLength).length = data.length - headerLength := List.length_drop
      obtain ⟨section', more, split, sectionWidth⟩ := exists_split qSize.toNat (data.drop headerLength)
        (by omega)
      have sized : qSize = section'.length := by omega
      have end' : headerLength + section'.length = questionsEnd questions headerLength := by omega
      rw [split] at cut
      refine ⟨⟨domains, bytes, id, code, counted, records, section', more, collected, written, cut, end'⟩, ?_⟩
      intro malloc
      exact accepted_iff.mpr ⟨query, _, ended, respond_bytes malloc cut sized written⟩

end Devent.Dns
