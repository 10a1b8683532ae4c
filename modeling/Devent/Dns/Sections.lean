import Devent.Dns.Answers

/-! The sections of a message as they are written, questions and records one behind the other,
and what the parser's readers meet in them. -/
namespace Devent.Dns
open Outcome

namespace CompressedName

/-- Every pointer is below offset 256. -/
def Near : CompressedName → Prop
  | root => True
  | label _ rest => rest.Near
  | pointer offset target => offset < 256 ∧ target.Near

instance decidableNear : (name : CompressedName) → Decidable name.Near
  | root => .isTrue trivial
  | label _ rest => decidableNear rest
  | pointer _ target => @instDecidableAnd _ _ _ (decidableNear target)

end CompressedName

structure Question where
  name : CompressedName
  type : Nat
  cls : Nat

namespace Question

def size (question : Question) : Nat := question.name.size + 4

structure Stands (data : List Byte) (question : Question) (i : Nat) : Prop where
  name : question.name.Stands data i
  type : question.type < 2 ^ 16 ∧ At data (i + question.name.size) (htons question.type)
  cls : question.cls < 2 ^ 16 ∧ At data (i + question.name.size + 2) (htons question.cls)

instance (data : List Byte) (question : Question) (i : Nat) : Decidable (question.Stands data i) :=
  decidable_of_iff (_ ∧ _ ∧ _) ⟨fun ⟨name, type, cls⟩ => ⟨name, type, cls⟩,
    fun stands => ⟨stands.name, stands.type, stands.cls⟩⟩

end Question

/-- The question section, from its offset. -/
def QuestionsStand (data : List Byte) : List Question → Nat → Prop
  | [], _ => True
  | question :: rest, i => question.Stands data i ∧ QuestionsStand data rest (i + question.size)

instance decidableQuestionsStand (data : List Byte) : (questions : List Question) → (i : Nat) →
    Decidable (QuestionsStand data questions i)
  | [], _ => .isTrue trivial
  | question :: rest, i => @instDecidableAnd _ _ _ (decidableQuestionsStand data rest (i + question.size))

/-- The offset behind the questions. -/
def questionsEnd (questions : List Question) (i : Nat) : Nat := i + (questions.map Question.size).sum

theorem questionsEnd_cons (question : Question) (rest : List Question) (i : Nat) :
    questionsEnd (question :: rest) i = questionsEnd rest (i + question.size) := by
  rw [questionsEnd, questionsEnd, List.map_cons, List.sum_cons, Nat.add_assoc]

/-- What a record holds: the canonical name of an alias in class IN, or bytes. -/
inductive RecordData where
  | cname (target : CompressedName)
  | plain (type cls : Nat) (bytes : List Byte)

namespace RecordData

def type : RecordData → Nat
  | cname _ => typeCname
  | plain type _ _ => type

def cls : RecordData → Nat
  | cname _ => classIn
  | plain _ cls _ => cls

/-- RDLENGTH. -/
def length : RecordData → Nat
  | cname target => target.size
  | plain _ _ bytes => bytes.length

/-- The RDATA of an address in class IN. -/
def address : RecordData → Option (List Byte)
  | cname _ => none
  | plain type cls bytes => if type = typeA ∧ cls = classIn then some bytes else none

def target : RecordData → Option CompressedName
  | cname target => some target
  | plain _ _ _ => none

def RdataStands (data : List Byte) : RecordData → Nat → Prop
  | cname target, i => target.Stands data i ∧ target.Near
  | plain type cls bytes, i => ¬(type = typeCname ∧ cls = classIn) ∧ At data i bytes

/-- The fixed fields and the RDATA; any four bytes are a TTL. -/
structure Stands (data : List Byte) (content : RecordData) (rr : Nat) : Prop where
  type : content.type < 2 ^ 16 ∧ At data rr (htons content.type)
  cls : content.cls < 2 ^ 16 ∧ At data (rr + 2) (htons content.cls)
  length : content.length < 2 ^ 16 ∧ At data (rr + 8) (htons content.length)
  rdata : content.RdataStands data (rr + 10)

instance (data : List Byte) : (content : RecordData) → (i : Nat) → Decidable (content.RdataStands data i)
  | cname _, _ => inferInstanceAs (Decidable (_ ∧ _))
  | plain _ _ _, _ => inferInstanceAs (Decidable (_ ∧ _))

instance (data : List Byte) (content : RecordData) (rr : Nat) : Decidable (content.Stands data rr) :=
  decidable_of_iff (_ ∧ _ ∧ _ ∧ _) ⟨fun ⟨type, cls, length, rdata⟩ => ⟨type, cls, length, rdata⟩,
    fun stands => ⟨stands.type, stands.cls, stands.length, stands.rdata⟩⟩

end RecordData

/-- A record of the answer section. -/
structure Answer where
  owner : CompressedName
  content : RecordData

namespace Answer

def size (answer : Answer) : Nat := answer.owner.size + 10 + answer.content.length

structure Stands (data : List Byte) (answer : Answer) (i : Nat) : Prop where
  owner : answer.owner.Stands data i ∧ answer.owner.Near
  content : answer.content.Stands data (i + answer.owner.size)

instance (data : List Byte) (answer : Answer) (i : Nat) : Decidable (answer.Stands data i) :=
  decidable_of_iff (_ ∧ _) ⟨fun ⟨owner, content⟩ => ⟨owner, content⟩,
    fun stands => ⟨stands.owner, stands.content⟩⟩

end Answer

def AnswersStand (data : List Byte) : List Answer → Nat → Prop
  | [], _ => True
  | answer :: rest, i => answer.Stands data i ∧ AnswersStand data rest (i + answer.size)

instance decidableAnswersStand (data : List Byte) : (answers : List Answer) → (i : Nat) →
    Decidable (AnswersStand data answers i)
  | [], _ => .isTrue trivial
  | answer :: rest, i => @instDecidableAnd _ _ _ (decidableAnswersStand data rest (i + answer.size))

variable {data : List Byte} {i rr : Nat}

theorem CompressedName.size_pos (name : CompressedName) : 0 < name.size := by
  cases name <;> simp only [CompressedName.size] <;> omega

theorem CompressedName.Stands.inside {name : CompressedName} (stands : name.Stands data i) :
    i + name.size ≤ data.length := by
  induction name generalizing i with
  | root => exact At.le_length stands (by simp)
  | label bytes rest ih =>
    have later := ih stands.2.2
    simp only [CompressedName.size]
    omega
  | pointer offset target _ => exact stands.2.1.le_length (by simp [htons])

/-- What is read of it has its size, and a text unless there is no label at all. -/
theorem CompressedName.Stands.gives_near {name : CompressedName} (stands : name.Stands data i)
    (near : name.Near) (offset : Int) (text : Option Text) (size : Int) :
    ∃ left, Gives data offset i text size left ∧ left.size = size + name.size ∧
      (left.text = none ↔ text = none ∧ name.labels = []) := by
  induction name generalizing i offset text size with
  | root =>
    obtain ⟨legible, root⟩ := root_stands stands
    exact ⟨_, (gives_root legible root).mpr rfl, rfl, (and_iff_left rfl).symm⟩
  | label bytes rest ih =>
    obtain ⟨⟨positive, short⟩, here, later⟩ := stands
    obtain ⟨legible, nonzero, plain, step, copied⟩ := label_stands positive short here
    obtain ⟨left, gives, total, named⟩ := ih later near offset
      (some (gather text (bytes.takeWhile (· ≠ 0)))) (size + labelStep data i)
    have place : ((i + 1 + bytes.length : Nat) : Int) = i + labelStep data i := by
      rw [step]
      omega
    rw [place] at gives
    refine ⟨left, (gives_label legible nonzero plain copied).mpr gives, ?_, ?_⟩
    · rw [total, step, CompressedName.size]
      omega
    · simp [named, CompressedName.labels]
  | pointer place target ih =>
    obtain ⟨small, near⟩ := near
    obtain ⟨legible, pointer, -⟩ := CompressedName.pointer_taken stands
    obtain ⟨same, inside⟩ := CompressedName.pointer_small stands small
    obtain ⟨left, gives, -, named⟩ := ih stands.2.2 near place none 0
    rw [← same] at gives
    refine ⟨append offset text size left, (gives_near legible pointer inside).mpr ⟨left, gives, rfl⟩, ?_, ?_⟩
    · cases text <;> rfl
    · cases text with
      | none => simpa [append, CompressedName.labels] using named
      | some gathered => simp [append]

theorem CompressedName.Stands.accepted {name : CompressedName} (stands : name.Stands data i)
    (near : name.Near) : NameWithin data i ∧ Accepted data i name.size := by
  obtain ⟨left, gives, total, -⟩ := stands.gives_near near i none 0
  have positive := name.size_pos
  have accepted := gives.accepted (by omega)
  rwa [total, Int.zero_add] at accepted

theorem questionsEnd_le {questions : List Question} (stands : QuestionsStand data questions i)
    (inside : i ≤ data.length) : questionsEnd questions i ≤ data.length := by
  induction questions generalizing i with
  | nil => exact inside
  | cons question rest ih =>
    rw [questionsEnd_cons]
    refine ih stands.2 ?_
    have last := stands.1.cls.2.le_length (List.cons_ne_nil _ _)
    simp only [htons, List.length_cons, List.length_nil] at last
    rw [Question.size]
    omega

theorem At.word {n : Nat} (here : n < 2 ^ 16 ∧ At data i (htons n)) :
    Span data i 2 ∧ Dns.word data i = n := by
  obtain ⟨small, here⟩ := here
  have inside : i + 2 ≤ data.length := here.le_length (by simp [htons])
  have span : Span data i 2 := .inr ⟨Int.natCast_nonneg i, by omega⟩
  exact ⟨span, Outcome.value.inj ((readNtohs_inside span).symm.trans (here.readNtohs small))⟩

namespace RecordData

variable {content : RecordData}

/-- What the parser finds in the fixed fields. -/
structure Fields (data : List Byte) (content : RecordData) (rr : Int) : Prop where
  fields : Span data rr 10
  type : word data rr = content.type
  cls : word data (rr + 2) = content.cls
  length : rdataLength data rr = content.length
  span : Span data (rr + 10) content.length

theorem RdataStands.inside (stands : content.RdataStands data i) : content.length = 0 ∨
    i + content.length ≤ data.length := by
  cases content with
  | cname target => exact .inr stands.1.inside
  | plain type cls bytes =>
    cases bytes with
    | nil => exact .inl rfl
    | cons b bytes => exact .inr (stands.2.le_length (by simp))

theorem Stands.fields (stands : content.Stands data rr) : content.Fields data rr := by
  obtain ⟨-, type⟩ := At.word stands.type
  obtain ⟨-, cls⟩ := At.word stands.cls
  obtain ⟨last, length⟩ := At.word stands.length
  have inside := stands.rdata.inside
  constructor
  · simp only [Span] at last ⊢
    omega
  · exact type
  · exact cls
  · exact length
  · simp only [Span]
    omega

variable {content : RecordData}

theorem Stands.isAddress {bytes : List Byte} (stands : content.Stands data rr)
    (address : content.address = some bytes) :
    IsAddress data rr ∧ readBytes data (rr + 10) (rdataLength data rr) = .value bytes := by
  have fields := stands.fields
  cases content with
  | cname target => cases address
  | plain type cls bytes =>
    rw [RecordData.address] at address
    split at address
    · rename_i kind
      cases address
      have copied := stands.rdata.2.readBytes
      refine ⟨⟨fields.type.trans kind.1, fields.cls.trans kind.2⟩, ?_⟩
      rw [fields.length]
      exact copied
    · cases address

theorem Stands.isCname {target : CompressedName} (stands : content.Stands data rr)
    (named : content.target = some target) : IsCname data rr := by
  have fields := stands.fields
  cases content with
  | cname _ => exact ⟨fields.type, fields.cls⟩
  | plain type cls bytes => cases named

theorem Stands.isName (stands : content.Stands data rr) (unaddressed : content.address = none)
    (untargeted : content.target = none) : RdataIsName data rr := by
  have fields := stands.fields
  cases content with
  | cname _ => cases untargeted
  | plain type cls bytes =>
    rw [RecordData.address, ite_eq_right_iff] at unaddressed
    have notAddress : ¬(type = typeA ∧ cls = classIn) := fun kind => nomatch unaddressed kind
    rw [RdataIsName, fields.type, fields.cls]
    exact ⟨not_and_or.mp notAddress, not_and_or.mp stands.rdata.1⟩

end RecordData

end Devent.Dns
