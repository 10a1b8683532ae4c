import Devent.Dns.CDns
import Mathlib.Logic.Relation

/-! The layout that the bytes of a response spell out: where its names, questions
and answers lie as the code follows them, when all of it lies inside the message,
and on what grounds the message is refused. Nothing here runs the parser. -/
namespace Devent.Dns

variable (data : List Byte)

/-- `n` bytes from index `i` lie inside the message. -/
def Span (i : Int) (n : Nat) : Prop := n = 0 ∨ 0 ≤ i ∧ i + n ≤ data.length

def octet (i : Int) : Byte := (byteAt data i).getD 0

/-- Two bytes in network order. -/
def word (i : Int) : Nat := (octet data i).toNat * 256 + (octet data (i + 1)).toNat

/-- At most `n` bytes up to a zero byte can be copied. -/
def Copies (i : Int) (n : Nat) : Prop :=
  Span data i n ∨ ∃ k < n, Span data i (k + 1) ∧ octet data (i + k) = 0

def IsPointer (i : Int) : Prop := octet data i >>> 6 = 3

/-- The code shifts the high bits of a pointer by four, not eight. -/
def pointerTarget (i : Int) : Nat := ((octet data i &&& 3).toNat <<< 4) + (octet data (i + 1)).toNat

/-- What a label adds to the cursor; its length is a signed `char`. -/
def labelStep (i : Int) : Int := signedChar (octet data i) + 1

/-- The cursor of a name can be read here: a pointer whole, a label up to its end. -/
structure Legible (i : Int) : Prop where
  inside : Span data i 1
  pointer : IsPointer data i → Span data (i + 1) 1
  label : octet data i ≠ 0 → ¬IsPointer data i → Copies data (i + 1) (sizeT (signedChar (octet data i)))

/-- How a name moves its cursor. -/
inductive Moves : Int → Int → Prop
  | label {i} : octet data i ≠ 0 → ¬IsPointer data i → Moves i (i + labelStep data i)
  | pointer {i} : IsPointer data i → pointerTarget data i ≤ data.length → Moves i (pointerTarget data i)

def NameWithin (i : Int) : Prop := ∀ c, Relation.ReflTransGen (Moves data) i c → Legible data c

/-- The size of a name that ends; `none` for a pointer beyond the message. A name behind
a pointer only has to end. -/
inductive NameSize : Int → Option Int → Prop
  | root {i} : octet data i = 0 → NameSize i (some 1)
  | far {i} : IsPointer data i → data.length < pointerTarget data i → NameSize i none
  | pointer {i size} : IsPointer data i → pointerTarget data i ≤ data.length →
      NameSize (pointerTarget data i) size → NameSize i (some 2)
  | label {i size} : octet data i ≠ 0 → ¬IsPointer data i → NameSize (i + labelStep data i) size →
      NameSize i (size.map (labelStep data i + ·))

/-- The name ends with this size. A size of -1 stands for a refusal. -/
def Accepted (i size : Int) : Prop := NameSize data i (some size) ∧ size ≠ -1

def Rejected (i : Int) : Prop := NameSize data i none ∨ NameSize data i (some (-1))

/-- The RDATA is read as a name unless it is an IN address or an IN CNAME. -/
def RdataIsName (rr : Int) : Prop :=
  (word data rr ≠ typeA ∨ word data (rr + 2) ≠ classIn) ∧
    (word data rr ≠ typeCname ∨ word data (rr + 2) ≠ classIn)

def rdataLength (rr : Int) : Nat := word data (rr + 8)

/-- The response flag, the response code. -/
def IsResponse : Prop := 0x80 ≤ octet data 2

def IsError : Prop := octet data 3 &&& 15 ≠ 0

section Sections

-- what is asked of each name, besides what is asked of the bytes around the names
variable (Names : Int → Prop)

/-- The questions are read, up to an index of which `after` is asked. -/
def QuestionsRead (after : Int → Prop) : Nat → Int → Prop
  | 0, i => after i
  | n + 1, i => Names i ∧ ∀ size, Accepted data i size → QuestionsRead after n (i + size + 4)

def RdataRead (rr : Int) (after : Prop) : Prop :=
  (RdataIsName data rr → Names (rr + 10)) ∧
    ((RdataIsName data rr → ∃ size, Accepted data (rr + 10) size) →
      Span data (rr + 10) (rdataLength data rr) ∧ after)

def AnswersRead : Nat → Int → Prop
  | 0, _ => True
  | n + 1, i => Span data i 2 ∧ Names i ∧
      ∀ size, Accepted data i size → Span data (i + size) 10 ∧
        RdataRead data Names (i + size) (AnswersRead n (i + size + 10 + rdataLength data (i + size)))

/-- Every byte and every name that `c_dns_parse_a` comes to can be read. -/
def MessageRead : Prop :=
  Span data 2 1 ∧ (IsResponse data → Span data 3 1 ∧
    (IsError data → Span data 6 2) ∧
    (¬IsError data → Span data 4 2 ∧ QuestionsRead data Names
      (fun i => Span data 6 2 ∧ AnswersRead data Names (word data 6) i) (word data 4) headerLength))

end Sections

/-- Everything the code looks at lies inside the message. -/
def Contained : Prop := MessageRead data (NameWithin data)

def QuestionsRefused (after : Int → Prop) : Nat → Int → Prop
  | 0, i => after i
  | n + 1, i => Rejected data i ∨
      ∃ size, Accepted data i size ∧ QuestionsRefused after n (i + size + 4)

def RdataRefused (rr : Int) (after : Prop) : Prop :=
  RdataIsName data rr ∧ Rejected data (rr + 10) ∨
    (RdataIsName data rr → ∃ size, Accepted data (rr + 10) size) ∧ after

def AnswersRefused : Nat → Int → Prop
  | 0, _ => False
  | n + 1, i => Rejected data i ∨ ∃ size, Accepted data i size ∧
      RdataRefused data (i + size) (AnswersRefused n (i + size + 10 + rdataLength data (i + size)))

/-- Not a response, an error response, no answers, or a name that is rejected. -/
def Refused : Prop :=
  ¬IsResponse data ∨ IsError data ∨ QuestionsRefused data
    (fun i => word data 6 = 0 ∨ AnswersRefused data (word data 6) i) (word data 4) headerLength

end Devent.Dns
