import Devent.Dns.Writing
import Mathlib.Tactic.Ring

/-! The four codecs composed: a packed query reads back as its domain, the
response generated for it is sixteen bytes longer, and parsing that response
finds the domain and the one address. -/
namespace Devent.Dns
open Outcome

structure Label where
  bytes : List Byte
  nonempty : bytes ≠ []
  short : bytes.length ≤ 63
  noDot : dot ∉ bytes
  noNul : 0 ∉ bytes

def Label.encode (label : Label) : List Byte := UInt8.ofNat label.bytes.length :: label.bytes

/-- A non-empty list of labels. -/
structure DomainName where
  first : Label
  rest : List Label

namespace DomainName

def labels (domain : DomainName) : List Label := domain.first :: domain.rest

/-- The labels after the first, each behind its dot. -/
def dotted (labels : List Label) : List Byte := labels.flatMap fun label => dot :: label.bytes

def text (domain : DomainName) : CString where
  bytes := domain.first.bytes ++ dotted domain.rest
  terminated := by
    intro member
    rcases List.mem_append.mp member with inFirst | inRest
    · exact domain.first.noNul inFirst
    · obtain ⟨label, _, inLabel⟩ := List.mem_flatMap.mp inRest
      rcases List.mem_cons.mp inLabel with isDot | inBytes
      · cases isDot
      · exact label.noNul inBytes

def encodeLabels (labels : List Label) : List Byte := labels.flatMap Label.encode

/-- The wire form of the name, with its root label. -/
def encode (domain : DomainName) : List Byte := encodeLabels domain.labels ++ [0]

theorem length_encodeLabels (labels : List Label) :
    (encodeLabels labels).length = (dotted labels).length := by
  simp only [encodeLabels, dotted, List.length_flatMap, Label.encode, List.length_cons]

theorem length_encode (domain : DomainName) : domain.encode.length = domain.text.strlen + 2 := by
  have lengths := length_encodeLabels domain.rest
  simp only [encode, labels, encodeLabels, List.flatMap_cons, Label.encode, List.length_append,
    List.length_cons, List.length_nil, CString.strlen, text] at lengths ⊢
  omega

end DomainName
open DomainName

/-- A label length survives the trip through plain `char`. -/
theorem label_length (label : Label) :
    (UInt8.ofNat label.bytes.length).toNat = label.bytes.length := by
  have short := label.short
  simp only [UInt8.toNat_ofNat']
  omega

theorem label_low (label : Label) : (UInt8.ofNat label.bytes.length).toNat < 64 := by
  have short := label.short
  rw [label_length]
  omega

theorem pointer_iff {b : Byte} : b >>> 6 = 3 ↔ 192 ≤ b.toNat := by
  have bound := b.toNat_lt
  rw [← UInt8.toNat_inj, UInt8.toNat_shiftRight]
  have shifted : b.toNat >>> ((6 : UInt8).toNat % 8) = b.toNat / 64 := Nat.shiftRight_eq_div_pow ..
  have three : (3 : UInt8).toNat = 3 := rfl
  rw [shifted, three]
  omega

theorem label_not_pointer (label : Label) : ¬ (UInt8.ofNat label.bytes.length) >>> 6 = 3 := by
  have low := label_low label
  rw [pointer_iff]
  omega

theorem label_nonzero (label : Label) : UInt8.ofNat label.bytes.length ≠ 0 := by
  have positive := List.length_pos_iff.mpr label.nonempty
  have value := label_length label
  intro zero
  rw [zero] at value
  simp only [UInt8.toNat_zero] at value
  omega

/-- What the loop gathers from the labels that follow. -/
def joinText (text : Option Text) (labels : List Label) : Option Text :=
  labels.foldl (fun text label => some (gather text label.bytes)) text

theorem joinText_some (gathered : Text) (labels : List Label) :
    joinText (some gathered) labels = some (gathered ++ dotted labels) := by
  induction labels generalizing gathered with
  | nil => simp only [joinText, List.foldl_nil, dotted, List.flatMap_nil, List.append_nil]
  | cons label rest ih =>
    have step : joinText (some gathered) (label :: rest) =
        joinText (some (gathered ++ dot :: label.bytes)) rest := rfl
    simp only [step, ih, dotted, List.flatMap_cons, List.append_assoc]

theorem joinText_domain (domain : DomainName) : joinText none domain.labels = some domain.text.bytes :=
  joinText_some _ _

/-- `get_name` over labels and the root, from any loop state. -/
theorem getName_labels {data : List Byte} {labels : List Label} {start fuel : Nat} (offset : Int)
    (size : Int) (text : Option Text) (here : At data start (encodeLabels labels ++ [0]))
    (enough : labels.length < fuel) :
    getName data fuel offset start text size =
      .value ⟨size + (encodeLabels labels).length + 1, joinText text labels, offset⟩ := by
  induction labels generalizing fuel start size text with
  | nil =>
    obtain ⟨fuel, rfl⟩ := Nat.exists_eq_add_of_lt enough
    simp only [encodeLabels, List.flatMap_nil, List.nil_append] at here
    simp only [getName, here.read, value_bind, if_true, pure_eq, encodeLabels, List.flatMap_nil,
      List.length_nil, joinText]
    simp
  | cons label rest ih =>
    obtain ⟨fuel, rfl⟩ := Nat.exists_eq_add_of_lt enough
    simp only [encodeLabels, List.flatMap_cons, List.append_assoc] at here
    obtain ⟨own, later⟩ := at_append_iff.mp here
    obtain ⟨lengthByte, bytes⟩ := at_cons_iff.mp own
    have width : signedChar (UInt8.ofNat label.bytes.length) = label.bytes.length := by
      have low := label_low label
      rw [signedChar_low (by omega), label_length]
    have wide : sizeT (label.bytes.length : Int) = label.bytes.length := by
      have short := label.short
      exact sizeT_natCast (by omega)
    have copied := bytes.strndup label.noNul
    have longer : rest.length < (label :: rest).length + fuel := by
      simp only [List.length_cons]
      omega
    have next := ih (size + (label.bytes.length + 1)) (some (gather text label.bytes)) later longer
    have place : ((start + label.encode.length : Nat) : Int) = start + (label.bytes.length + 1) := by
      simp only [Label.encode, List.length_cons, Nat.cast_add, Nat.cast_one]
    have total : (encodeLabels (label :: rest)).length =
        label.bytes.length + 1 + (encodeLabels rest).length := by
      simp only [encodeLabels, List.flatMap_cons, Label.encode, List.length_append, List.length_cons]
    simp only [Nat.cast_add, Nat.cast_one] at copied
    simp only [getName, lengthByte.read, value_bind, if_neg (label_nonzero label),
      if_neg (label_not_pointer label), width, wide, copied]
    rw [place] at next
    rw [total, next]
    congr 2
    push_cast
    ring

theorem writeBytes_one (before : List Byte) {old b : Byte} {rest : List Byte} {i : Int}
    (place : i = before.length) :
    writeBytes (before ++ old :: rest) i [b] = .value (before ++ b :: rest) :=
  writeBytes_eq before [old] [b] rest place rfl

theorem formatLoop_chars (rest current : List Byte) (hole : Byte) (p : Nat)
    {chars closed spare : List Byte} {i : Nat} (plain : dot ∉ chars)
    (room : chars.length ≤ spare.length) (at_i : i = closed.length + current.length) :
    formatLoop (chars ++ rest) i p current.length (closed ++ hole :: (current ++ spare)) =
      formatLoop rest (i + chars.length) p (current ++ chars).length
        (closed ++ hole :: (current ++ (chars ++ spare.drop chars.length))) := by
  induction chars generalizing i current spare with
  | nil => simp only [List.nil_append, List.append_nil, List.length_nil, List.drop_zero, Nat.add_zero]
  | cons c chars ih =>
    have notDot : c ≠ dot := fun same => plain (same ▸ List.mem_cons_self)
    have plain' : dot ∉ chars := fun member => plain (List.mem_cons_of_mem c member)
    obtain ⟨s, spare, rfl⟩ : ∃ s tail, spare = s :: tail := by
      cases spare with
      | nil => cases room
      | cons s tail => exact ⟨s, tail, rfl⟩
    have room' : chars.length ≤ spare.length := Nat.le_of_succ_le_succ room
    have place : ((i : Int) + 1) = (closed ++ hole :: current).length := by
      simp only [List.length_append, List.length_cons, at_i]
      push_cast
      ring
    have written : writeBytes (closed ++ hole :: current ++ s :: spare) (i + 1) [c] =
        .value (closed ++ hole :: current ++ c :: spare) := writeBytes_one _ place
    have at_next : i + 1 = closed.length + (current ++ [c]).length := by
      simp only [List.length_append, List.length_cons, List.length_nil]
      omega
    have next := ih (current ++ [c]) plain' room' at_next
    simp only [List.append_assoc, List.cons_append, List.length_cons, List.length_nil, List.nil_append,
      List.drop_succ_cons, List.length_append] at written next ⊢
    simp only [formatLoop, if_neg notDot, written, value_bind, Nat.add_assoc, Nat.add_comm 1] at next ⊢
    exact next

/-- `domain_to_dns_name_format` from any loop state inside a label. -/
theorem formatLoop_labels {labels : List Label} (closed current : List Byte) (hole : Byte)
    {spare : List Byte} {i p : Nat} (room : spare.length = (dotted labels).length + 1)
    (at_i : i = closed.length + current.length) (at_p : p = closed.length) :
    formatLoop (dotted labels) i p current.length (closed ++ hole :: (current ++ spare)) =
      .value (closed ++ UInt8.ofNat current.length :: (current ++ (encodeLabels labels ++ [0]))) := by
  induction labels generalizing closed current spare hole i p with
  | nil =>
    obtain ⟨s, rfl⟩ := List.length_eq_one_iff.mp room
    have sized : writeBytes (closed ++ hole :: (current ++ [s])) p [UInt8.ofNat current.length] =
        .value (closed ++ UInt8.ofNat current.length :: (current ++ [s])) :=
      writeBytes_one closed (congrArg Nat.cast at_p)
    have place : (i : Int) + 1 = (closed ++ UInt8.ofNat current.length :: current).length := by
      simp only [List.length_append, List.length_cons, at_i]
      omega
    have ended : writeBytes (closed ++ UInt8.ofNat current.length :: current ++ [s]) (i + 1) [0] =
        .value (closed ++ UInt8.ofNat current.length :: current ++ [0]) :=
      writeBytes_one _ place
    simp only [List.append_assoc, List.cons_append] at ended
    simp only [dotted, List.flatMap_nil, formatLoop, sized, value_bind, ended, encodeLabels,
      List.nil_append]
  | cons label rest ih =>
    obtain ⟨s, spare, rfl⟩ := List.exists_cons_of_length_eq_add_one room
    have sized : writeBytes (closed ++ hole :: (current ++ s :: spare)) p
        [UInt8.ofNat current.length] =
        .value (closed ++ UInt8.ofNat current.length :: (current ++ s :: spare)) :=
      writeBytes_one closed (congrArg Nat.cast at_p)
    have room' : spare.length = label.bytes.length + (dotted rest).length + 1 := by
      simp only [dotted, List.flatMap_cons, List.length_append, List.length_cons] at room ⊢
      omega
    have enough : label.bytes.length ≤ spare.length := by omega
    have left : (spare.drop label.bytes.length).length = (dotted rest).length + 1 := by
      rw [List.length_drop]
      omega
    have place : i + 1 = (closed ++ UInt8.ofNat current.length :: current).length := by
      simp only [List.length_append, List.length_cons, at_i]
      omega
    have chars := formatLoop_chars (dotted rest) [] s (i + 1) label.noDot enough place
    have later := ih (closed ++ UInt8.ofNat current.length :: current) label.bytes s left
      (congrArg (· + label.bytes.length) place) place
    simp only [List.nil_append, List.append_assoc, List.cons_append, List.length_nil] at chars later
    simp only [dotted, List.flatMap_cons, List.cons_append, formatLoop, if_true, sized, value_bind]
    rw [dotted] at chars later
    simp only [chars, later, encodeLabels, List.flatMap_cons, Label.encode, List.cons_append,
      List.append_assoc]

theorem domainToDnsNameFormat_encode (malloc : Malloc) (domain : DomainName) :
    domainToDnsNameFormat malloc domain.text = .value domain.encode := by
  have size := (malloc (domain.text.strlen + 2)).property
  simp only [domainToDnsNameFormat]
  generalize (malloc (domain.text.strlen + 2)).val = block at size ⊢
  obtain ⟨hole, spare, rfl⟩ := List.exists_cons_of_length_eq_add_one size
  have spareLength : spare.length = domain.first.bytes.length + (dotted domain.rest).length + 1 := by
    simp only [CString.strlen, text, List.length_append, List.length_cons] at size
    omega
  have enough : domain.first.bytes.length ≤ spare.length := by omega
  have left : (spare.drop domain.first.bytes.length).length = (dotted domain.rest).length + 1 := by
    rw [List.length_drop]
    omega
  have start : 0 = ([] : List Byte).length + ([] : List Byte).length := rfl
  have chars := formatLoop_chars (dotted domain.rest) [] hole 0 domain.first.noDot enough start
  have later := formatLoop_labels [] domain.first.bytes hole
    (i := 0 + domain.first.bytes.length) (p := 0) left rfl rfl
  simp only [List.nil_append, List.length_nil] at chars later
  simp only [text, chars, later, encode, labels, encodeLabels, List.flatMap_cons, Label.encode,
    List.cons_append, List.append_assoc]

theorem encodeLabels_terminated (labels : List Label) : 0 ∉ encodeLabels labels := by
  intro member
  obtain ⟨label, _, inLabel⟩ := List.mem_flatMap.mp member
  rcases List.mem_cons.mp inLabel with isLength | inBytes
  · exact label_nonzero label isLength.symm
  · exact label.noNul inBytes

/-- As a C string, the wire name loses its root label. -/
theorem ofBytes_encode (domain : DomainName) :
    (CString.ofBytes domain.encode).bytes = encodeLabels domain.labels := by
  have clean := encodeLabels_terminated domain.labels
  have whole : ∀ b ∈ encodeLabels domain.labels, decide (b ≠ 0) = true := by
    intro b member
    exact decide_eq_true fun zero => clean (zero ▸ member)
  have root : [(0 : Byte)].takeWhile (fun b => decide (b ≠ 0)) = [] := rfl
  simp only [CString.ofBytes, encode, List.takeWhile_append_of_pos whole, root, List.append_nil]

/-- A message with one question, whatever follows it. -/
def message (pid : Nat) (flags flags' : Byte) (answers : Nat) (domain : DomainName)
    (rest : List Byte) : List Byte :=
  htons pid ++ ([flags, flags'] ++ (htons 1 ++ (htons answers ++ ([0, 0, 0, 0] ++
    (domain.encode ++ (htons typeA ++ (htons classIn ++ rest)))))))

theorem length_message (pid : Nat) (flags flags' : Byte) (answers : Nat) (domain : DomainName)
    (rest : List Byte) :
    (message pid flags flags' answers domain rest).length =
      headerLength + domain.encode.length + 4 + rest.length := by
  simp only [message, htons, headerLength, List.length_append, List.length_cons, List.length_nil]
  omega

theorem length_queryHeader (pid : Nat) (flags : Byte) : (queryHeader pid flags).length = headerLength := rfl

theorem read_of_lt {data : List Byte} {i : Nat} (inside : i < data.length) :
    read data i = .value data[i] := by
  have positive : 0 ≤ (i : Int) := Int.natCast_nonneg i
  simp only [read, byteAt, if_pos positive, Int.toNat_natCast, List.getElem?_eq_getElem inside]

/-- Three writes at consecutive places make the query; the rest of the buffer stays. -/
theorem pack_encode (malloc : Malloc) (pid type : Nat) {domain : DomainName} {buf : List Byte}
    (room : headerLength + (domain.text.strlen + 2) + 4 ≤ buf.length) :
    ∃ flags, pack malloc pid domain.text buf type =
      .value (some (headerLength + (domain.text.strlen + 2) + 4,
        queryHeader pid flags ++ (domain.encode ++ (htons type ++ (htons classIn ++
          buf.drop (headerLength + (domain.text.strlen + 2) + 4)))))) := by
  have nameLength := length_encode domain
  have labelsLength : domain.encode.length = (encodeLabels domain.labels).length + 1 := List.length_append
  have enough : ¬buf.length < headerLength := by omega
  have third : 3 < buf.length := by
    simp only [headerLength] at room
    omega
  obtain ⟨header, afterHeader, rfl, headerSize⟩ :=
    exists_split headerLength buf (by omega)
  simp only [List.length_append] at room
  obtain ⟨name, afterName, rfl, nameSize⟩ :=
    exists_split domain.encode.length afterHeader (by omega)
  simp only [List.length_append] at room
  obtain ⟨kind, rest, rfl, kindSize⟩ := exists_split 4 afterName (by omega)
  let flags := (header ++ (name ++ (kind ++ rest)))[3]
  have flagsRead : read (header ++ (name ++ (kind ++ rest))) 3 = .value flags := read_of_lt third
  have headerWritten := writeBytes_eq (i := 0) [] header (queryHeader pid flags)
    (name ++ (kind ++ rest)) rfl (headerSize.trans (length_queryHeader pid flags).symm)
  have nameWritten := writeBytes_eq (i := headerLength) (queryHeader pid flags) name domain.encode
    (kind ++ rest) rfl nameSize
  have kindPlace : (headerLength + (encodeLabels domain.labels).length + 1 : Int) =
      (queryHeader pid flags ++ domain.encode).length := by
    simp only [List.length_append, length_queryHeader, labelsLength]
    omega
  have kindWritten := writeBytes_eq (queryHeader pid flags ++ domain.encode) kind
    (htons type ++ htons classIn) rest kindPlace kindSize
  have behind : (header ++ (name ++ (kind ++ rest))).drop (headerLength + (domain.text.strlen + 2) + 4) =
      rest := by
    rw [← nameLength, ← headerSize, ← nameSize, ← kindSize, ← List.drop_drop, ← List.drop_drop,
      List.drop_left, List.drop_left, List.drop_left]
  refine ⟨flags, ?_⟩
  simp only [List.nil_append, List.append_assoc] at headerWritten kindWritten
  have wire : encodeLabels domain.labels ++ [0] = domain.encode := rfl
  have same : headerLength + (encodeLabels domain.labels).length + 1 + 4 =
      headerLength + (domain.text.strlen + 2) + 4 := by omega
  simp only [pack, if_neg enough, flagsRead, value_bind, headerWritten,
    domainToDnsNameFormat_encode, ofBytes_encode, wire, nameWritten, kindWritten, pure_eq, same, behind]

theorem pack_message (malloc : Malloc) (pid : Nat) {domain : DomainName} {buf : List Byte}
    (room : headerLength + (domain.text.strlen + 2) + 4 ≤ buf.length) :
    ∃ flags rest, buf.length = headerLength + (domain.text.strlen + 2) + 4 + rest.length ∧
      pack malloc pid domain.text buf typeA =
        .value (some (headerLength + (domain.text.strlen + 2) + 4,
          message pid 1 (flags &&& 0x30) 0 domain rest)) := by
  obtain ⟨flags, packed⟩ := pack_encode malloc pid typeA room
  refine ⟨flags, buf.drop (headerLength + (domain.text.strlen + 2) + 4), ?_, packed⟩
  rw [List.length_drop]
  omega

/-- Where the name of the question ends. -/
def questionEnd (domain : DomainName) : Nat := headerLength + domain.encode.length

theorem message_at (pid : Nat) (flags flags' : Byte) (answers : Nat) (domain : DomainName)
    (rest : List Byte) :
    let data := message pid flags flags' answers domain rest
    At data 2 [flags] ∧ At data 3 [flags'] ∧ At data 4 (htons 1) ∧ At data 6 (htons answers) ∧
      At data headerLength domain.encode ∧ At data (questionEnd domain) (htons typeA) ∧
      At data (questionEnd domain + 2) (htons classIn) ∧ At data (questionEnd domain + 4) rest := by
  intro data
  have whole := at_whole data
  obtain ⟨-, whole⟩ := at_append_iff.mp whole
  obtain ⟨flagsHere, whole⟩ := at_append_iff.mp whole
  obtain ⟨flagsHere, flagsHere'⟩ := at_cons_iff.mp flagsHere
  obtain ⟨questionsHere, whole⟩ := at_append_iff.mp whole
  obtain ⟨answersHere, whole⟩ := at_append_iff.mp whole
  obtain ⟨-, whole⟩ := at_append_iff.mp whole
  obtain ⟨nameHere, whole⟩ := at_append_iff.mp whole
  obtain ⟨typeHere, whole⟩ := at_append_iff.mp whole
  obtain ⟨classHere, restHere⟩ := at_append_iff.mp whole
  exact ⟨flagsHere, flagsHere', questionsHere, answersHere, nameHere, typeHere, classHere, restHere⟩

theorem getName_question {data : List Byte} {domain : DomainName} {fuel : Nat}
    (here : At data headerLength domain.encode) (enough : domain.labels.length < fuel) :
    getName data fuel headerLength headerLength none 0 =
      .value ⟨domain.encode.length, some domain.text.bytes, headerLength⟩ := by
  have walked := getName_labels headerLength 0 none here enough
  rw [walked, joinText_domain]
  simp only [encode, List.length_append, List.length_singleton, Nat.cast_add, Int.zero_add,
    Nat.cast_one]

theorem length_ne_error (domain : DomainName) : ¬(domain.encode.length : Int) = -1 := by omega

theorem collectQuestions_one {data : List Byte} {domain : DomainName} {fuel : Nat} (respLen : Nat)
    (enough : domain.labels.length < fuel) (nameHere : At data headerLength domain.encode)
    (typeHere : At data (questionEnd domain) (htons typeA))
    (classHere : At data (questionEnd domain + 2) (htons classIn)) :
    collectQuestions data fuel 1 0 respLen [] =
      .value (some (domain.encode.length + 4, respLen + 16,
        [⟨some domain.text.bytes, headerLength, typeA⟩])) := by
  have inside := nameHere.le_length (by simp [encode])
  have within : ¬((headerLength : Int) > data.length) := by omega
  have typeRead := typeHere.readNtohs (by decide)
  have classRead := classHere.readNtohs (by decide)
  simp only [questionEnd, Nat.cast_add] at typeRead classRead
  have offset : sizeT (headerLength : Int) % 2 ^ 16 = headerLength := by decide
  simp only [Nat.cast_ofNat] at classRead
  have wanted : ¬(classIn ≠ classIn ∨ typeA ≠ typeA ∧ typeA ≠ typeAaaa) := by decide
  simp only [collectQuestions, Int.add_zero, if_neg within, getName_question nameHere enough, value_bind,
    if_neg (length_ne_error domain), typeRead, classRead, if_neg wanted, if_true, Int.zero_add, offset,
    List.nil_append]

theorem message_append (pid : Nat) (flags flags' : Byte) (answers : Nat) (domain : DomainName)
    (rest more : List Byte) :
    message pid flags flags' answers domain rest ++ more =
      message pid flags flags' answers domain (rest ++ more) := by
  simp only [message, List.append_assoc]

/-- The header fields the response changes. -/
theorem write_flags (pid : Nat) (flags flags' new : Byte) (answers : Nat) (domain : DomainName)
    (rest : List Byte) :
    writeBytes (message pid flags flags' answers domain rest) 2 [new] =
      .value (message pid new flags' answers domain rest) :=
  writeBytes_eq (htons pid) [flags] [new] _ rfl rfl

theorem write_answers (pid : Nat) (flags flags' : Byte) (answers new : Nat) (domain : DomainName)
    (rest : List Byte) :
    writeBytes (message pid flags flags' answers domain rest) 6 (htons new) =
      .value (message pid flags flags' new domain rest) :=
  writeBytes_eq (htons pid ++ ([flags, flags'] ++ htons 1)) (htons answers) (htons new) _ rfl rfl

/-- The response generated for a query of one domain. -/
theorem genInetResponse_message (malloc : Malloc) {callbacks : Callbacks} (pid : Nat) (flags' : Byte)
    {domain : DomainName} {fuel : Nat} {ip : Block 4} (enough : domain.labels.length < fuel)
    (resolved : callbacks.ipv4 (some domain.text.bytes) = some ip) :
    genInetResponse malloc callbacks (message pid 1 flags' 0 domain []) fuel =
      .value ([some domain.text.bytes],
        some (message pid 0x81 flags' 1 domain (answerHeader headerLength 4 ++ ip.val))) := by
  obtain ⟨flagsHere, -, questionsHere, -, nameHere, typeHere, classHere, -⟩ :=
    message_at pid 1 flags' 0 domain []
  have size := length_message pid 1 flags' 0 domain []
  have dumped : hexDump (message pid 1 flags' 0 domain []) 0 (message pid 1 flags' 0 domain []).length =
      .value () := At.hexDump (i := 0) (at_whole _)
  have collected := collectQuestions_one (message pid 1 flags' 0 domain []).length enough nameHere
    typeHere classHere
  have flagsRead := flagsHere.read
  have questionsRead := questionsHere.readNtohs (by decide)
  simp only [Nat.cast_ofNat] at flagsRead questionsRead
  have long : ¬(message pid 1 flags' 0 domain []).length < headerLength := by
    rw [size]
    omega
  have query : ¬(0x80 : Byte) ≤ 1 := by decide
  have one : ¬(1 : Nat) = 0 := by decide
  -- the answer is written where the response grows beyond the query
  have room := (malloc ((message pid 1 flags' 0 domain []).length + 16)).property
  generalize grown : (malloc ((message pid 1 flags' 0 domain []).length + 16)).val = block at room
  have place : (headerLength : Int) + (domain.encode.length + 4) =
      (message pid 0x81 flags' 1 domain []).length := by
    rw [length_message, List.length_nil]
    omega
  have written : answersBytes callbacks [⟨some domain.text.bytes, headerLength, typeA⟩] =
      some (answerHeader headerLength 4 ++ ip.val) := by
    simp [answersBytes, DomainOffset.address, DomainOffset.dataLen, resolved]
  have width : (block.drop (message pid 1 flags' 0 domain []).length).length =
      (answerHeader headerLength 4 ++ ip.val).length := by
    have header : (answerHeader headerLength 4).length = 12 := rfl
    rw [List.length_drop, List.length_append, header, ip.property]
    omega
  have answered := writeAnswers_bytes [] place written width
  have response : (1 : Byte) ||| 0x80 = 0x81 := by decide
  simp only [message_append, List.nil_append, List.append_nil] at answered
  simp only [genInetResponse, if_neg long, dumped, value_bind, flagsRead, if_neg query, questionsRead,
    if_neg one, collected, grown, message_append, List.nil_append, response, write_flags,
    List.length_singleton, write_answers, answered, List.map_cons, List.map_nil]

theorem skipQuestions_one {data : List Byte} {domain : DomainName} {fuel : Nat}
    (enough : domain.labels.length < fuel) (nameHere : At data headerLength domain.encode) :
    skipQuestions data fuel 1 0 = .value (some (domain.encode.length + 4)) := by
  simp only [skipQuestions, Int.add_zero, getName_question nameHere enough, value_bind,
    if_neg (length_ne_error domain), Int.zero_add]

/-- The answer's name is a pointer to the question's. -/
theorem getName_pointer {data : List Byte} {domain : DomainName} {fuel i : Nat} {rest : List Byte}
    (enough : domain.labels.length < fuel) (nameHere : At data headerLength domain.encode)
    (here : At data i (answerHeader headerLength 4 ++ rest)) :
    getName data (fuel + 1) i i none 0 = .value ⟨2, some domain.text.bytes, headerLength⟩ := by
  have inside := nameHere.le_length (by simp [encode])
  obtain ⟨pointer, later⟩ := at_cons_iff.mp here
  obtain ⟨offset, -⟩ := at_cons_iff.mp later
  have low := offset.read
  simp only [Nat.cast_add, Nat.cast_one] at low
  have nonzero : ¬(0xC0 ||| UInt8.ofNat (headerLength / 256)) = 0 := by decide
  have marked : (0xC0 ||| UInt8.ofNat (headerLength / 256)) >>> 6 = 3 := by decide
  have target : ((0xC0 ||| UInt8.ofNat (headerLength / 256)) &&& 3).toNat <<< 4 +
      (UInt8.ofNat headerLength).toNat = headerLength := by decide
  have within : ¬headerLength > data.length := by omega
  simp only [getName, pointer.read, value_bind, if_neg nonzero, if_pos marked, low, target,
    if_neg within, getName_question nameHere enough, pure_eq]
  rfl

theorem parseAnswer_one (slots : Nat) {data : List Byte} {domain : DomainName} {fuel i : Nat}
    {ip : Block 4} (enough : domain.labels.length < fuel) (nameHere : At data headerLength domain.encode)
    (here : At data i (answerHeader headerLength 4 ++ ip.val)) :
    parseAnswer data (fuel + 1) i ⟨none, [], [], slots⟩ =
      .value (some (⟨some domain.text.bytes, [], [ip.val], slots⟩, 16)) := by
  have named := getName_pointer enough nameHere here
  simp only [answerHeader, List.append_assoc] at here
  obtain ⟨pointerHere, recordHere⟩ := at_append_iff.mp here
  obtain ⟨typeHere, whole⟩ := at_append_iff.mp recordHere
  obtain ⟨classHere, whole⟩ := at_append_iff.mp whole
  obtain ⟨ttlHere, whole⟩ := at_append_iff.mp whole
  obtain ⟨lengthHere, addressHere⟩ := at_append_iff.mp whole
  have recordParts : At data (i + 2)
      ((htons typeA ++ htons classIn ++ [0, 0, 0, 0] ++ htons 4) ++ ip.val) := recordHere
  obtain ⟨headerHere, -⟩ := at_append_iff.mp recordParts
  have pointerDump : hexDump data i 2 = .value () := pointerHere.hexDump
  have headerDump : hexDump data ↑(i + 2) 10 = .value () := headerHere.hexDump
  have typeRead : readNtohs data ↑(i + 2) = .value typeA := typeHere.readNtohs (by decide)
  have classRead : readNtohs data ↑(i + 2 + 2) = .value classIn := classHere.readNtohs (by decide)
  have ttlRead : readBytes data ↑(i + 2 + 4) 4 = .value [0, 0, 0, 0] := ttlHere.readBytes
  have lengthRead : readNtohs data ↑(i + 2 + 8) = .value 4 := lengthHere.readNtohs (by decide)
  have addressRead : readBytes data ↑(i + 2 + 10) ip.val.length = .value ip.val := addressHere.readBytes
  rw [ip.property] at addressRead
  simp only [Nat.cast_add, Nat.cast_ofNat] at headerDump typeRead classRead ttlRead lengthRead addressRead
  have address : ¬(typeA ≠ typeA ∨ classIn ≠ classIn) := by decide
  simp only [parseAnswer, pointerDump, named, value_bind, typeRead, classRead, ttlRead, lengthRead,
    parseRdata, if_neg address, headerDump, addressRead]
  rfl

/-- The one answer of the response is read back. -/
theorem parseA_message (pid : Nat) {flags' : Byte} {domain : DomainName} {fuel : Nat} (ip : Block 4)
    (enough : domain.labels.length < fuel) (success : flags' &&& 15 = 0) :
    parseA (message pid 0x81 flags' 1 domain (answerHeader headerLength 4 ++ ip.val)) (fuel + 1) =
      .value (some ⟨some domain.text.bytes, [], [ip.val], 257⟩) := by
  obtain ⟨flagsHere, flagsHere', questionsHere, answersHere, nameHere, -, -, answerHere⟩ :=
    message_at pid 0x81 flags' 1 domain (answerHeader headerLength 4 ++ ip.val)
  have dumped : hexDump (message pid 0x81 flags' 1 domain (answerHeader headerLength 4 ++ ip.val)) 0
      (message pid 0x81 flags' 1 domain (answerHeader headerLength 4 ++ ip.val)).length = .value () :=
    At.hexDump (i := 0) (at_whole _)
  generalize message pid 0x81 flags' 1 domain (answerHeader headerLength 4 ++ ip.val) = data at *
  have flagsRead := flagsHere.read
  have flagsRead' := flagsHere'.read
  have questionsRead := questionsHere.readNtohs (by decide)
  have answersRead := answersHere.readNtohs (by decide)
  simp only [Nat.cast_ofNat] at flagsRead flagsRead' questionsRead answersRead
  have skipped := skipQuestions_one (Nat.lt_succ_of_lt enough) nameHere
  have response : ¬(0x81 : Byte) < 0x80 := by decide
  have accepted : ¬flags' &&& 15 ≠ 0 := fun refused => refused success
  have some' : ¬(1 : Nat) = 0 := by decide
  have parsed := parseAnswer_one 257 enough nameHere answerHere
  have place : (headerLength : Int) + (domain.encode.length + 4) = ↑(questionEnd domain + 4) := by
    simp only [questionEnd, Nat.cast_add, Nat.cast_ofNat, Int.add_assoc]
  simp only [parseA, dumped, value_bind, flagsRead, if_neg response, flagsRead', if_neg accepted,
    questionsRead, skipped, answersRead, if_neg some', place, parseAnswers, parsed]

/-- A packed query decodes to its domain; the response to it asks the callback for
exactly that domain, adds sixteen bytes, and parses back to the domain and the address. -/
theorem query_response_round_trip (malloc : Malloc) (pid : Nat) (domain : DomainName)
    (buf : List Byte) (callbacks : Callbacks) (ip : Block 4)
    (room : headerLength + (domain.text.strlen + 2) + 4 ≤ buf.length)
    (resolved : callbacks.ipv4 (some domain.text.bytes) = some ip) :
    ∃ packet rest response,
      pack malloc pid domain.text buf typeA = .value (some (packet.length, packet ++ rest)) ∧
      Ends (fun fuel => getName packet fuel headerLength headerLength none 0)
        (.value ⟨domain.text.strlen + 2, some domain.text.bytes, headerLength⟩) ∧
      Ends (genInetResponse malloc callbacks packet) (.value ([some domain.text.bytes], some response)) ∧
      response.length = packet.length + 16 ∧
      Ends (parseA response) (.value (some ⟨some domain.text.bytes, [], [ip.val], 257⟩)) := by
  obtain ⟨flags, rest, -, packed⟩ := pack_message malloc pid room
  have nameLength := length_encode domain
  have success : (flags &&& 0x30) &&& 15 = 0 := by
    rw [UInt8.and_assoc]
    exact UInt8.and_zero
  have answerLength : (answerHeader headerLength 4 ++ ip.val).length = 16 := by
    rw [List.length_append, ip.property]
    rfl
  refine ⟨message pid 1 (flags &&& 0x30) 0 domain [], rest,
    message pid 0x81 (flags &&& 0x30) 1 domain (answerHeader headerLength 4 ++ ip.val), ?_, ?_, ?_, ?_, ?_⟩
  · rw [packed, message_append, List.nil_append, length_message, nameLength, List.length_nil,
      Nat.add_zero]
  · obtain ⟨-, -, -, -, nameHere, -⟩ := message_at pid 1 (flags &&& 0x30) 0 domain []
    refine ⟨domain.labels.length + 1, fun fuel enough => ?_⟩
    simp only [getName_question nameHere enough, nameLength, Nat.cast_add, Nat.cast_ofNat]
  · exact ⟨domain.labels.length + 1, fun fuel enough =>
      genInetResponse_message malloc pid _ enough resolved⟩
  · simp only [length_message, answerLength, List.length_nil, Nat.add_zero]
  · refine ⟨domain.labels.length + 2, fun fuel enough => ?_⟩
    obtain ⟨fuel, rfl⟩ := Nat.exists_eq_add_of_lt (Nat.lt_of_succ_le enough)
    have deep : domain.labels.length < domain.labels.length + 1 + fuel := by omega
    exact parseA_message pid ip deep success

def zeroed : Malloc := fun n => ⟨List.replicate n 0, List.length_replicate⟩

def wwwBaiduCom : DomainName where
  first := ⟨[119, 119, 119], by decide, by decide, by decide, by decide⟩
  rest := [⟨[98, 97, 105, 100, 117], by decide, by decide, by decide, by decide⟩,
    ⟨[99, 111, 109], by decide, by decide, by decide, by decide⟩]

/-- The callbacks of the test. -/
def testCallbacks : Callbacks where
  ipv4 _ := some ⟨[127, 0, 0, 3], rfl⟩
  ipv6 _ := some ⟨[0, 0, 0, 0, 0, 0, 0, 0, 0, 0, 0, 0, 0, 0, 0, 3], rfl⟩

theorem www_baidu_com_round_trip : ∃ packet rest response,
    pack zeroed 77 wwwBaiduCom.text (List.replicate 512 0xFF) typeA =
      .value (some (packet.length, packet ++ rest)) ∧
    Ends (fun fuel => getName packet fuel headerLength headerLength none 0)
      (.value ⟨15, some wwwBaiduCom.text.bytes, headerLength⟩) ∧
    Ends (genInetResponse zeroed testCallbacks packet)
      (.value ([some wwwBaiduCom.text.bytes], some response)) ∧
    response.length = packet.length + 16 ∧
    Ends (parseA response) (.value (some ⟨some wwwBaiduCom.text.bytes, [], [[127, 0, 0, 3]], 257⟩)) :=
  query_response_round_trip zeroed 77 wwwBaiduCom (List.replicate 512 0xFF) testCallbacks
    ⟨[127, 0, 0, 3], rfl⟩ (by rw [List.length_replicate]; decide) rfl

end Devent.Dns
