import Devent.Dns.RoundTrip
import Mathlib.Data.Set.List

/-! What `c_dns_pack` may leave in the buffer it is given. The packer neither counts the bytes of
a label nor looks at the size of the buffer again once the header fits. -/
namespace Devent.Dns
open Outcome DomainName

/-- Every label between the dots has 1 to 63 bytes. -/
def Labelled (domain : CString) : Prop :=
  ∀ label ∈ domain.bytes.splitOn dot, label ≠ [] ∧ label.length ≤ 63

/-- The header, then one question for the domain. -/
structure IsQuery (packet : List Byte) (pid : Nat) (domain : CString) (type : Nat) : Prop where
  header : ∃ flags, At packet 0 (htons pid ++ ([1, flags] ++ (htons 1 ++ [0, 0, 0, 0, 0, 0]))) ∧
    flags &&& 0xCF = 0
  question : ∃ size : Nat, Ends (fun fuel => getName packet fuel headerLength headerLength none 0)
      (.value ⟨size, some domain.bytes, headerLength⟩) ∧
    At packet (headerLength + size) (htons type ++ htons classIn) ∧
    packet.length = headerLength + size + 4

/-- The packer returns. It refuses a label that no question can hold, and what it accepts is a
query in front of bytes it has not touched. -/
def PacksSafely (malloc : Malloc) (pid : Nat) (domain : CString) (buf : List Byte) (type : Nat) : Prop :=
  ∃ result, pack malloc pid domain buf type = .value result ∧
    (¬Labelled domain → result = none) ∧
    ∀ n after, result = some (n, after) → n ≤ buf.length ∧ after.drop n = buf.drop n ∧
      IsQuery (after.take n) pid domain type

variable {malloc : Malloc} {pid type : Nat} {domain : CString} {buf : List Byte}

theorem mem_splitOn {a : Byte} {bytes piece : List Byte} (member : piece ∈ bytes.splitOn a) :
    a ∉ piece ∧ piece ⊆ bytes := by
  induction bytes generalizing piece with
  | nil =>
    rw [List.splitOn_nil, List.mem_singleton] at member
    subst member
    exact ⟨List.not_mem_nil, List.nil_subset _⟩
  | cons b rest ih =>
    rw [List.splitOn_cons_eq_if_modifyHead] at member
    split at member
    · obtain rfl | later := List.mem_cons.mp member
      · exact ⟨List.not_mem_nil, List.nil_subset _⟩
      · obtain ⟨free, inside⟩ := ih later
        exact ⟨free, List.subset_cons_of_subset b inside⟩
    · rename_i different
      obtain ⟨first, others, split⟩ := List.exists_cons_of_ne_nil (List.splitOn_ne_nil a rest)
      rw [split] at ih member
      obtain rfl | later := List.mem_cons.mp member
      · obtain ⟨free, inside⟩ := ih List.mem_cons_self
        refine ⟨?_, List.cons_subset_cons b inside⟩
        intro found
        obtain rfl | found := List.mem_cons.mp found
        · exact different (beq_self_eq_true a)
        · exact free found
      · obtain ⟨free, inside⟩ := ih (List.mem_cons_of_mem first later)
        exact ⟨free, List.subset_cons_of_subset b inside⟩

theorem intercalate_labels (first : Label) (rest : List Label) :
    [dot].intercalate (first.bytes :: rest.map Label.bytes) = first.bytes ++ dotted rest := by
  induction rest generalizing first with
  | nil => rw [List.map_nil, List.intercalate_singleton, dotted, List.flatMap_nil, List.append_nil]
  | cons next rest ih =>
    rw [List.map_cons, List.intercalate_cons_cons, ih next, dotted, dotted, List.flatMap_cons,
      List.append_assoc]
    rfl

theorem exists_domainName (labelled : Labelled domain) : ∃ name : DomainName, name.text = domain := by
  have pieces : domain.bytes.splitOn dot ∈ Set.range (List.map Label.bytes) := by
    rw [Set.range_list_map]
    intro piece member
    obtain ⟨nonempty, short⟩ := labelled piece member
    obtain ⟨noDot, inside⟩ := mem_splitOn member
    exact ⟨⟨piece, nonempty, short, noDot, fun zero => domain.terminated (inside zero)⟩, rfl⟩
  obtain ⟨labels, spelled⟩ := pieces
  have joined : [dot].intercalate (domain.bytes.splitOn dot) = domain.bytes := List.intercalate_splitOn dot
  rw [← spelled] at joined
  cases labels with
  | nil => exact absurd spelled.symm (List.splitOn_ne_nil dot domain.bytes)
  | cons first rest =>
    refine ⟨⟨first, rest⟩, ?_⟩
    rw [List.map_cons, intercalate_labels] at joined
    simp only [text, joined]

theorem isQuery_append (flags : Byte) (name : DomainName) :
    IsQuery (queryHeader pid flags ++ (name.encode ++ (htons type ++ htons classIn))) pid name.text type := by
  have whole := at_whole (queryHeader pid flags ++ (name.encode ++ (htons type ++ htons classIn)))
  obtain ⟨header, rest⟩ := at_append_iff.mp whole
  obtain ⟨named, fields⟩ := at_append_iff.mp rest
  rw [length_queryHeader, Nat.zero_add] at named fields
  constructor
  · refine ⟨flags &&& 0x30, header, ?_⟩
    rw [UInt8.and_assoc]
    exact UInt8.and_zero
  · refine ⟨name.encode.length, ⟨name.labels.length + 1, fun fuel enough => ?_⟩, fields, ?_⟩
    · exact getName_question named enough
    · simp only [List.length_append, length_queryHeader, Nat.add_assoc]
      rfl

theorem packsSafely_of_room (name : DomainName) (labelled : Labelled name.text)
    (room : headerLength + (name.text.strlen + 2) + 4 ≤ buf.length) :
    PacksSafely malloc pid name.text buf type := by
  obtain ⟨flags, packed⟩ := pack_encode malloc pid type room
  refine ⟨_, packed, fun bad => absurd labelled bad, ?_⟩
  intro n after same
  obtain ⟨rfl, rfl⟩ := Prod.mk.inj (Option.some.inj same)
  generalize untouched : buf.drop (headerLength + (name.text.strlen + 2) + 4) = spare
  have size : headerLength + (name.text.strlen + 2) + 4 =
      (queryHeader pid flags ++ (name.encode ++ (htons type ++ htons classIn))).length := by
    simp only [List.length_append, length_queryHeader, length_encode, Nat.add_assoc]
    rfl
  have split : queryHeader pid flags ++ (name.encode ++ (htons type ++ (htons classIn ++ spare))) =
      (queryHeader pid flags ++ (name.encode ++ (htons type ++ htons classIn))) ++ spare := by
    simp only [List.append_assoc]
  refine ⟨room, ?_, ?_⟩
  · rw [split, size, List.drop_left]
  · rw [split, size, List.take_left]
    exact isQuery_append flags name

theorem pack_reaches {result : Option (Nat × List Byte)} (long : headerLength ≤ buf.length)
    (packed : pack malloc pid domain buf type = .value result) :
    result ≠ none ∧ ∃ wire, domainToDnsNameFormat malloc domain = .value wire ∧
      headerLength + (CString.ofBytes wire).strlen + 5 ≤ buf.length := by
  rw [pack, if_neg (Nat.not_lt.mpr long)] at packed
  obtain ⟨flags, -, packed⟩ := bind_value_iff.mp packed
  obtain ⟨headed, header, packed⟩ := bind_value_iff.mp packed
  obtain ⟨wire, formatted, packed⟩ := bind_value_iff.mp packed
  obtain ⟨named, name, packed⟩ := bind_value_iff.mp packed
  obtain ⟨whole, fields, packed⟩ := bind_value_iff.mp packed
  cases packed
  obtain ⟨sameHead, -⟩ := length_writeBytes header
  obtain ⟨sameName, -⟩ := length_writeBytes name
  obtain ⟨-, reach⟩ := length_writeBytes fields
  refine ⟨Option.some_ne_none _, wire, formatted, ?_⟩
  have four : (htons type ++ htons classIn).length = 4 := rfl
  rw [four] at reach
  rw [CString.strlen]
  omega

/-- The packer keeps its promise exactly for a buffer too short for the header, and for a domain
of labels with 1 to 63 bytes that fits behind it. -/
theorem pack_safe_iff (malloc : Malloc) (pid : Nat) (domain : CString) (buf : List Byte) (type : Nat) :
    PacksSafely malloc pid domain buf type ↔
      buf.length < headerLength ∨
        Labelled domain ∧ headerLength + (domain.strlen + 2) + 4 ≤ buf.length := by
  constructor
  · rintro ⟨result, packed, refused, -⟩
    obtain short | long := Nat.lt_or_ge buf.length headerLength
    · exact .inl short
    · obtain ⟨accepted, wire, formatted, reach⟩ := pack_reaches long packed
      have labelled : Labelled domain := Classical.byContradiction fun bad => accepted (refused bad)
      obtain ⟨name, rfl⟩ := exists_domainName labelled
      refine .inr ⟨labelled, ?_⟩
      rw [domainToDnsNameFormat_encode] at formatted
      cases formatted
      have size := length_encode name
      have root : name.encode.length = (encodeLabels name.labels).length + 1 := List.length_append
      rw [CString.strlen, ofBytes_encode] at reach
      omega
  · rintro (short | ⟨labelled, room⟩)
    · refine ⟨none, ?_, fun _ => rfl, ?_⟩
      · rw [pack, if_pos short]
      · rintro n after ⟨⟩
    · obtain ⟨name, rfl⟩ := exists_domainName labelled
      exact packsSafely_of_room name labelled room

/-- The query for "a..b" is not refused, into the buffer of `devent_dns_write`. -/
theorem empty_label_packed :
    ¬PacksSafely zeroed 77 ⟨[97, 46, 46, 98], by decide⟩ (List.replicate 4096 0) typeA := by
  rintro ⟨result, packed, refused, -⟩
  obtain ⟨accepted, -⟩ := pack_reaches (by rw [List.length_replicate]; decide) packed
  apply accepted
  apply refused
  intro labelled
  have empty : [] ∈ [(97 : Byte), 46, 46, 98].splitOn dot := by decide
  exact (labelled [] empty).1 rfl

/-- The question then asks for "a". -/
example : pack zeroed 77 ⟨[97, 46, 46, 98], by decide⟩ (List.replicate 24 0) typeA =
    .value (some (19, queryHeader 77 0 ++ [1, 97, 0, 0, 1, 0, 1] ++ List.replicate 5 0)) := by
  decide +kernel

end Devent.Dns
