import Devent.Dns.Records

/-! The address that a lookup connects to: `c_dns_parse_a` on a datagram, then
`c_dns_parse_first_ip`. Nothing of the datagram is compared with what was asked; the first address
record is taken, and four bytes are copied from its block, however long that is. -/
namespace Devent.Dns
open Outcome

/-- `h_addrtype`. -/
inductive AddressFamily where
  | inet
  | inet6
  | unknown

/-- `struct sockaddr_in` and `struct sockaddr_in6`; a port is its two bytes in memory. -/
inductive SocketAddress where
  | inet (addr port : List Byte)
  | inet6 (addr port : List Byte)
  deriving DecidableEq

/-- `c_dns_parse_first_ip` of a host; `none` is the return of -1. An empty table has a NULL first. -/
def parseFirstIp (addrType : AddressFamily) (addrList : List (List Byte)) (port : Nat) :
    Access (Option SocketAddress) :=
  match addrList with
  | [] => return none
  | first :: _ =>
    match addrType with
    | .inet => do
      let addr ← readBytes first 0 4
      return some (.inet addr (htons port))
    | .inet6 => do
      let addr ← readBytes first 0 16
      return some (.inet6 addr (htons port))
    | .unknown => return none

/-- What `devent_dns_read` makes of the host; `c_dns_parse_a` has set its type. -/
def firstIpOf (port : Nat) : Option HostEnt → Access (Option SocketAddress)
  | none => return none
  | some host => parseFirstIp .inet host.addrList port

/-- `devent_dns_read`, from the datagram to the address. -/
def dnsLookup (data : List Byte) (port fuel : Nat) : Access (Option SocketAddress) := do
  let host ← parseA data fuel
  firstIpOf port host

section Layout

variable (data : List Byte)

/-- The answers of a response that is read to its end. -/
structure ReadsAll (i : Int) (records : List Int) : Prop where
  begins : Begins data i
  reads : ∃ j, Reads data i records j
  count : records.length = word data 6

/-- The first address record of the answers. -/
def FirstAddress (rr : Int) : Prop :=
  ∃ i records, ReadsAll data i records ∧ records.find? (IsAddress data) = some rr

/-- The answers have no address record. -/
def Unaddressed : Prop := ∃ i records, ReadsAll data i records ∧ records.find? (IsAddress data) = none

/-- `n` bytes of the message. -/
def octets (i : Int) (n : Nat) : List Byte := (List.range n).map fun (k : Nat) => octet data (i + k)

def rdata (rr : Int) : List Byte := octets data (rr + 10) (rdataLength data rr)

end Layout

variable {data : List Byte} {i rr start : Int} {host host' : HostEnt} {port : Nat}

@[simp] theorem length_octets (i : Int) (n : Nat) : (octets data i n).length = n := by
  rw [octets, List.length_map, List.length_range]

theorem octets_succ (i : Int) (n : Nat) : octets data i (n + 1) = octet data i :: octets data (i + 1) n := by
  have shifted (k : Nat) : octet data (i + 1 + k) = octet data (i + (k + 1 : Nat)) := by
    rw [Nat.cast_add, Nat.cast_one, Int.add_assoc, Int.add_comm 1]
  simp only [octets, List.range_succ_eq_map, List.map_cons, List.map_map, Function.comp_def, shifted]
  rw [Nat.cast_zero, Int.add_zero]

theorem readBytes_octets {i : Int} {n : Nat} (inside : Span data i n) :
    readBytes data i n = .value (octets data i n) := by
  induction n generalizing i with
  | zero => rfl
  | succ n ih =>
    obtain ⟨first, later⟩ := span_succ_iff.mp inside
    rw [octets_succ, readBytes, read_inside first, value_bind, ih later, value_bind, pure_eq]

theorem octet_octets {i : Int} {n k : Nat} (inside : k < n) : octet (octets data i n) k = octet data (i + k) := by
  have there : (octets data i n)[k]? = some (octet data (i + k)) := by
    rw [octets, List.getElem?_map, List.getElem?_range inside]
    rfl
  rw [octet, byteAt, if_pos (Int.natCast_nonneg k), Int.toNat_natCast, there]
  rfl

/-- What is copied from a block that was copied is copied from the message. -/
theorem octets_octets {i : Int} {m n : Nat} (inside : m ≤ n) : octets (octets data i n) 0 m = octets data i m := by
  apply List.map_congr_left
  intro k member
  rw [Int.zero_add]
  exact octet_octets (Nat.lt_of_lt_of_le (List.mem_range.mp member) inside)

theorem Parsed.addresses (parsed : Parsed data rr host host') :
    host'.addrList = host.addrList ++ ([rr].filter (IsAddress data)).map (rdata data) := by
  cases parsed with
  | address address copied =>
    have inside := readBytes_octets (readBytes_value copied)
    obtain rfl := value.inj (copied.symm.trans inside)
    rw [List.filter_singleton, decide_eq_true address]
    rfl
  | cname cname _ =>
    rw [List.filter_singleton, decide_eq_false cname.not_address]
    exact (List.append_nil _).symm
  | name isName _ _ _ =>
    have notAddress : ¬IsAddress data rr := fun address => address.not_name isName
    rw [List.filter_singleton, decide_eq_false notAddress]
    exact (List.append_nil _).symm

theorem Answered.addresses (answered : Answered data i rr host host') :
    host'.addrList = host.addrList ++ ([rr].filter (IsAddress data)).map (rdata data) := by
  obtain ⟨name, -, -, -, parsed⟩ := answered.parsed
  rw [parsed.addresses, named_addrList]

/-- A run of rounds reads records one after the other, and stores the RDATA of the address records. -/
theorem rounds_addresses {first head : AnswerHead} (run : Relation.ReflTransGen (AnswerRound data) first head) :
    ∃ records, Reads data first.start records head.start ∧ first.left = head.left + records.length ∧
      head.host.addrList = first.host.addrList ++ (records.filter (IsAddress data)).map (rdata data) := by
  induction run with
  | refl => exact ⟨[], .none, rfl, (List.append_nil _).symm⟩
  | tail _ round ih =>
    obtain ⟨records, reads, count, stored⟩ := ih
    obtain @⟨left, start, host, host', size, ended⟩ := round
    obtain ⟨rr, answered, place⟩ := parseAnswer_ends_iff.mp ended
    refine ⟨records ++ [rr], ?_, ?_, ?_⟩
    · rw [place]
      exact reads.snoc answered.recorded answered.passes
    · have count : first.left = left + 1 + records.length := count
      rw [count, List.length_append, List.length_singleton]
      exact Nat.succ_add_eq_add_succ left records.length
    · have stored : host.addrList = first.host.addrList ++ (records.filter (IsAddress data)).map (rdata data) := stored
      rw [answered.addresses, stored, List.filter_append, List.map_append, List.append_assoc]

/-- The records that follow one another are determined by where they start and how many they are. -/
theorem Reads.unique {records records' : List Int} {j j' : Int} (reads : Reads data i records j)
    (reads' : Reads data i records' j') (same : records.length = records'.length) : records = records' := by
  induction reads generalizing records' with
  | none => exact (List.length_eq_zero_iff.mp same.symm).symm
  | @answer i rr rest j recorded _ _ ih =>
    cases reads' with
    | none => cases same
    | @answer _ rr' rest' _ recorded' _ later' =>
      obtain ⟨size, accepted, rfl⟩ := recorded.accepted
      obtain ⟨size', accepted', rfl⟩ := recorded'.accepted
      obtain rfl := accepted.unique accepted'
      rw [ih later' (Nat.succ.inj same)]

/-- The parser has read all answers of the host that it returns. -/
theorem parseA_reads (ended : Ends (parseA data) (.value (some host))) : ∃ i records, ReadsAll data i records ∧
    host.addrList = (records.filter (IsAddress data)).map (rdata data) := by
  obtain ⟨answers, start, stop, begun, run⟩ := parseA_ends_iff.mp ended
  obtain ⟨begins, rfl⟩ := answersStart_ends_iff.mp begun
  obtain ⟨records, reads, count, stored⟩ := rounds_addresses run
  have count : word data 6 = 0 + records.length := count
  rw [Nat.zero_add] at count
  exact ⟨start, records, ⟨begins, ⟨stop, reads⟩, count.symm⟩, stored⟩

/-- The parser returns a host where all answers can be read. -/
theorem ReadsAll.parseA {records : List Int} (reads : ReadsAll data i records) : ∃ host,
    Ends (parseA data) (.value (some host)) ∧ host.addrList = (records.filter (IsAddress data)).map (rdata data) := by
  obtain ⟨j, answers⟩ := reads.reads
  obtain ⟨host, -, run⟩ := reads_rounds answers 0 (AnswerHead.first (word data 6) i).host
  rw [Nat.zero_add, reads.count] at run
  have ended := parseA_ends_iff.mpr ⟨_, i, j, answersStart_ends_iff.mpr ⟨reads.begins, rfl⟩, run⟩
  obtain ⟨records', reads', count, stored⟩ := rounds_addresses run
  have count : word data 6 = 0 + records'.length := count
  have same : records.length = records'.length := by
    rw [reads.count, count, Nat.zero_add]
  rw [← answers.unique reads' same] at stored
  exact ⟨host, ended, stored⟩

/-- The first address record has the four bytes that are copied. -/
def Long (data : List Byte) (rr : Int) : Prop := 4 ≤ rdataLength data rr

theorem span_block {rr : Int} : Span (rdata data rr) 0 4 ↔ Long data rr := by
  rw [Span, Long, rdata, length_octets]
  omega

theorem firstIpOf_long {records : List Int}
    (stored : host.addrList = (records.filter (IsAddress data)).map (rdata data))
    (first : records.find? (IsAddress data) = some rr) (long : Long data rr) :
    firstIpOf port (some host) = .value (some (.inet (octets data (rr + 10) 4) (htons port))) := by
  rw [← List.head?_filter] at first
  obtain ⟨rest, filtered⟩ := List.head?_eq_some_iff.mp first
  rw [firstIpOf, stored, filtered, List.map_cons]
  simp only [parseFirstIp, readBytes_octets (span_block.mpr long), value_bind, pure_eq]
  rw [rdata, octets_octets long]

theorem firstIpOf_short (port : Nat) {records : List Int}
    (stored : host.addrList = (records.filter (IsAddress data)).map (rdata data))
    (first : records.find? (IsAddress data) = some rr) (short : ¬Long data rr) :
    ∃ e, firstIpOf port (some host) = .fault e := by
  rw [← List.head?_filter] at first
  obtain ⟨rest, filtered⟩ := List.head?_eq_some_iff.mp first
  obtain ⟨e, fault⟩ := readBytes_outside (span_block.not.mpr short)
  rw [firstIpOf, stored, filtered, List.map_cons]
  exact ⟨e, by simp only [parseFirstIp, fault, fault_bind]⟩

theorem firstIpOf_none {records : List Int}
    (stored : host.addrList = (records.filter (IsAddress data)).map (rdata data))
    (none : records.find? (IsAddress data) = none) : firstIpOf port (some host) = .value .none := by
  rw [← List.head?_filter, List.head?_eq_none_iff] at none
  rw [firstIpOf, stored, none]
  rfl

theorem contained_of_ends {result : Option HostEnt} (ended : Ends (parseA data) (.value result)) : Contained data := by
  refine (parseA_safe_iff data).mp ((parseA_stable data).never_fault_iff.mpr fun e fault => ?_)
  cases fault.unique ended

theorem not_contained_iff : ¬Contained data ↔ ∃ e, Ends (parseA data) (.fault e) := by
  rw [← parseA_safe_iff, (parseA_stable data).never_fault_iff, not_forall]
  exact exists_congr fun e => not_not

theorem dnsLookup_value_iff {result : Option SocketAddress} : Ends (dnsLookup data port) (.value result) ↔
    ∃ host, Ends (parseA data) (.value host) ∧ firstIpOf port host = .value result := by
  rw [show dnsLookup data port = fun fuel => parseA data fuel >>= firstIpOf port from rfl,
    (parseA_stable data).ends_value_iff fun host => stable_const (firstIpOf port host)]
  exact exists_congr fun host => and_congr_right fun _ => ends_const_iff

theorem dnsLookup_fault_iff : (∃ e, Ends (dnsLookup data port) (.fault e)) ↔
    ¬Contained data ∨ ∃ host e, Ends (parseA data) (.value host) ∧ firstIpOf port host = .fault e := by
  rw [show dnsLookup data port = fun fuel => parseA data fuel >>= firstIpOf port from rfl, not_contained_iff]
  simp only [(parseA_stable data).ends_fault_iff fun host => stable_const (firstIpOf port host), ends_const_iff]
  constructor
  · rintro ⟨e, fault | ⟨host, ended, fault⟩⟩
    · exact .inl ⟨e, fault⟩
    · exact .inr ⟨host, e, ended, fault⟩
  · rintro (⟨e, fault⟩ | ⟨host, e, ended, fault⟩)
    · exact ⟨e, .inl fault⟩
    · exact ⟨e, .inr ⟨host, ended, fault⟩⟩

theorem dnsLookup_stable (data : List Byte) (port : Nat) : Stable (dnsLookup data port) :=
  (parseA_stable data).bind fun host => stable_const (firstIpOf port host)

/-- What is made of a host whose answers have all been read. -/
inductive Found (data : List Byte) (port : Nat) : Access (Option SocketAddress) → Prop
  | address {rr : Int} : FirstAddress data rr → Long data rr →
      Found data port (.value (some (.inet (octets data (rr + 10) 4) (htons port))))
  | short {rr e : Int} : FirstAddress data rr → ¬Long data rr → Found data port (.fault e)
  | none : Unaddressed data → Found data port (.value .none)

theorem ReadsAll.found (port : Nat) {records : List Int} (reads : ReadsAll data i records)
    (stored : host.addrList = (records.filter (IsAddress data)).map (rdata data)) :
    Found data port (firstIpOf port (some host)) := by
  cases first : records.find? (IsAddress data) with
  | none =>
    rw [firstIpOf_none stored first]
    exact .none ⟨i, records, reads, first⟩
  | some rr =>
    by_cases long : Long data rr
    · rw [firstIpOf_long stored first long]
      exact .address ⟨i, records, reads, first⟩ long
    · obtain ⟨e, fault⟩ := firstIpOf_short port stored first long
      rw [fault]
      exact .short ⟨i, records, reads, first⟩ long

theorem found_of_ends (port : Nat) (ended : Ends (parseA data) (.value (some host))) :
    Found data port (firstIpOf port (some host)) := by
  obtain ⟨i, records, reads, stored⟩ := parseA_reads ended
  exact reads.found port stored

theorem lookup_some_iff {address : SocketAddress} : Ends (dnsLookup data port) (.value (some address)) ↔
    ∃ rr, FirstAddress data rr ∧ Long data rr ∧ address = .inet (octets data (rr + 10) 4) (htons port) := by
  rw [dnsLookup_value_iff]
  constructor
  · rintro ⟨_ | host, ended, taken⟩
    · cases taken
    · have found := found_of_ends port ended
      rw [taken] at found
      cases found with
      | address first long => exact ⟨_, first, long, rfl⟩
  · rintro ⟨rr, ⟨i, records, reads, first⟩, long, rfl⟩
    obtain ⟨host, ended, stored⟩ := reads.parseA
    exact ⟨some host, ended, firstIpOf_long stored first long⟩

theorem lookup_none_iff :
    Ends (dnsLookup data port) (.value none) ↔ Contained data ∧ Refused data ∨ Unaddressed data := by
  rw [dnsLookup_value_iff]
  constructor
  · rintro ⟨_ | host, ended, taken⟩
    · have contained := contained_of_ends ended
      exact .inl ⟨contained, (parseA_returns contained).mp ⟨none, ended, rfl⟩⟩
    · have found := found_of_ends port ended
      rw [taken] at found
      cases found with
      | none unaddressed => exact .inr unaddressed
  · rintro (⟨contained, refused⟩ | ⟨i, records, reads, none⟩)
    · obtain ⟨_, ended, rfl⟩ := (parseA_returns contained).mpr refused
      exact ⟨none, ended, rfl⟩
    · obtain ⟨host, ended, stored⟩ := reads.parseA
      exact ⟨some host, ended, firstIpOf_none stored none⟩

theorem lookup_fault_iff : (∃ e, Ends (dnsLookup data port) (.fault e)) ↔
    ¬Contained data ∨ ∃ rr, FirstAddress data rr ∧ ¬Long data rr := by
  rw [dnsLookup_fault_iff]
  refine or_congr_right ?_
  constructor
  · rintro ⟨_ | host, e, ended, fault⟩
    · cases fault
    · have found := found_of_ends port ended
      rw [fault] at found
      cases found with
      | short first short => exact ⟨_, first, short⟩
  · rintro ⟨rr, ⟨i, records, reads, first⟩, short⟩
    obtain ⟨host, ended, stored⟩ := reads.parseA
    obtain ⟨e, fault⟩ := firstIpOf_short port stored first short
    exact ⟨some host, e, ended, fault⟩

/-- The lookup reads nothing outside the datagram and the block of the first address, and its tables
keep the NULL that `c_dns_free_hostent` looks for. -/
structure LookupKept (data : List Byte) (port : Nat) : Prop where
  inside : ∀ fuel e, dnsLookup data port fuel ≠ .fault e
  terminated : TablesTerminated data

theorem lookupKept_iff : LookupKept data port ↔
    Contained data ∧ TablesFit data ∧ ∀ rr, FirstAddress data rr → Long data rr := by
  have inside : (∀ fuel e, dnsLookup data port fuel ≠ .fault e) ↔
      Contained data ∧ ∀ rr, FirstAddress data rr → Long data rr := by
    rw [(dnsLookup_stable data port).never_fault_iff, ← not_exists, lookup_fault_iff]
    simp only [not_or, not_not, not_exists, not_and]
  constructor
  · rintro ⟨safe, terminated⟩
    obtain ⟨contained, long⟩ := inside.mp safe
    exact ⟨contained, terminated_iff_fit.mp terminated, long⟩
  · rintro ⟨contained, fit, long⟩
    exact ⟨inside.mpr ⟨contained, long⟩, terminated_iff_fit.mpr fit⟩

theorem LookupKept.of_ends {result : Option SocketAddress} (fit : TablesFit data)
    (ended : Ends (dnsLookup data port) (.value result)) : LookupKept data port := by
  constructor
  · refine (dnsLookup_stable data port).never_fault_iff.mpr fun e fault => ?_
    cases fault.unique ended
  · exact terminated_iff_fit.mpr fit

/-- What a lookup makes of any datagram that keeps it inside its memory: the first address record of a
response whose answers are all read; -1 where the parser refuses the message, or finds no address
record. It stays inside exactly where the layout does, the tables have room for the answers, and the
first address record has the four bytes that are copied. -/
theorem lookup_exact (data : List Byte) (port : Nat) :
    (∀ address, LookupKept data port ∧ Ends (dnsLookup data port) (.value (some address)) ↔
        Contained data ∧ TablesFit data ∧ ∃ rr, FirstAddress data rr ∧ Long data rr ∧
          address = .inet (octets data (rr + 10) 4) (htons port)) ∧
      (LookupKept data port ∧ Ends (dnsLookup data port) (.value none) ↔
        Contained data ∧ TablesFit data ∧ (Refused data ∨ Unaddressed data)) ∧
      (LookupKept data port ↔
        Contained data ∧ TablesFit data ∧ ∀ rr, FirstAddress data rr → Long data rr) := by
  refine ⟨fun address => ?_, ?_, lookupKept_iff⟩
  · rw [lookup_some_iff]
    constructor
    · rintro ⟨kept, found⟩
      obtain ⟨contained, fit, -⟩ := lookupKept_iff.mp kept
      exact ⟨contained, fit, found⟩
    · rintro ⟨-, fit, found⟩
      exact ⟨.of_ends fit (lookup_some_iff.mpr found), found⟩
  · constructor
    · rintro ⟨kept, ended⟩
      obtain ⟨contained, fit, -⟩ := lookupKept_iff.mp kept
      exact ⟨contained, fit, (lookup_none_iff.mp ended).imp_left And.right⟩
    · rintro ⟨contained, fit, nothing⟩
      have ended : Ends (dnsLookup data port) (.value none) :=
        lookup_none_iff.mpr (nothing.imp_left fun refused => ⟨contained, refused⟩)
      exact ⟨.of_ends fit ended, ended⟩

/-- An address record without RDATA, whose block has no bytes. -/
example : dnsLookup ([0, 0, 0x80, 0, 0, 0, 0, 1, 0, 0, 0, 0] ++ rootRecord) 80 2 = .fault 0 := by decide

end Devent.Dns
