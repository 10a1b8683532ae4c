import Devent.Event.Literals

/-! The DNS server of a docket. A text without a colon gets the port 53; what has one is parsed as
it is, so a bare IPv6 address is refused or taken for an IPv4 address with a port. -/
namespace Devent

/-- `sizeof(struct sockaddr_storage)`. -/
def sizeStorage : Nat := 128

/-- The text that is parsed, in an array of four bytes more than the server. -/
def dnsServerText (server : List Byte) : Outcome Nat (List Byte) :=
  let s := if (strstr [58] server).isSome then server else server ++ [58, 53, 51]
  if s.length + 1 ≤ server.length + 4 then .value s else .fault (s.length + 1)

/-- `Docket_set_dns_server`, with `dns_server.address` before and after it. -/
def setDnsServer (inetPton : List Byte → Option (List Byte)) (current : Option SockAddr) (server : CString) :
    Outcome Nat (Option SockAddr × Int) := do
  let s ← dnsServerText server.bytes
  match ← parseAddress inetPton sizeStorage s with
  | none => return (current, -1)
  | some address => return (some address, 0)

/-- The texts that name a server: an IPv4 text, alone or with a port, and a bracketed IPv6 text with
a port. -/
inductive NamesServer (inetPton : List Byte → Option (List Byte)) : List Byte → SockAddr → Prop
  | bare {ip address} : 58 ∉ ip → inetAddr ip = some address → NamesServer inetPton ip (.inet address 53)
  | inet {ip p address port} : 58 ∉ ip → inetAddr ip = some address → inRange (atoi p) = some port →
      NamesServer inetPton (ip ++ 58 :: p) (.inet address port)
  | inet6 {ip p address port} : inetPton ip = some address → (stoi p).bind inRange = some port →
      NamesServer inetPton (91 :: (ip ++ 93 :: 58 :: p)) (.inet6 address port)

/-- What inet_pton reads has colons and no brackets. -/
structure ReadsInet6 (inetPton : List Byte → Option (List Byte)) : Prop where
  colon : ∀ text address, inetPton text = some address → 58 ∈ text
  bracket : ∀ text address, inetPton text = some address → 93 ∉ text

/-- The server is set to the address that the text names, and kept where it names none. -/
structure SetsServer (inetPton : List Byte → Option (List Byte)) (current : Option SockAddr) (server : CString) :
    Prop where
  sets : ∀ address, setDnsServer inetPton current server = .value (some address, 0) ↔
    NamesServer inetPton server.bytes address
  keeps : setDnsServer inetPton current server = .value (current, -1) ↔
    ∀ address, ¬NamesServer inetPton server.bytes address

variable {inetPton : List Byte → Option (List Byte)} {text ip p rest : List Byte} {address : SockAddr}

theorem strstr_colon_none : strstr [58] text = none ↔ 58 ∉ text := by
  constructor
  · intro missing member
    obtain ⟨ip, rest, rfl, colonless⟩ := List.eq_append_cons_of_mem member
    have cut : strstr [58] (ip ++ 58 :: rest) = some (ip, 58 :: rest) := strstr_first colonless
    rw [cut] at missing
    cases missing
  · intro colonless
    cases cut : strstr [58] text with
    | none => rfl
    | some parts =>
      obtain ⟨whole, found⟩ := strstr_append cut
      refine absurd ?_ colonless
      rw [whole]
      exact List.mem_append_right _ (found.subset List.mem_cons_self)

/-- The array holds the text. -/
theorem dnsServerText_eq (server : List Byte) :
    dnsServerText server = .value (if 58 ∈ server then server else server ++ [58, 53, 51]) := by
  by_cases colon : 58 ∈ server
  · have cut : (strstr [58] server).isSome = true := by
      rw [Option.isSome_iff_ne_none, Ne, strstr_colon_none, not_not]
      exact colon
    simp only [dnsServerText, if_pos colon, if_pos cut]
    exact if_pos (by omega)
  · have cut : ¬(strstr [58] server).isSome = true := by
      rw [strstr_colon_none.mpr colon]
      exact Bool.noConfusion
    simp only [dnsServerText, if_neg colon, if_neg cut]
    exact if_pos (by rw [List.length_append, List.length_cons, List.length_cons, List.length_singleton])

theorem port_dns : inRange (atoi [53, 51]) = some 53 := by decide

/-- A bracketed text is read up to its first "]:". -/
theorem parseAddress_bracket (reads : ReadsInet6 inetPton) : parseAddress inetPton sizeStorage (91 :: rest) =
    .value (some address) ↔ ∃ ip p address' port, rest = ip ++ 93 :: 58 :: p ∧ inetPton ip = some address' ∧
      (stoi p).bind inRange = some port ∧ address = .inet6 address' port := by
  have room : SockAddr.endAddr6 ≤ sizeStorage := by decide
  constructor
  · intro parsed
    cases cut : strstr [93, 58] rest with
    | none =>
      rw [parseAddress, if_neg (by decide), if_pos (by rfl), List.tail_cons, cut] at parsed
      cases parsed
    | some parts =>
      obtain ⟨ip, found⟩ := parts
      cases read : inetPton ip with
      | none =>
        rw [parseAddress, if_neg (by decide), if_pos (by rfl), List.tail_cons, cut] at parsed
        simp only [read] at parsed
        cases parsed
      | some address' =>
        obtain ⟨whole, p, rfl⟩ := strstr_append cut
        have bracketed : parseAddress inetPton sizeStorage (91 :: rest) = _ :=
          parseAddress_bracketed room rfl cut read
        rw [bracketed] at parsed
        obtain ⟨port, inside, rfl⟩ := Option.map_eq_some_iff.mp (Outcome.value.inj parsed)
        exact ⟨ip, p, address', port, whole, read, inside, rfl⟩
  · rintro ⟨ip, p, address', port, rfl, read, inside, rfl⟩
    rw [parseAddress_inet6 room read (reads.bracket ip address' read), inside]
    rfl

theorem parseAddress_at_colon (bracketless : (ip ++ 58 :: p).head? ≠ some 91) (colonless : 58 ∉ ip) :
    parseAddress inetPton sizeStorage (ip ++ 58 :: p) = .value (some address) ↔ ∃ address' port,
      inetAddr ip = some address' ∧ inRange (atoi p) = some port ∧ address = .inet address' port := by
  rw [parseAddress_colon (by decide) bracketless colonless, Outcome.value.injEq, Option.bind_eq_some_iff]
  refine exists_congr fun address' => ?_
  rw [Option.map_eq_some_iff]
  constructor
  · rintro ⟨read, port, inside, rfl⟩
    exact ⟨port, read, inside, rfl⟩
  · rintro ⟨port, read, inside, rfl⟩
    exact ⟨read, port, inside, rfl⟩

theorem not_bracketed {n : Nat} (read : inetAddr ip = some n) (behind : List Byte) :
    (ip ++ behind).head? ≠ some 91 := by
  obtain ⟨b, rest, rfl, digit⟩ := inetAddr_head read
  intro same
  obtain rfl := Option.some.inj same
  exact absurd digit (by decide)

/-- Without a colon in it, what stands behind the bracket names nothing. -/
theorem unbracketed (reads : ReadsInet6 inetPton) (colonless : 58 ∉ rest) :
    parseAddress inetPton sizeStorage (91 :: (rest ++ [58, 53, 51])) ≠ .value (some address) := by
  intro parsed
  obtain ⟨ip, p, address', port, whole, read, -, -⟩ := (parseAddress_bracket reads).mp parsed
  obtain ⟨before, behind, rfl, first⟩ := List.eq_append_cons_of_mem (reads.colon ip address' read)
  rw [List.append_assoc, List.cons_append] at whole
  have cut : strstr [58] (rest ++ [58, 53, 51]) = some (rest, [58, 53, 51]) := strstr_first colonless
  have cut' : strstr [58] (before ++ 58 :: (behind ++ 93 :: 58 :: p)) =
      some (before, 58 :: (behind ++ 93 :: 58 :: p)) := strstr_first first
  rw [whole, cut'] at cut
  obtain ⟨-, same⟩ := Prod.mk.inj (Option.some.inj cut)
  have bracket : (93 : Byte) ∈ [53, 51] := by
    rw [← (List.cons.inj same).2]
    exact List.mem_append_right _ List.mem_cons_self
  exact absurd bracket (by decide)

/-- parse_address reads the texts that name a server, and no others. -/
theorem parsed_iff (reads : ReadsInet6 inetPton) (server : List Byte) :
    parseAddress inetPton sizeStorage (if 58 ∈ server then server else server ++ [58, 53, 51]) =
      .value (some address) ↔ NamesServer inetPton server address := by
  constructor
  · intro parsed
    by_cases colon : 58 ∈ server
    · rw [if_pos colon] at parsed
      by_cases bracketed : server.head? = some 91
      · obtain ⟨rest, rfl⟩ := List.head?_eq_some_iff.mp bracketed
        obtain ⟨ip, p, address', port, rfl, read, inside, rfl⟩ := (parseAddress_bracket reads).mp parsed
        exact .inet6 read inside
      · obtain ⟨ip, p, rfl, colonless⟩ := List.eq_append_cons_of_mem colon
        obtain ⟨address', port, read, inside, rfl⟩ := (parseAddress_at_colon bracketed colonless).mp parsed
        exact .inet colonless read inside
    · rw [if_neg colon] at parsed
      by_cases bracketed : server.head? = some 91
      · obtain ⟨rest, rfl⟩ := List.head?_eq_some_iff.mp bracketed
        exact absurd parsed (unbracketed reads (List.not_mem_of_not_mem_cons colon))
      · have plain : (server ++ 58 :: [53, 51]).head? ≠ some 91 := by
          rw [List.head?_append]
          cases server with
          | nil => decide
          | cons b rest => exact bracketed
        obtain ⟨address', port, read, inside, rfl⟩ := (parseAddress_at_colon plain colon).mp parsed
        obtain rfl := Option.some.inj (port_dns.symm.trans inside)
        exact .bare colon read
  · intro names
    cases names with
    | bare colonless read =>
      rw [if_neg colonless]
      exact (parseAddress_at_colon (not_bracketed read _) colonless).mpr ⟨_, 53, read, port_dns, rfl⟩
    | inet colonless read inside =>
      rw [if_pos (List.mem_append_right _ List.mem_cons_self)]
      exact (parseAddress_at_colon (not_bracketed read _) colonless).mpr ⟨_, _, read, inside, rfl⟩
    | inet6 read inside =>
      rw [if_pos (by simp)]
      exact (parseAddress_bracket reads).mpr ⟨_, _, _, _, rfl, read, inside, rfl⟩

/-- In a whole sockaddr_storage nothing is overrun. -/
theorem parseAddress_returns (inetPton : List Byte → Option (List Byte)) (text : List Byte) :
    ∃ parsed, parseAddress inetPton sizeStorage text = .value parsed := by
  rw [parseAddress, if_neg (by decide)]
  split
  · split
    · exact ⟨_, rfl⟩
    · split
      · exact ⟨_, rfl⟩
      · rw [if_neg (by decide)]
        split <;> exact ⟨_, rfl⟩
  · split
    · exact ⟨_, rfl⟩
    · split <;> exact ⟨_, rfl⟩

/-- What is made of the result of parse_address. -/
def serverSet (current : Option SockAddr) : Option SockAddr → Option SockAddr × Int
  | none => (current, -1)
  | some address => (some address, 0)

theorem setDnsServer_eq {parsed current : Option SockAddr} {server : CString}
    (read : parseAddress inetPton sizeStorage
      (if 58 ∈ server.bytes then server.bytes else server.bytes ++ [58, 53, 51]) = .value parsed) :
    setDnsServer inetPton current server = .value (serverSet current parsed) := by
  simp only [setDnsServer, dnsServerText_eq, Outcome.value_bind, read]
  cases parsed <;> rfl

/-- `Docket_set_dns_server` takes the texts that name a server, and no others; its array holds every
text it is given. -/
theorem dns_server_exact (inetPton : List Byte → Option (List Byte)) (reads : ReadsInet6 inetPton)
    (current : Option SockAddr) (server : CString) : SetsServer inetPton current server := by
  have names (address : SockAddr) : _ ↔ NamesServer inetPton server.bytes address :=
    parsed_iff reads server.bytes
  obtain ⟨parsed, read⟩ := parseAddress_returns inetPton
    (if 58 ∈ server.bytes then server.bytes else server.bytes ++ [58, 53, 51])
  rw [read] at names
  constructor
  · intro address
    rw [setDnsServer_eq read, ← names, Outcome.value.injEq, Outcome.value.injEq]
    cases parsed with
    | none => exact iff_of_false (fun same => by cases same) (fun same => by cases same)
    | some found => rw [serverSet, Prod.mk.injEq, and_iff_left rfl]
  · rw [setDnsServer_eq read, Outcome.value.injEq]
    simp only [← names, Outcome.value.injEq]
    cases parsed with
    | none => exact iff_of_true rfl fun address same => by cases same
    | some found => exact iff_of_false (fun same => by cases same) (fun none => none found rfl)

/-- "2001:470::1" is the server 0.0.7.209 at port 470. -/
def bareInet6 : CString := ⟨[50, 48, 48, 49, 58, 52, 55, 48, 58, 58, 49], by decide⟩

theorem loopbackPton_text {text address : List Byte} (read : loopbackPton text = some address) :
    text = loopback6 := by
  rw [loopbackPton] at read
  split at read
  · assumption
  · cases read

theorem loopback_reads : ReadsInet6 loopbackPton where
  colon := by
    intro text address read
    rw [loopbackPton_text read]
    decide
  bracket := by
    intro text address read
    rw [loopbackPton_text read]
    decide

theorem bare_inet6_taken : setDnsServer loopbackPton none bareInet6 = .value (some (.inet 0x07D1 470), 0) := by
  have named : NamesServer loopbackPton ([50, 48, 48, 49] ++ 58 :: [52, 55, 48, 58, 58, 49]) (.inet 0x07D1 470) :=
    .inet (by decide) (by decide +kernel) (by decide +kernel)
  exact ((dns_server_exact loopbackPton loopback_reads none bareInet6).sets _).mpr named

end Devent
