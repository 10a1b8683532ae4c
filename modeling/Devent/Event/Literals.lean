import Devent.Dlib.InetAddr
import Devent.Dlib.Ports
import Devent.Event.Ipv4

/-! Which hosts are connected to without DNS. The text that the host is printed into is not always
the address that its classifier has seen: brackets are put around brackets, octal numbers and
texts behind a colon are read anew. -/
namespace Devent

/-- What `DocketEvent_connect` is given, or what `DocketDnsEvent_new` is. -/
inductive Route where
  | direct (address : SockAddr)
  | dns (host : CString) (port : UInt16)

/-- The choice of `DocketEvent_connect_hostname_internal`. -/
def route (resolver : Resolver) (host : CString) (port : UInt16) : Outcome Nat Route := do
  match ← literal resolver host port with
  | some address => return .direct address
  | none => return .dns host port

/-- A dotted quad other than 255.255.255.255, and its address. -/
def Ipv4Literal (host : List Byte) (address : Nat) : Prop :=
  ∃ octets, DottedQuad host octets ∧ octets ≠ [255, 255, 255, 255] ∧ address = joinOctets octets

/-- An IPv6 address in brackets, or as inet_ntop prints it. -/
def Ipv6Literal (inetPton inetNtop : List Byte → Option (List Byte)) (host address : List Byte) : Prop :=
  (∃ text, host = 91 :: (text ++ [93]) ∧ inetPton text = some address) ∨ inetNtop address = some host

/-- Literals are connected to directly, and all other hosts are looked up as they are. -/
structure RoutesLiterals (resolver : Resolver) (inetNtop : List Byte → Option (List Byte)) (host : CString)
    (port : UInt16) : Prop where
  inet : ∀ address, Ipv4Literal host.bytes address →
    route resolver host port = .value (.direct (.inet address port.toNat))
  inet6 : ∀ address, Ipv6Literal resolver.inetPton inetNtop host.bytes address →
    route resolver host port = .value (.direct (.inet6 address port.toNat))
  other : (∀ address, ¬Ipv4Literal host.bytes address) →
    (∀ address, ¬Ipv6Literal resolver.inetPton inetNtop host.bytes address) →
      route resolver host port = .value (.dns host port)

/-- The bytes of `address_` that the host, the port, the colon, the brackets and the NUL take. -/
def literalSize (host : List Byte) (port : UInt16) : Nat :=
  host.length + (printNumber port.toNat).length + if host.head? = some 91 then 4 else 2

/-- What is before the first colon is an address for inet_addr, and atoi finds a port behind it. -/
def ReadAsAddress (text : List Byte) : Prop :=
  ∃ ip rest, text = ip ++ 58 :: rest ∧ 58 ∉ ip ∧ (inetAddr ip).isSome = true ∧ (inRange (atoi rest)).isSome = true

/-- The host is no IPv6 address; what is taken for a literal fits; the numbers of a dotted quad mean
the same to inet_addr; and nothing else that passes for four numbers is read as an address. -/
structure Routable (resolver : Resolver) (inetNtop : List Byte → Option (List Byte)) (host : CString)
    (port : UInt16) : Prop where
  not6 : ∀ address, ¬Ipv6Literal resolver.inetPton inetNtop host.bytes address
  fits : host.bytes.head? = some 91 ∨ LooseQuad host.bytes → literalSize host.bytes port ≤ 1024
  exact : ∀ numbers : List (List Byte), numbers.length = 4 →
    (∀ number ∈ numbers, IsDecimal number ∧ decimalValue number ≤ 255) → host.bytes = [46].intercalate numbers →
      (numbers.map fun number => UInt8.ofNat (decimalValue number)) ≠ [255, 255, 255, 255] →
        ∀ number ∈ numbers, InetExact number
  unread : host.bytes.head? ≠ some 91 → LooseQuad host.bytes → (∀ address, ¬Ipv4Literal host.bytes address) →
    ¬ReadAsAddress (host.bytes ++ 58 :: printNumber port.toNat)

variable {resolver : Resolver} {inetPton inetNtop : List Byte → Option (List Byte)} {host : CString} {port : UInt16}
  {text ip rest : List Byte} {octets : List Byte} {len : Nat}

theorem portOf_printNumber (positive : port ≠ 0) : portOf (printNumber port.toNat) = some port.toNat := by
  obtain ⟨decimal, value⟩ := printNumber_decimal port.toNat
  have nonzero : port.toNat ≠ 0 := fun zero => positive (UInt16.toNat_inj.mp zero)
  have bound := port.toNat_lt
  exact portOf_eq_some_iff.mpr ⟨decimal, by omega, by omega, value⟩

theorem inRange_printNumber (positive : port ≠ 0) : inRange (atoi (printNumber port.toNat)) = some port.toNat := by
  have valid := portOf_printNumber positive
  rw [atoi_port valid, inRange_port valid]

theorem exists_first_colon (text behind : List Byte) :
    ∃ ip rest, text ++ 58 :: behind = ip ++ 58 :: rest ∧ 58 ∉ ip :=
  List.eq_append_cons_of_mem (List.mem_append_right text List.mem_cons_self)

/-- What parse_address makes of a text that is no bracketed one, from its first colon. -/
theorem parseAddress_colon (room : SockAddr.sizeIn ≤ len) (bracketless : (ip ++ 58 :: rest).head? ≠ some 91)
    (colonless : 58 ∉ ip) : parseAddress inetPton len (ip ++ 58 :: rest) =
      .value ((inetAddr ip).bind fun address => (inRange (atoi rest)).map fun port => .inet address port) := by
  have cut : strstr [58] (ip ++ 58 :: rest) = some (ip, 58 :: rest) := strstr_first colonless
  cases read : inetAddr ip with
  | none => simp only [parseAddress, if_neg (Nat.not_lt.mpr room), if_neg bracketless, cut, read, Option.bind_none]
  | some address => rw [parseAddress_plain room bracketless cut read, List.tail_cons, Option.bind_some]

/-- "[%s]:%d" puts a second bracket in front of an address, and inet_pton refuses it. -/
theorem parseAddress_doubled (refuses : ∀ text, text.head? = some 91 → inetPton text = none)
    (bracketed : text.head? = some 91) (rest : List Byte) :
    parseAddress inetPton SockAddr.sizeIn (91 :: text ++ 93 :: 58 :: rest) = .value none := by
  rw [parseAddress, if_neg (by decide), if_pos (by rfl)]
  split
  · rfl
  · rename_i domain portStr cut
    obtain ⟨whole, found, same⟩ := strstr_append cut
    have start : (text ++ 93 :: 58 :: rest).head? = some 91 := by
      rw [List.head?_append, bracketed]
      rfl
    have split : text ++ 93 :: 58 :: rest = domain ++ portStr := whole
    rw [split, ← same] at start
    have inner : domain.head? = some 91 := by
      cases domain with
      | nil => cases start
      | cons b domain => exact start
    rw [refuses domain inner]

theorem literalText_loose (einval : resolver.einval = true) (plain : host.bytes.head? ≠ some 91)
    (loose : LooseQuad host.bytes) :
    literalText resolver host port = some (host.bytes ++ 58 :: printNumber port.toNat) := by
  obtain ⟨octets, loose⟩ := loose
  rw [literalText, if_neg plain, einval, deventParseIpv4_iff.mpr loose]
  rfl

theorem literalText_domain (einval : resolver.einval = true) (plain : host.bytes.head? ≠ some 91)
    (domain : ¬LooseQuad host.bytes) : literalText resolver host port = none := by
  have refused : deventParseIpv4 true 4 host.bytes = none := by
    by_contra accepted
    obtain ⟨octets, read⟩ := Option.ne_none_iff_exists'.mp accepted
    exact domain ⟨octets, deventParseIpv4_iff.mp read⟩
  rw [literalText, if_neg plain, einval, refused]
  rfl

theorem literalText_bracketed (bracketed : host.bytes.head? = some 91) :
    literalText resolver host port = some (91 :: host.bytes ++ 93 :: 58 :: printNumber port.toNat) := by
  rw [literalText, if_pos bracketed]

theorem literalText_size (printed : literalText resolver host port = some text) :
    text.length + 1 = literalSize host.bytes port := by
  rw [literalText] at printed
  rw [literalSize]
  by_cases bracketed : host.bytes.head? = some 91
  · rw [if_pos bracketed] at printed ⊢
    cases printed
    simp only [List.length_append, List.length_cons]
    omega
  · rw [if_neg bracketed] at printed ⊢
    split at printed
    · cases printed
      simp only [List.length_append, List.length_cons]
      omega
    · cases printed

/-- A text that is too long overruns `address_`. -/
theorem literal_text (printed : literalText resolver host port = some text) :
    literal resolver host port = if 1024 < literalSize host.bytes port then .fault (literalSize host.bytes port)
      else parseAddress resolver.inetPton SockAddr.sizeIn text := by
  rw [literal, printed, ← literalText_size printed]

theorem route_eq {address : Option SockAddr} (read : literal resolver host port = .value address) :
    route resolver host port = .value (address.elim (.dns host port) .direct) := by
  rw [route, read]
  cases address <;> rfl

theorem route_overrun (einval : resolver.einval = true) (taken : host.bytes.head? = some 91 ∨ LooseQuad host.bytes)
    (long : 1024 < literalSize host.bytes port) :
    route resolver host port = .fault (literalSize host.bytes port) := by
  have printed : ∃ text, literalText resolver host port = some text := by
    by_cases bracketed : host.bytes.head? = some 91
    · exact ⟨_, literalText_bracketed bracketed⟩
    · exact ⟨_, literalText_loose einval bracketed (taken.resolve_left bracketed)⟩
  obtain ⟨text, printed⟩ := printed
  rw [route, literal_text printed, if_pos long]
  rfl

theorem route_bracketed (refuses : ∀ text, text.head? = some 91 → resolver.inetPton text = none)
    (bracketed : host.bytes.head? = some 91) (fits : literalSize host.bytes port ≤ 1024) :
    route resolver host port = .value (.dns host port) := by
  have read : literal resolver host port = _ := literal_text (literalText_bracketed bracketed)
  rw [if_neg (Nat.not_lt.mpr fits), parseAddress_doubled refuses bracketed] at read
  exact route_eq read

theorem route_domain (einval : resolver.einval = true) (plain : host.bytes.head? ≠ some 91)
    (domain : ¬LooseQuad host.bytes) : route resolver host port = .value (.dns host port) := by
  have read : literal resolver host port = .value none := by rw [literal, literalText_domain einval plain domain]
  exact route_eq read

/-- What passes for four numbers is read anew, up to its first colon and from there. -/
theorem route_loose (einval : resolver.einval = true) (plain : host.bytes.head? ≠ some 91)
    (loose : LooseQuad host.bytes) (fits : literalSize host.bytes port ≤ 1024)
    (split : host.bytes ++ 58 :: printNumber port.toNat = ip ++ 58 :: rest) (colonless : 58 ∉ ip) :
    route resolver host port = .value (((inetAddr ip).bind fun address =>
      (inRange (atoi rest)).map fun port => SockAddr.inet address port).elim (.dns host port) .direct) := by
  have bracketless : (ip ++ 58 :: rest).head? ≠ some 91 := by
    rw [← split]
    cases text : host.bytes with
    | nil => simp
    | cons b text =>
      rw [text] at plain
      exact plain
  have read : literal resolver host port = _ := literal_text (literalText_loose einval plain loose)
  rw [if_neg (Nat.not_lt.mpr fits), split, parseAddress_colon (Nat.le_refl _) bracketless colonless] at read
  exact route_eq read

/-- No host is connected to as an IPv6 address. -/
theorem route_not_inet6 (einval : resolver.einval = true)
    (refuses : ∀ text, text.head? = some 91 → resolver.inetPton text = none) (address : List Byte) (n : Nat) :
    route resolver host port ≠ .value (.direct (.inet6 address n)) := by
  by_cases taken : host.bytes.head? = some 91 ∨ LooseQuad host.bytes
  · by_cases fits : literalSize host.bytes port ≤ 1024
    · by_cases bracketed : host.bytes.head? = some 91
      · rw [route_bracketed refuses bracketed fits]
        rintro ⟨⟩
      · obtain ⟨ip, rest, split, colonless⟩ := exists_first_colon host.bytes (printNumber port.toNat)
        rw [route_loose einval bracketed (taken.resolve_left bracketed) fits split colonless]
        cases inetAddr ip with
        | none => rintro ⟨⟩
        | some address =>
          cases inRange (atoi rest) with
          | none => rintro ⟨⟩
          | some port => rintro ⟨⟩
    · rw [route_overrun einval taken (Nat.not_le.mp fits)]
      rintro ⟨⟩
  · obtain ⟨plain, domain⟩ := not_or.mp taken
    rw [route_domain einval plain domain]
    rintro ⟨⟩

theorem DottedQuad.bytes {quad : List Byte} (dotted : DottedQuad quad octets) :
    ∀ b ∈ quad, b = 46 ∨ 48 ≤ b ∧ b ≤ 57 := by
  obtain ⟨numbers, four, small, rfl, -⟩ := dotted
  obtain ⟨first, second, third, fourth, rfl⟩ := List.length_eq_four.mp four
  simp only [List.forall_mem_cons] at small
  intro b member
  simp only [intercalate_cons, intercalate_singleton, List.mem_append, List.mem_cons, List.append_nil] at member
  obtain member | dot | member | dot | member | dot | member := member
  · exact .inr (small.1.1.2 b member)
  · exact .inl dot
  · exact .inr (small.2.1.1.2 b member)
  · exact .inl dot
  · exact .inr (small.2.2.1.1.2 b member)
  · exact .inl dot
  · exact .inr (small.2.2.2.1.1.2 b member)

theorem DottedQuad.plain {quad : List Byte} (dotted : DottedQuad quad octets) : quad.head? ≠ some 91 := by
  intro bracket
  exact absurd (dotted.bytes 91 (List.mem_of_head? bracket)) (by decide)

theorem DottedQuad.colonless {quad : List Byte} (dotted : DottedQuad quad octets) : 58 ∉ quad := by
  intro colon
  exact absurd (dotted.bytes 58 colon) (by decide)

/-- INADDR_NONE is the one address 255.255.255.255. -/
theorem joinOctets_ne (four : octets.length = 4) (other : octets ≠ [255, 255, 255, 255]) :
    joinOctets octets ≠ 2 ^ 32 - 1 := by
  obtain ⟨a, b, c, d, rfl⟩ := List.length_eq_four.mp four
  intro all
  have a' := a.toNat_lt
  have b' := b.toNat_lt
  have c' := c.toNat_lt
  have d' := d.toNat_lt
  simp only [joinOctets, List.foldl_cons, List.foldl_nil] at all
  have full (octet : Byte) (same : octet.toNat = 255) : octet = 255 := UInt8.toNat_inj.mp same
  apply other
  rw [full a (by omega), full b (by omega), full c (by omega), full d (by omega)]

theorem elim_direct_iff (address : Nat) (read : Option Nat) : (Outcome.value ((read.map fun address' =>
    SockAddr.inet address' port.toNat).elim (.dns host port) .direct) : Outcome Nat Route) =
      .value (.direct (.inet address port.toNat)) ↔ read = some address := by
  cases read with
  | none => exact iff_of_false (fun same => by cases same) (fun same => by cases same)
  | some address' =>
    constructor
    · intro same
      rw [(SockAddr.inet.inj (Route.direct.inj (Outcome.value.inj same))).1]
    · intro same
      rw [Option.some.inj same]
      rfl

/-- A dotted quad that fits is connected to as its octets exactly where its numbers are exact. -/
theorem route_quad_iff (einval : resolver.einval = true) (positive : port ≠ 0) {numbers : List (List Byte)}
    (four : numbers.length = 4) (small : ∀ number ∈ numbers, IsDecimal number ∧ decimalValue number ≤ 255)
    (text : host.bytes = [46].intercalate numbers)
    (other : (numbers.map fun number => UInt8.ofNat (decimalValue number)) ≠ [255, 255, 255, 255])
    (fits : literalSize host.bytes port ≤ 1024) :
    route resolver host port = .value (.direct
        (.inet (joinOctets (numbers.map fun number => UInt8.ofNat (decimalValue number))) port.toNat)) ↔
      ∀ number ∈ numbers, InetExact number := by
  have dotted : DottedQuad host.bytes _ := ⟨numbers, four, small, text, rfl⟩
  have address := joinOctets_ne (by rw [List.length_map, four]) other
  have read : route resolver host port = .value (((inetAddr host.bytes).map fun address =>
      SockAddr.inet address port.toNat).elim (.dns host port) .direct) := by
    rw [route_loose einval dotted.plain ⟨_, dotted.loose⟩ fits rfl dotted.colonless, inRange_printNumber positive]
    cases inetAddr host.bytes <;> rfl
  rw [read, elim_direct_iff, ← inetAddr_quad_iff four small address, text]

/-- What passes for four numbers is looked up exactly where it is not read as an address. -/
theorem route_unread_iff (einval : resolver.einval = true) (plain : host.bytes.head? ≠ some 91)
    (loose : LooseQuad host.bytes) (fits : literalSize host.bytes port ≤ 1024) :
    route resolver host port = .value (.dns host port) ↔
      ¬ReadAsAddress (host.bytes ++ 58 :: printNumber port.toNat) := by
  constructor
  · rintro looked ⟨ip, rest, split, colonless, read, ranged⟩
    obtain ⟨address, read⟩ := Option.isSome_iff_exists.mp read
    obtain ⟨port', ranged⟩ := Option.isSome_iff_exists.mp ranged
    rw [route_loose einval plain loose fits split colonless, read, Option.bind_some, ranged] at looked
    cases looked
  · intro unread
    obtain ⟨ip, rest, split, colonless⟩ := exists_first_colon host.bytes (printNumber port.toNat)
    rw [route_loose einval plain loose fits split colonless]
    cases read : inetAddr ip with
    | none => rfl
    | some address =>
      cases ranged : inRange (atoi rest) with
      | none => rfl
      | some port' =>
        refine absurd ⟨ip, rest, split, colonless, ?_, ?_⟩ unread
        · rw [read, Option.isSome_some]
        · rw [ranged, Option.isSome_some]

/-- A host that is routed as its kind does not overrun. -/
theorem RoutesLiterals.fits (routes : RoutesLiterals resolver inetNtop host port) (einval : resolver.einval = true)
    (not6 : ∀ address, ¬Ipv6Literal resolver.inetPton inetNtop host.bytes address)
    (taken : host.bytes.head? = some 91 ∨ LooseQuad host.bytes) : literalSize host.bytes port ≤ 1024 := by
  by_contra long
  have overrun := route_overrun einval taken (Nat.not_le.mp long)
  by_cases ipv4 : ∃ address, Ipv4Literal host.bytes address
  · obtain ⟨address, literal⟩ := ipv4
    rw [routes.inet address literal] at overrun
    cases overrun
  · rw [routes.other (not_exists.mp ipv4) not6] at overrun
    cases overrun

/-- Literals are connected to directly and all other hosts looked up exactly where the host is
routable. -/
theorem routes_literals_iff (resolver : Resolver) (einval : resolver.einval = true)
    (refuses : ∀ text, text.head? = some 91 → resolver.inetPton text = none)
    (inetNtop : List Byte → Option (List Byte)) (host : CString) (port : UInt16) (positive : port ≠ 0) :
    RoutesLiterals resolver inetNtop host port ↔ Routable resolver inetNtop host port := by
  constructor
  · intro routes
    have not6 : ∀ address, ¬Ipv6Literal resolver.inetPton inetNtop host.bytes address :=
      fun address literal => route_not_inet6 einval refuses address port.toNat (routes.inet6 address literal)
    have fits := routes.fits einval not6
    refine ⟨not6, fits, ?_, ?_⟩
    · intro numbers four small text other
      have dotted : DottedQuad host.bytes _ := ⟨numbers, four, small, text, rfl⟩
      apply (route_quad_iff einval positive four small text other (fits (.inr ⟨_, dotted.loose⟩))).mp
      exact routes.inet _ ⟨_, dotted, other, rfl⟩
    · intro plain loose notIpv4
      exact (route_unread_iff einval plain loose (fits (.inr loose))).mp (routes.other notIpv4 not6)
  · intro routable
    refine ⟨?_, ?_, ?_⟩
    · rintro address ⟨octets, dotted, other, rfl⟩
      have fits := routable.fits (.inr ⟨octets, dotted.loose⟩)
      obtain ⟨numbers, four, small, text, rfl⟩ := dotted
      apply (route_quad_iff einval positive four small text other fits).mpr
      exact routable.exact numbers four small text other
    · exact fun address literal => absurd literal (routable.not6 address)
    · intro notIpv4 _
      by_cases bracketed : host.bytes.head? = some 91
      · exact route_bracketed refuses bracketed (routable.fits (.inl bracketed))
      by_cases loose : LooseQuad host.bytes
      · apply (route_unread_iff einval bracketed loose (routable.fits (.inr loose))).mpr
        exact routable.unread bracketed loose notIpv4
      · exact route_domain einval bracketed loose

/-- What comes of a route. -/
def TlsDocket.follow (t : TlsDocket) (ssl : Bool) (fd : Int) (script : TlsScript) : Route → Option Connecting
  | .direct _ => t.connectInternal false script.sslNew fd script.lookup
  | .dns _ _ => t.connectDomain ssl fd script

/-- The call takes its route. -/
theorem connectHostname_route (t : TlsDocket) (ssl : Bool) (fd : Int) (script : TlsScript) :
    t.connectHostname resolver ssl fd host port script =
      route resolver host port >>= fun route => .value (t.follow ssl fd script route) := by
  rw [TlsDocket.connectHostname, route]
  cases literal resolver host port with
  | value address => cases address <;> rfl
  | fault size => rfl
  | running => rfl

/-- inet_pton knows "::1" alone. -/
def loopbackResolver : Resolver := ⟨true, loopbackPton⟩

/-- inet_ntop, at that address. -/
def loopbackNtop (address : List Byte) : Option (List Byte) :=
  if address = List.replicate 15 0 ++ [1] then some loopback6 else none

theorem loopback_refuses (text : List Byte) (bracket : text.head? = some 91) :
    loopbackResolver.inetPton text = none := by
  apply if_neg
  rintro rfl
  cases bracket

theorem mem_intercalate {numbers : List (List Byte)} {number : List Byte} {b : Byte} (member : number ∈ numbers)
    (inside : b ∈ number) : b ∈ [46].intercalate numbers := by
  induction numbers with
  | nil => cases member
  | cons first others ih =>
    cases others with
    | nil =>
      rw [intercalate_singleton, List.append_nil]
      exact List.mem_singleton.mp member ▸ inside
    | cons second others =>
      rw [intercalate_cons, List.mem_append]
      obtain rfl | member := List.mem_cons.mp member
      · exact .inl inside
      · exact .inr (List.mem_cons_of_mem _ (ih member))

/-- "1.2.3.4". -/
def quadHost : CString := ⟨dottedQuad, by decide⟩

theorem quad_routed : RoutesLiterals loopbackResolver loopbackNtop quadHost 443 := by
  have positive : (443 : UInt16) ≠ 0 := by decide
  refine (routes_literals_iff loopbackResolver rfl loopback_refuses loopbackNtop quadHost 443 positive).mpr ?_
  refine ⟨?_, ?_, ?_, ?_⟩
  · rintro address (⟨text, same, -⟩ | printed)
    · cases same
    · rw [loopbackNtop] at printed
      split at printed <;> cases printed
  · intro _
    decide +kernel
  · intro numbers _ _ text _ number member zero
    have inside := mem_intercalate member (List.mem_of_head? zero)
    rw [← text] at inside
    exact absurd inside (by decide)
  · intro _ _ notIpv4
    have dotted : DottedQuad quadHost.bytes [1, 2, 3, 4] :=
      ⟨[[49], [50], [51], [52]], rfl, by decide +kernel, rfl, rfl⟩
    exact absurd ⟨_, dotted, by decide, rfl⟩ (notIpv4 _)

/-- "[::1]". -/
def bracketedHost : CString := ⟨91 :: (loopback6 ++ [93]), by decide⟩

/-- "::1", as inet_ntop prints it. -/
def printedHost : CString := ⟨loopback6, by decide⟩

theorem loopback_looked_up : ¬RoutesLiterals loopbackResolver loopbackNtop bracketedHost 80 ∧
    ¬RoutesLiterals loopbackResolver loopbackNtop printedHost 80 := by
  constructor
  · intro routes
    have direct := routes.inet6 (List.replicate 15 0 ++ [1]) (.inl ⟨loopback6, rfl, rfl⟩)
    have fits : literalSize bracketedHost.bytes 80 ≤ 1024 := by decide +kernel
    rw [route_bracketed loopback_refuses rfl fits] at direct
    cases direct
  · intro routes
    have direct := routes.inet6 (List.replicate 15 0 ++ [1]) (.inr rfl)
    have domain : ¬LooseQuad printedHost.bytes := by
      rintro ⟨octets, loose⟩
      have refused : deventParseIpv4 true 4 printedHost.bytes = none := by decide +kernel
      rw [deventParseIpv4_iff.mpr loose] at refused
      cases refused
    rw [route_domain rfl (by decide) domain] at direct
    cases direct

end Devent
