import Devent.Event.TlsConnect

/-! TLS of a hostname connect: the reply of the DNS server, the two paths, and the docket that they leave. -/
namespace Devent.TlsDocket
open Outcome

variable {t : TlsDocket} {ssl sslNew : Bool} {fd dnsFd : Int} {lookup : Lookup} {id : Nat}

/-- An event that waits for the reply, with what has been asked for it. -/
structure Asked (t : TlsDocket) (id : Nat) (fd dnsFd : Int) (ssl : Bool) : Prop where
  table : t.Known
  known : id < t.docket.next
  peer : (t.docket.heap id).fd = fd
  absent : ∀ other, t.docket.events other ≠ some id
  clear : t.tls id = Tls.clear
  kept : t.eventSsl dnsFd = ssl

/-- A reply with an address, as far as the connect behind it. -/
theorem dnsRead_reached {result : Connecting} (going : lookup.fails = false)
    (read : t.dnsRead dnsFd id lookup sslNew = some result) : ∃ docket middle,
    t.docket.giveSocket id lookup = some docket ∧
      connectInternal { t with docket := docket } (t.eventSsl dnsFd) sslNew (docket.heap id).fd lookup =
        some middle ∧
      result = { middle with
        docket := { middle.docket with docket := middle.docket.docket.freeDnsEvent dnsFd } } := by
  rw [dnsRead, going] at read
  obtain ⟨docket, given, read⟩ := Option.bind_eq_some_iff.mp read
  obtain ⟨middle, connected, read⟩ := Option.bind_eq_some_iff.mp read
  exact ⟨docket, middle, given, connected, (Option.some.inj read).symm⟩

/-- On its own socket the event has TLS where the kernel takes it and there is an object. -/
theorem own_covered_iff (known : id < t.docket.next) (peer : (t.docket.heap id).fd = fd)
    (entry : t.docket.events fd = some id) (clear : t.tls id = Tls.clear) (sslNew : Bool) (lookup : Lookup) :
    (∀ d, (t.connectFd true sslNew fd lookup).connection = some d →
        (t.connectFd true sslNew fd lookup).docket.Covered id d) ↔
      (lookup.Begins → lookup.registered = true ∧ sslNew = true) := by
  rw [connectFd_covered_iff known]
  apply forall_congr'
  intro begins
  rw [forall_prop_of_true peer, connectFd_protects_iff entry clear begins]

/-- An event without a descriptor stays without one, whatever `new_fd` opens. -/
theorem unset_covered {result : Connecting} (known : id < t.docket.next) (peer : (t.docket.heap id).fd = -1)
    (connected : t.connectInternal ssl sslNew (-1) lookup = some result) :
    ∀ d, result.connection = some d → result.docket.Covered id d := by
  rw [connectInternal, if_pos rfl] at connected
  obtain ⟨opened, opens, connected⟩ := Option.bind_eq_some_iff.mp connected
  obtain ⟨fresh, openFds, rfl⟩ := DnsDocket.opens_cases opens
  split at connected
  · cases connected
    intro d absent
    cases absent
  · rename_i newFd there
    cases connected
    apply (connectFd_covered_iff (by exact known) ssl sslNew newFd lookup).mpr
    intro _ same
    have nonneg := (fresh newFd there).1
    have apart : newFd = -1 := same.symm.trans peer
    omega

/-- On a descriptor of the caller another event gets the object. -/
theorem Asked.caller_covered_iff (asked : Asked t id fd dnsFd ssl) (sslNew : Bool) (lookup : Lookup) :
    (∀ d, (t.connectFd ssl sslNew fd lookup).connection = some d →
      (t.connectFd ssl sslNew fd lookup).docket.Covered id d) ↔ ¬lookup.Begins := by
  rw [connectFd_covered_iff asked.known, connectFd_other asked.known (asked.absent fd), asked.clear]
  apply forall_congr'
  intro _
  exact iff_of_false (fun covers => not_protects_clear (covers asked.peer)) not_false

/-- The event of a reply has TLS where its own socket is taken and there is an object. -/
theorem Asked.covered_iff {middle : Connecting} {docket : DnsDocket} (asked : Asked t id fd dnsFd true)
    (given : t.docket.giveSocket id lookup = some docket)
    (connected : connectInternal { t with docket := docket } true sslNew (docket.heap id).fd lookup = some middle) :
    (∀ d, middle.connection = some d → middle.docket.Covered id d) ↔ (lookup.Begins →
      fd = -1 ∧ (lookup.socket.isSome = true → lookup.registered = true ∧ sslNew = true)) := by
  rw [DnsDocket.giveSocket, asked.peer] at given
  split at given
  · rename_i unset
    obtain ⟨opened, opens, given⟩ := Option.bind_eq_some_iff.mp given
    obtain ⟨fresh, openFds, rfl⟩ := DnsDocket.opens_cases opens
    have owned : DnsDocket.Owned t.docket id (lookup.socket.getD (-1)) docket := by
      cases given
      exact DnsDocket.owned_own t.docket openFds id (lookup.socket.getD (-1))
    have known : id < docket.next := owned.next ▸ asked.known
    have peer : (docket.heap id).fd = lookup.socket.getD (-1) := congrArg Peer.fd owned.peer
    have entry := owned.events
    rw [peer] at connected
    rw [and_iff_right unset]
    cases socket : lookup.socket with
    | some fd =>
      rw [socket, Option.getD_some] at peer connected entry
      have nonneg := (fresh fd socket).1
      have own : fd ≠ -1 := by omega
      rw [connectInternal, if_neg own] at connected
      cases connected
      have covered := own_covered_iff (t := { t with docket := docket }) known peer entry asked.clear sslNew lookup
      rw [covered, Option.isSome_some, forall_prop_of_true rfl]
    | none =>
      rw [socket, Option.getD_none] at peer connected
      exact iff_of_true (unset_covered known peer connected) fun _ opened => absurd opened Bool.false_ne_true
  · rename_i caller
    cases given
    rw [connectInternal, asked.peer, if_neg caller] at connected
    cases connected
    rw [asked.caller_covered_iff]
    exact forall_congr' fun _ => (iff_false_intro fun unset => caller unset.1).symm

/-- The reply, with the DNS event freed behind it. -/
theorem Asked.dnsRead_iff {read : Connecting} (asked : Asked t id fd dnsFd true)
    (looked : t.dnsRead dnsFd id lookup sslNew = some read) :
    (∀ d, read.connection = some d → read.docket.Covered id d) ↔ (lookup.fails = false → lookup.Begins →
      fd = -1 ∧ (lookup.socket.isSome = true → lookup.registered = true ∧ sslNew = true)) := by
  cases going : lookup.fails with
  | true =>
    rw [dnsRead, going] at looked
    cases looked
    exact iff_of_true (fun d absent => by cases absent) fun failing => by cases failing
  | false =>
    obtain ⟨docket, middle, given, reached, rfl⟩ := dnsRead_reached going looked
    rw [asked.kept] at reached
    rw [forall_prop_of_true rfl, ← asked.covered_iff given reached]
    simp only [Covered, DnsDocket.freeDnsEvent_heap]

theorem freeDnsEvent_next (docket : DnsDocket) (dnsFd : Int) : (docket.freeDnsEvent dnsFd).next = docket.next := by
  rw [DnsDocket.freeDnsEvent]
  split <;> rfl

theorem failLookup_next (docket : DnsDocket) (dnsFd : Int) (id : Nat) :
    (docket.failLookup dnsFd id).next = docket.next := by
  rw [DnsDocket.failLookup, DnsDocket.notify]
  split <;> exact freeDnsEvent_next docket dnsFd

theorem giveSocket_next {docket after : DnsDocket} (given : docket.giveSocket id lookup = some after) :
    after.next = docket.next := by
  rw [DnsDocket.giveSocket] at given
  split at given
  · obtain ⟨opened, opens, given⟩ := Option.bind_eq_some_iff.mp given
    obtain ⟨-, openFds, rfl⟩ := DnsDocket.opens_cases opens
    cases given
    rfl
  · cases given
    rfl

/-- What the tables hold does not matter. -/
theorem Plain.replace {before : TlsDocket} (plain : before.Plain t) {docket : DnsDocket}
    (next : docket.next = t.docket.next) : before.Plain { t with docket := docket } :=
  fun id bound => plain id (next ▸ bound)

theorem Plain.dnsRead {before : TlsDocket} {result : Connecting} (plain : before.Plain t)
    (kept : t.eventSsl dnsFd = false) (read : t.dnsRead dnsFd id lookup sslNew = some result) :
    before.Plain result.docket := by
  cases going : lookup.fails with
  | true =>
    rw [TlsDocket.dnsRead, going] at read
    cases read
    exact plain.replace (failLookup_next ..)
  | false =>
    obtain ⟨docket, middle, given, connected, rfl⟩ := dnsRead_reached going read
    rw [kept] at connected
    have replaced : before.Plain { t with docket := docket } := plain.replace (giveSocket_next given)
    have reached : before.Plain middle.docket := Plain.connectInternal replaced connected
    exact reached.replace (freeDnsEvent_next ..)

section Allocated

variable {docket after : DnsDocket}

theorem known_same (known : docket.Known) (events : after.events = docket.events) (next : after.next = docket.next) :
    after.Known := by
  intro fd id entry
  rw [events] at entry
  exact next ▸ known fd id entry

theorem known_addEvent (known : docket.Known) (allocated : id < docket.next) : (docket.addEvent id).Known := by
  intro fd other entry
  rw [DnsDocket.addEvent] at entry
  simp only [Function.update_apply] at entry
  split at entry
  · cases entry
    exact allocated
  · exact known fd other entry

theorem known_newEvent (known : docket.Known) (peer : Peer) : (docket.newEvent peer).Known :=
  fun fd id entry => Nat.lt_succ_of_lt (known fd id entry)

theorem known_connectFd (known : docket.Known) (fd : Int) (lookup : Lookup) : (docket.connectFd fd lookup).Known := by
  have ensured : (docket.ensureEvent fd).Known := by
    rw [DnsDocket.ensureEvent]
    split
    · exact known_addEvent (known_newEvent known _) (Nat.lt_succ_self _)
    · exact known
  rw [DnsDocket.connectFd]
  split
  · exact known
  · split
    · exact known
    · split <;> exact ensured

theorem known_connectInternal (known : docket.Known) (connected : docket.connectInternal fd lookup = some after) :
    after.Known := by
  rw [DnsDocket.connectInternal] at connected
  split at connected
  · obtain ⟨opened, opens, connected⟩ := Option.bind_eq_some_iff.mp connected
    obtain ⟨-, openFds, rfl⟩ := DnsDocket.opens_cases opens
    have reopened : DnsDocket.Known { docket with openFds := openFds } := known
    split at connected
    · cases connected
      exact reopened
    · cases connected
      exact known_connectFd reopened _ _
  · cases connected
    exact known_connectFd known _ _

theorem known_failLookup (known : docket.Known) (dnsFd : Int) (id : Nat) : (docket.failLookup dnsFd id).Known := by
  have events : (docket.failLookup dnsFd id).events = docket.events := by
    rw [DnsDocket.failLookup, DnsDocket.notify_events, DnsDocket.freeDnsEvent_events]
  exact known_same known events (failLookup_next ..)

theorem known_dnsRead (known : docket.Known) (allocated : id < docket.next)
    (read : docket.dnsRead dnsFd id lookup = some after) : after.Known := by
  rw [DnsDocket.dnsRead_eq] at read
  split at read
  · cases read
    exact known_failLookup known _ _
  · obtain ⟨given, gives, read⟩ := Option.bind_eq_some_iff.mp read
    obtain ⟨middle, connected, read⟩ := Option.bind_eq_some_iff.mp read
    have supplied : given.Known := by
      rw [DnsDocket.giveSocket] at gives
      split at gives
      · obtain ⟨opened, opens, gives⟩ := Option.bind_eq_some_iff.mp gives
        obtain ⟨-, openFds, rfl⟩ := DnsDocket.opens_cases opens
        cases gives
        exact known_addEvent known allocated
      · cases gives
        exact known
    cases read
    have reached := known_connectInternal supplied connected
    exact known_same reached (DnsDocket.freeDnsEvent_events ..) (freeDnsEvent_next ..)

end Allocated

/-- The DNS path up to the reply: nothing comes of it, or the reply is read for the new event. -/
theorem connectDomain_cases {script : TlsScript} {result : Connecting} (known : t.Known)
    (connected : t.connectDomain ssl fd script = some result) :
    (t.Plain result.docket ∧ result.docket.Known ∧ result.connection = none ∧
        (script.dnsFd.isSome = false ∨ queried script.queries = false)) ∨
      ∃ dnsFd asked read, script.dnsFd = some dnsFd ∧ queried script.queries = true ∧
        Asked asked t.docket.next fd dnsFd ssl ∧ t.Plain asked ∧
        asked.dnsRead dnsFd t.docket.next script.lookup script.sslNew = some read ∧
        result = { read with event := some t.docket.next } := by
  rw [connectDomain] at connected
  cases opened : script.dnsFd with
  | none =>
    rw [opened] at connected
    cases connected
    exact .inl ⟨(Plain.refl t).made rfl rfl, known_newEvent known _, rfl, .inl rfl⟩
  | some dnsFd =>
    rw [opened] at connected
    obtain ⟨docket, begins, connected⟩ := Option.bind_eq_some_iff.mp connected
    have begun := DnsDocket.connectHostname_begun begins
    let asked : TlsDocket := ⟨docket, Function.update t.tls t.docket.next Tls.clear,
      Function.update t.eventSsl dnsFd ssl⟩
    have plain : t.Plain asked := (Plain.refl t).made rfl begun.next
    have table : asked.Known := by
      intro other id entry
      have earlier := known other id (begun.events ▸ entry)
      exact begun.next ▸ Nat.lt_succ_of_lt earlier
    obtain ⟨⟨later, sent⟩, written, connected⟩ := Option.bind_eq_some_iff.mp connected
    obtain ⟨asking, rfl, rfl⟩ | ⟨unasked, rfl, rfl⟩ := DnsDocket.dnsWrites_cases written
    · obtain ⟨read, looked, connected⟩ := Option.bind_eq_some_iff.mp connected
      refine .inr ⟨dnsFd, asked, read, rfl, asking, ?_, plain, looked, (Option.some.inj connected).symm⟩
      refine ⟨table, ?_, congrArg Peer.fd begun.peer, fun other entry => ?_, Function.update_self ..,
        Function.update_self ..⟩
      · exact begun.next ▸ Nat.lt_succ_self _
      · have earlier := known other t.docket.next (begun.events ▸ entry)
        omega
    · cases connected
      exact .inl ⟨plain.replace (failLookup_next ..), known_failLookup table _ _, rfl, .inr unasked⟩

/-- Through DNS, TLS comes with the connection where the event gets a socket of its own. -/
theorem connectDomain_iff {script : TlsScript} {result : Connecting} (known : t.Known)
    (connected : t.connectDomain ssl fd script = some result) :
    (if ssl then result.Secured else t.Plain result.docket) ↔ (ssl = true → script.Covered fd) := by
  obtain ⟨plain, -, none', vain⟩ | ⟨dnsFd, asked, read, opened, asking, waits, plain, looked, rfl⟩ :=
    connectDomain_cases known connected
  · cases ssl with
    | false => exact iff_of_true plain nofun
    | true =>
      refine iff_of_true (fun id fd _ there => nomatch none'.symm.trans there) fun _ given asked => ?_
      obtain missing | unasked := vain
      · exact nomatch missing.symm.trans given
      · exact nomatch unasked.symm.trans asked
  · cases ssl with
    | false =>
      have after : t.Plain read.docket := Plain.dnsRead plain waits.kept looked
      exact iff_of_true after nofun
    | true =>
      have event : Connecting.Secured { read with event := some t.docket.next } ↔
          ∀ d, read.connection = some d → read.docket.Covered t.docket.next d :=
        ⟨fun secured d => secured _ d rfl, fun covered _ d same => Option.some.inj same ▸ covered d⟩
      have reached : script.Covered fd ↔ _ := (forall_prop_of_true (opened ▸ rfl)).trans (forall_prop_of_true asking)
      rw [if_pos rfl, forall_prop_of_true rfl, event, waits.dnsRead_iff looked, reached]

/-- The literal path never asks for TLS. -/
theorem connectLiteral_iff {result : Connecting}
    (connected : t.connectInternal false sslNew fd lookup = some result) (ssl : Bool) :
    (if ssl then result.Secured else t.Plain result.docket) ↔ (ssl = true → t.LiteralCovered fd lookup) := by
  cases ssl with
  | false =>
    have after : t.Plain result.docket := Plain.connectInternal (Plain.refl t) connected
    exact iff_of_true after nofun
  | true =>
    rw [if_pos rfl, forall_prop_of_true rfl]
    exact connectInternal_secured_iff connected

theorem tlsAsRequested_iff {outcome : Option Connecting} (possible : outcome ≠ none) {P : Prop}
    (each : ∀ result, outcome = some result →
      ((if ssl then result.Secured else t.Plain result.docket) ↔ P)) :
    TlsAsRequested t ssl (.value outcome) ↔ P := by
  obtain ⟨result, rfl⟩ := Option.ne_none_iff_exists'.mp possible
  rw [← each result rfl]
  constructor
  · rintro ⟨_, ⟨⟩, requested⟩
    exact requested
  · exact fun requested => ⟨result, rfl, requested⟩

/-- TLS comes of a hostname connect exactly where it is asked for: the host fits in the buffers
and, if TLS is asked for, no literal and no descriptor of the caller gets a connection, and a
socket that DNS leads to is taken by the kernel. -/
theorem connectHostname_tls_iff (t : TlsDocket) (known : t.Known) (resolver : Resolver) (ssl : Bool) (fd : Int)
    (host : CString) (port : UInt16) (script : TlsScript)
    (possible : t.connectHostname resolver ssl fd host port script ≠ .value none) :
    TlsAsRequested t ssl (t.connectHostname resolver ssl fd host port script) ↔
      t.Honours resolver ssl fd host port script := by
  rw [connectHostname] at possible ⊢
  rw [Honours]
  revert possible
  cases literal resolver host port with
  | fault size => exact fun _ => iff_of_false (fun ⟨_, same, _⟩ => nomatch same) id
  | running => exact fun _ => iff_of_false (fun ⟨_, same, _⟩ => nomatch same) id
  | value address =>
    intro possible
    cases address with
    | none =>
      simp only [value_bind, pure_eq] at possible ⊢
      exact tlsAsRequested_iff (fun same => possible (congrArg _ same)) fun _ connected =>
        connectDomain_iff known connected
    | some address =>
      simp only [value_bind, pure_eq] at possible ⊢
      exact tlsAsRequested_iff (fun same => possible (congrArg _ same)) fun _ connected =>
        connectLiteral_iff connected ssl

/-- So the table is as asked for behind any number of hostname connects. -/
theorem connectHostname_known {resolver : Resolver} {host : CString} {port : UInt16} {script : TlsScript}
    {result : Connecting} (known : t.Known)
    (connected : t.connectHostname resolver ssl fd host port script = .value (some result)) :
    result.docket.Known := by
  obtain ⟨address, -, connected⟩ := bind_value_iff.mp connected
  cases address with
  | none =>
    have domain : t.connectDomain ssl fd script = some result := value.inj connected
    obtain ⟨-, table, -⟩ | ⟨dnsFd, asked, read, -, -, waits, -, looked, rfl⟩ := connectDomain_cases known domain
    · exact table
    · have answered := dnsRead_docket asked dnsFd t.docket.next script.lookup script.sslNew
      rw [looked, Option.map_some] at answered
      exact known_dnsRead waits.table waits.known answered.symm
  | some address =>
    have literal : t.connectInternal false script.sslNew fd script.lookup = some result := value.inj connected
    have connected := connectInternal_docket t false script.sslNew fd script.lookup
    rw [literal, Option.map_some] at connected
    exact known_connectInternal known connected.symm

/-- A docket with nothing opened yet. -/
def fresh : TlsDocket := ⟨DnsDocket.fresh, fun _ => Tls.clear, fun _ => false⟩

theorem fresh_known : fresh.Known := nofun

/-- errno tells of a missing number, and no text is an IPv6 address. -/
def plainResolver : Resolver := ⟨true, fun _ => none⟩

/-- Sockets 5 and 6 are handed out, and everything succeeds. -/
def smoothly : TlsScript := ⟨some 5, [.sent], ⟨45, true, true, some 6, some 6, true, .inProgress true, true⟩, true⟩

def domainA : CString := ⟨[97], nul_notMem_a⟩

theorem domain_secured : TlsAsRequested fresh true
    (fresh.connectHostname plainResolver true (-1) domainA 443 smoothly) := by
  have domain : literal plainResolver domainA 443 = .value none := by decide
  have possible : fresh.connectHostname plainResolver true (-1) domainA 443 smoothly ≠ .value none := by
    rw [connectHostname, domain]
    nofun
  have honours : fresh.Honours plainResolver true (-1) domainA 443 smoothly := by
    rw [Honours, domain]
    exact fun _ _ _ _ _ => ⟨rfl, fun _ => ⟨rfl, rfl⟩⟩
  exact (connectHostname_tls_iff fresh fresh_known plainResolver true (-1) domainA 443 smoothly possible).mpr honours

/-- "127.0.0.1". -/
def loopback : CString := ⟨[49, 50, 55, 46, 48, 46, 48, 46, 49], by decide⟩

/-- A literal is connected to without TLS. -/
theorem literal_in_clear : ¬∀ t : TlsDocket, t.Known → ∀ resolver ssl fd host port script,
    t.connectHostname resolver ssl fd host port script ≠ .value none →
      TlsAsRequested t ssl (t.connectHostname resolver ssl fd host port script) := by
  intro claim
  have address : literal plainResolver loopback 443 = .value (some (.inet 2130706433 443)) := by decide +kernel
  have requested := claim fresh fresh_known plainResolver true (-1) loopback 443 smoothly
  rw [connectHostname, address] at requested
  obtain ⟨_, ⟨⟩, secured⟩ := requested nofun
  have pending := (secured 0 6 rfl rfl rfl).pending
  cases pending

end Devent.TlsDocket
