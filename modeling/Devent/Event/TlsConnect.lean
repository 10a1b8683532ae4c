import Devent.Event.Tls
import Devent.Event.WakeUp

/-! Which TLS fields a connect on a descriptor leaves, and that an event keeps its SSL object. -/
namespace Devent

namespace DocketEvent

variable {before after : DocketEvent} {b : Bool}

def SslIs (b : Bool) (event : DocketEvent) : Prop := event.ssl = b

theorem Keeps.sslIs (kept : ∀ Q, Keeps (Linked Q) before after) : Keeps (SslIs b) before after :=
  kept fun ssl _ => ssl = b

theorem doSslHandshake_sslIs {handshake : Handshake} {ready : Bool}
    (shaken : before.doSslHandshake handshake = some (after, ready)) : Keeps (SslIs b) before after := by
  unfold doSslHandshake at shaken
  split at shaken
  · cases handshake with
    | pending =>
      cases shaken
      exact .refl _
    | failed onEvent =>
      obtain ⟨closed, closes, shaken⟩ := Option.bind_eq_some_iff.mp shaken
      cases shaken
      exact .of_closed (closeInternal_closed closes)
    | done listener =>
      obtain ⟨middle, called, shaken⟩ := Option.bind_eq_some_iff.mp shaken
      have keep : Callback.Keep (SslIs b) (performAll listener) := fun _ _ called =>
        Keeps.sslIs fun _ => performAll_linked listener called
      have kept := call_keeps keep called
      split at shaken
      · cases shaken
        exact fun opened => kept opened
      · cases shaken
  · cases shaken
    exact .refl _

theorem onEventWrite_sslIs {handshake : Handshake} {script : Flush}
    (written : before.onEventWrite handshake script = some after) : Keeps (SslIs b) before after := by
  obtain ⟨⟨ready, go⟩, shaken, written⟩ := Option.bind_eq_some_iff.mp written
  have shook := doSslHandshake_sslIs (b := b) shaken
  have first : Keeps (SslIs b) before ready := fun opened => shook opened
  cases go with
  | false =>
    cases written
    exact first
  | true =>
    simp only [if_true] at written
    split at written
    · cases written
      exact fun opened => first opened
    · have flushed : Keeps (SslIs b) (ready.setWrite true) after := Keeps.sslIs fun _ => flush_linked written
      have second : Keeps (SslIs b) ready after := fun opened => flushed opened
      exact first.trans second

theorem onEventRead_sslIs {handshake : Handshake} {reads : List (ReadResult × List EventCall)}
    {onRead : List EventCall} {script : Flush}
    (read : before.onEventRead handshake reads onRead script = some after) : Keeps (SslIs b) before after := by
  unfold onEventRead at read
  simp only at read
  split at read
  · obtain ⟨⟨ready, go⟩, shaken, read⟩ := Option.bind_eq_some_iff.mp read
    have shook := doSslHandshake_sslIs (b := b) shaken
    have first : Keeps (SslIs b) before ready := fun opened => shook opened
    cases go with
    | false =>
      cases read
      exact first
    | true =>
      obtain ⟨⟨final, last⟩, looped, read⟩ := Option.bind_eq_some_iff.mp read
      have second : Keeps (SslIs b) ready final := Keeps.sslIs fun _ => readLoop_linked looped
      cases last with
      | none =>
        cases read
        exact first.trans second
      | some result =>
        simp only at read
        split at read
        · have flushed : Keeps (SslIs b) (final.setWrite true) after := Keeps.sslIs fun _ => flush_linked read
          have third : Keeps (SslIs b) final after := fun opened => flushed opened
          exact first.trans (second.trans third)
        · exact .of_closed (endOfStream_closed read)
  · cases read
    exact fun opened => ⟨opened, id⟩

theorem step_sslIs {input : EventInput} {out : Unit} (taken : step before input = some (after, out)) :
    Keeps (SslIs b) before after := by
  rw [step] at taken
  split at taken
  · obtain ⟨next, handled, same⟩ := Option.map_eq_some_iff.mp taken
    cases same
    cases input with
    | call call => exact Keeps.sslIs fun _ => perform_linked call handled
    | readable handshake reads onRead flush => exact onEventRead_sslIs handled
    | writable handshake flush => exact onEventWrite_sslIs handled
  · cases taken

theorem run_sslIs {inputs : List EventInput} {outs : List Unit}
    (path : Run.run step before inputs = some (after, outs)) : Keeps (SslIs b) before after := by
  induction inputs generalizing before outs with
  | nil =>
    cases path
    exact .refl _
  | cons input rest ih =>
    obtain ⟨next, out, tail, taken, path, -⟩ := Run.run_cons_iff.mp path
    exact (step_sslIs taken).trans (ih path)

end DocketEvent

theorem Tls.protects_iff {tls : Tls} : tls.Protects ↔ tls = ⟨true, true⟩ := by
  constructor
  · exact Protects.pending
  · rintro rfl
    refine ⟨rfl, fun event ssl _ inputs last outs path opened => ?_⟩
    exact (DocketEvent.run_sslIs path opened).2 ssl

namespace TlsDocket

variable {t : TlsDocket} {ssl sslNew : Bool} {fd dnsFd : Int} {lookup : Lookup} {id : Nat}

/-- The TLS fields aside, events are looked up and made as before. -/
theorem ensureEvent_docket (t : TlsDocket) (fd : Int) :
    (t.ensureEvent fd).1.docket = t.docket.ensureEvent fd := by
  rw [ensureEvent, DnsDocket.ensureEvent]
  cases t.docket.findEvent fd <;> rfl

theorem connectFd_docket (t : TlsDocket) (ssl sslNew : Bool) (fd : Int) (lookup : Lookup) :
    (t.connectFd ssl sslNew fd lookup).docket.docket = t.docket.connectFd fd lookup := by
  have ensured := ensureEvent_docket t fd
  rw [connectFd, DnsDocket.connectFd]
  split
  · rfl
  · split
    · rfl
    · cases registered : lookup.registered with
      | false => exact ensured
      | true => cases ssl <;> exact congrArg (fun docket => DnsDocket.watch docket fd) ensured

theorem connectInternal_docket (t : TlsDocket) (ssl sslNew : Bool) (fd : Int) (lookup : Lookup) :
    (t.connectInternal ssl sslNew fd lookup).map (fun result => result.docket.docket) =
      t.docket.connectInternal fd lookup := by
  rw [connectInternal, DnsDocket.connectInternal]
  split
  · cases t.docket.opens lookup.newFd with
    | none => rfl
    | some docket =>
      cases lookup.newFd with
      | none => rfl
      | some newFd => exact congrArg some (connectFd_docket ..)
  · exact congrArg some (connectFd_docket ..)

/-- The reply is dealt with as before. -/
theorem dnsRead_docket (t : TlsDocket) (dnsFd : Int) (id : Nat) (lookup : Lookup) (sslNew : Bool) :
    (t.dnsRead dnsFd id lookup sslNew).map (fun result => result.docket.docket) =
      t.docket.dnsRead dnsFd id lookup := by
  rw [dnsRead, DnsDocket.dnsRead_eq]
  split
  · rfl
  · cases t.docket.giveSocket id lookup with
    | none => rfl
    | some docket =>
      have connected := connectInternal_docket { t with docket := docket } (t.eventSsl dnsFd) sslNew
        (docket.heap id).fd lookup
      simp only [Option.bind_eq_bind, Option.bind_some, ← connected]
      cases connectInternal { t with docket := docket } (t.eventSsl dnsFd) sslNew (docket.heap id).fd lookup <;> rfl

theorem ensureEvent_cases (t : TlsDocket) (fd : Int) :
    (∃ id, t.docket.findEvent fd = some id ∧ t.ensureEvent fd = (t, id)) ∨
      t.docket.findEvent fd = none ∧ (t.ensureEvent fd).2 = t.docket.next ∧
        (t.ensureEvent fd).1.tls = Function.update t.tls t.docket.next Tls.clear ∧
        ((t.ensureEvent fd).1.docket.heap t.docket.next).fd = fd ∧
        (t.ensureEvent fd).1.docket.next = t.docket.next + 1 := by
  rw [ensureEvent]
  split
  · rename_i missing
    have made : ((t.newEvent ⟨fd, false, false, true⟩).docket.heap t.docket.next) = ⟨fd, false, false, true⟩ :=
      Function.update_self ..
    exact .inr ⟨missing, rfl, rfl, congrArg Peer.fd made, rfl⟩
  · rename_i id found
    exact .inl ⟨id, found, rfl⟩

/-- What `DocketEvent_connect_internal` returns for its descriptor, and the TLS fields behind it. -/
theorem connectFd_cases (t : TlsDocket) (ssl sslNew : Bool) (fd : Int) (lookup : Lookup) :
    ¬lookup.Begins ∧ (∃ docket, docket.heap = t.docket.heap ∧ docket.next = t.docket.next ∧
        t.connectFd ssl sslNew fd lookup = ⟨{ t with docket := docket }, none, none⟩) ∨
      lookup.Begins ∧ (lookup.registered = false ∧
          t.connectFd ssl sslNew fd lookup = ⟨(t.ensureEvent fd).1, none, some fd⟩ ∨
        lookup.registered = true ∧ t.connectFd ssl sslNew fd lookup =
          ⟨if ssl then ((t.ensureEvent fd).1.watch fd).setSsl (t.ensureEvent fd).2 sslNew
            else (t.ensureEvent fd).1.watch fd, some (t.ensureEvent fd).2, some fd⟩) := by
  rw [connectFd]
  split
  · rename_i blocking
    refine .inl ⟨fun begins => ?_, t.docket, rfl, rfl, rfl⟩
    have nonblocking := begins.1
    rw [blocking] at nonblocking
    cases nonblocking
  · rename_i nonblocking
    split
    · rename_i refused
      exact .inl ⟨fun begins => begins.2 refused, t.docket.close fd, rfl, rfl, rfl⟩
    · rename_i accepted
      refine .inr ⟨⟨Bool.eq_true_of_not_eq_false nonblocking, accepted⟩, ?_⟩
      cases lookup.registered with
      | false => exact .inl ⟨rfl, rfl⟩
      | true => exact .inr ⟨rfl, rfl⟩

theorem not_protects_clear : ¬Tls.clear.Protects := by
  rw [Tls.protects_iff]
  decide

theorem secured_iff {after : TlsDocket} : Connecting.Secured ⟨after, some id, some fd⟩ ↔ after.Covered id fd := by
  constructor
  · exact fun secured => secured id fd rfl rfl
  · rintro covered _ _ ⟨⟩ ⟨⟩
    exact covered

/-- Without TLS, the event has it if it has had it before. -/
theorem connectFd_secured_iff (t : TlsDocket) (sslNew : Bool) (fd : Int) (lookup : Lookup) :
    (t.connectFd false sslNew fd lookup).Secured ↔ (lookup.Begins → lookup.registered = true →
      ∃ id, t.docket.findEvent fd = some id ∧ t.Covered id fd) := by
  obtain ⟨idle, docket, -, -, same⟩ | ⟨begins, ⟨unregistered, same⟩ | ⟨registered, same⟩⟩ :=
    connectFd_cases t false sslNew fd lookup
  · rw [same]
    exact iff_of_true nofun fun begins => absurd begins idle
  · rw [same, unregistered]
    exact iff_of_true nofun nofun
  · rw [same, forall_prop_of_true begins, forall_prop_of_true registered]
    refine secured_iff.trans ?_
    obtain ⟨id, found, ensured⟩ | ⟨missing, made, tls, peer, -⟩ := ensureEvent_cases t fd
    · rw [ensured]
      constructor
      · exact fun covered => ⟨id, found, covered⟩
      · rintro ⟨other, there, covered⟩
        cases found.symm.trans there
        exact covered
    · rw [made]
      refine iff_of_false (fun covered => ?_) fun ⟨id, found, _⟩ => nomatch missing.symm.trans found
      have protects := covered peer
      have clear : (t.ensureEvent fd).1.tls t.docket.next = Tls.clear := by
        rw [tls, Function.update_self]
      exact not_protects_clear (clear ▸ protects)

theorem Plain.refl (t : TlsDocket) : t.Plain t := fun _ known ssl => ⟨known, ssl⟩

theorem Plain.made {before after : TlsDocket} (plain : before.Plain t)
    (tls : after.tls = Function.update t.tls t.docket.next Tls.clear)
    (next : after.docket.next = t.docket.next + 1) : before.Plain after := by
  intro id bound ssl
  rw [tls] at ssl
  rw [next] at bound
  by_cases fresh : id = t.docket.next
  · rw [fresh, Function.update_self] at ssl
    cases ssl
  · rw [Function.update_of_ne fresh] at ssl
    exact plain id (by omega) ssl

theorem Plain.ensureEvent {before : TlsDocket} (plain : before.Plain t) (fd : Int) :
    before.Plain (t.ensureEvent fd).1 := by
  obtain ⟨id, -, ensured⟩ | ⟨-, -, tls, -, next⟩ := ensureEvent_cases t fd
  · rw [ensured]
    exact plain
  · exact plain.made tls next

/-- Without TLS, no event is given an object. -/
theorem Plain.connectFd {before : TlsDocket} (plain : before.Plain t) (sslNew : Bool) (fd : Int)
    (lookup : Lookup) : before.Plain (t.connectFd false sslNew fd lookup).docket := by
  obtain ⟨-, docket, -, next, same⟩ | ⟨-, ⟨-, same⟩ | ⟨-, same⟩⟩ := connectFd_cases t false sslNew fd lookup
  · rw [same]
    exact fun id bound => plain id (next ▸ bound)
  · rw [same]
    exact plain.ensureEvent fd
  · rw [same]
    exact plain.ensureEvent fd

theorem Plain.connectInternal {before : TlsDocket} {result : Connecting} (plain : before.Plain t)
    (connected : t.connectInternal false sslNew fd lookup = some result) : before.Plain result.docket := by
  rw [TlsDocket.connectInternal] at connected
  split at connected
  · obtain ⟨docket, opened, connected⟩ := Option.bind_eq_some_iff.mp connected
    obtain ⟨-, openFds, rfl⟩ := DnsDocket.opens_cases opened
    have reopened : before.Plain { t with docket := { t.docket with openFds := openFds } } := plain
    split at connected
    · cases connected
      exact reopened
    · cases connected
      exact reopened.connectFd _ _ _
  · cases connected
    exact plain.connectFd _ _ _

theorem connectInternal_secured_iff {result : Connecting}
    (connected : t.connectInternal false sslNew fd lookup = some result) :
    result.Secured ↔ t.LiteralCovered fd lookup := by
  rw [TlsDocket.connectInternal] at connected
  rw [LiteralCovered]
  split at connected
  · obtain ⟨docket, opened, connected⟩ := Option.bind_eq_some_iff.mp connected
    obtain ⟨-, openFds, rfl⟩ := DnsDocket.opens_cases opened
    simp only [if_pos ‹fd = -1›]
    split at connected
    · rename_i missing
      cases connected
      exact iff_of_true nofun fun _ _ d there => nomatch missing.symm.trans there
    · rename_i newFd there
      cases connected
      rw [connectFd_secured_iff, there]
      simp only [Option.some.injEq, forall_eq']
      exact Iff.rfl
  · cases connected
    rw [connectFd_secured_iff]
    simp only [if_neg ‹fd ≠ -1›, Option.some.injEq, forall_eq']

theorem connectFd_covered_iff (known : id < t.docket.next) (ssl sslNew : Bool) (fd : Int) (lookup : Lookup) :
    (∀ d, (t.connectFd ssl sslNew fd lookup).connection = some d →
        (t.connectFd ssl sslNew fd lookup).docket.Covered id d) ↔
      (lookup.Begins → (t.docket.heap id).fd = fd →
        ((t.connectFd ssl sslNew fd lookup).docket.tls id).Protects) := by
  have heap : (t.connectFd ssl sslNew fd lookup).docket.docket.heap id = t.docket.heap id := by
    rw [connectFd_docket]
    exact (DnsDocket.connectFd_frame known fd lookup).heap
  have begun : lookup.Begins ∧ (t.connectFd ssl sslNew fd lookup).connection = some fd ∨
      ¬lookup.Begins ∧ (t.connectFd ssl sslNew fd lookup).connection = none := by
    obtain ⟨idle, docket, -, -, same⟩ | ⟨begins, ⟨-, same⟩ | ⟨-, same⟩⟩ := connectFd_cases t ssl sslNew fd lookup
    · exact .inr ⟨idle, congrArg Connecting.connection same⟩
    · exact .inl ⟨begins, congrArg Connecting.connection same⟩
    · exact .inl ⟨begins, congrArg Connecting.connection same⟩
  obtain ⟨begins, connection⟩ | ⟨idle, connection⟩ := begun
  · rw [connection, forall_prop_of_true begins]
    simp only [Option.some.injEq, forall_eq', Covered, heap]
  · rw [connection]
    exact iff_of_true nofun fun begins => absurd begins idle

/-- The connect leaves alone an event that is not in the table. -/
theorem connectFd_other (known : id < t.docket.next) (absent : t.docket.events fd ≠ some id)
    (ssl sslNew : Bool) (lookup : Lookup) : (t.connectFd ssl sslNew fd lookup).docket.tls id = t.tls id := by
  have ensured : (t.ensureEvent fd).1.tls id = t.tls id ∧ id ≠ (t.ensureEvent fd).2 := by
    obtain ⟨other, found, ensured⟩ | ⟨-, made, tls, -, -⟩ := ensureEvent_cases t fd
    · rw [ensured]
      exact ⟨rfl, fun same => absent (same ▸ found)⟩
    · have different : id ≠ t.docket.next := by omega
      rw [tls, made]
      exact ⟨Function.update_of_ne different .., different⟩
  obtain ⟨-, docket, -, -, same⟩ | ⟨-, ⟨-, same⟩ | ⟨-, same⟩⟩ := connectFd_cases t ssl sslNew fd lookup
  · rw [same]
  · rw [same]
    exact ensured.1
  · rw [same]
    cases ssl with
    | false => exact ensured.1
    | true => exact (Function.update_of_ne ensured.2 ..).trans ensured.1

/-- The event in the table gets its object where the kernel takes the descriptor. -/
theorem connectFd_protects_iff (entry : t.docket.events fd = some id) (clear : t.tls id = Tls.clear)
    (begins : lookup.Begins) (sslNew : Bool) : ((t.connectFd true sslNew fd lookup).docket.tls id).Protects ↔
      lookup.registered = true ∧ sslNew = true := by
  have ensured : t.ensureEvent fd = (t, id) := by
    rw [ensureEvent, DnsDocket.findEvent, entry]
  obtain ⟨idle, -⟩ | ⟨-, ⟨unregistered, same⟩ | ⟨registered, same⟩⟩ := connectFd_cases t true sslNew fd lookup
  · exact absurd begins idle
  · rw [same, unregistered, ensured, clear]
    exact iff_of_false not_protects_clear fun both => Bool.false_ne_true both.1
  · have given : (t.connectFd true sslNew fd lookup).docket.tls id = ⟨sslNew, true⟩ := by
      rw [same, ensured]
      exact Function.update_self ..
    rw [given, registered, Tls.protects_iff, Tls.mk.injEq, and_comm]

end TlsDocket

end Devent
