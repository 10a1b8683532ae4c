import Devent.Event.Holdings

/-! Every step leaves each descriptor and each DNS event with the one that has it. -/
namespace Devent.Holdings

variable {held after : Holdings} {fd : Int} {id other dns : Nat} {connected served shaking : Bool}

theorem Owned.free_entry (owned : held.Owned) (closed : held.openFds fd = false) (positive : 0 < fd) :
    held.events fd = none := by
  cases entry : held.events fd with
  | none => rfl
  | some id =>
    obtain ⟨live, same⟩ := owned.entry fd id positive entry
    have opened := (owned.own id live (same ▸ positive)).2
    rw [same, closed] at opened
    cases opened

theorem Owned.unentered (owned : held.Owned) (spare : held.Spare fd) : held.events fd = none :=
  owned.free_entry (owned.apart fd spare.opened) spare.positive

theorem Owned.opens (owned : held.Owned) (closed : held.openFds fd = false) :
    Owned { held with otherFds := Function.update held.otherFds fd true } := by
  refine { owned with apart := fun other opened => ?_ }
  by_cases same : other = fd
  · exact same ▸ closed
  · exact owned.apart other ((Function.update_of_ne same _ _).symm.trans opened)

theorem Owned.shut (owned : held.Owned) (entry : held.events fd = none) : (held.shut fd).Owned := by
  refine { owned with own := fun id live positive => ?_, apart := fun other opened => ?_ }
  · obtain ⟨entered, opened⟩ := owned.own id live positive
    have different : held.fd id ≠ fd := by
      rintro rfl
      rw [entry] at entered
      cases entered
    exact ⟨entered, (Function.update_of_ne different _ _).trans opened⟩
  · have apart := owned.apart other
    simp only [Holdings.shut, Function.update_apply] at opened ⊢
    grind

theorem Owned.allocated (owned : held.Owned) {connected served shaking : Bool} (unbound : fd ≤ 0) :
    (held.allocated fd connected served shaking).Owned := by
  refine ⟨fun id live => ?_, fun other id positive entry => ?_, fun id live positive => ?_, owned.zero, owned.apart⟩
  · have fresh := owned.fresh id
    simp only [Holdings.allocated, Function.update_apply] at live ⊢
    grind
  · have old := owned.entry other id positive entry
    have fresh := owned.fresh id old.1
    simp only [Holdings.allocated, Function.update_apply]
    grind
  · have own := owned.own id
    simp only [Holdings.allocated, Function.update_apply] at live positive ⊢
    grind

theorem Owned.adopted (owned : held.Owned) {connected served shaking : Bool} (spare : held.Spare fd) :
    (held.adopted fd connected served shaking).Owned := by
  have unentered := owned.unentered spare
  have positive := spare.positive
  refine ⟨fun id live => ?_, fun other id above entry => ?_, fun id live above => ?_, ?_, fun other opened => ?_⟩
  · have fresh := owned.fresh id
    simp only [Holdings.adopted, Holdings.allocated, entered, Function.update_apply] at live ⊢
    grind
  · have old := owned.entry other id above
    have fresh := owned.fresh id
    simp only [Holdings.adopted, Holdings.allocated, entered, Function.update_apply] at entry ⊢
    grind
  · have own := owned.own id
    simp only [Holdings.adopted, Holdings.allocated, entered, Function.update_apply] at live above ⊢
    grind
  · exact (Function.update_of_ne (Int.ne_of_lt positive) _ _).trans owned.zero
  · have apart := owned.apart other
    simp only [Holdings.adopted, Holdings.allocated, entered, Function.update_apply] at opened ⊢
    grind

theorem Owned.bound (owned : held.Owned) (spare : held.Spare fd) (live : held.live id = true)
    (unbound : held.fd id = -1) : (held.bound id fd).Owned := by
  have unentered := owned.unentered spare
  have positive := spare.positive
  refine ⟨owned.fresh, fun other found above entry => ?_, fun other alive above => ?_, ?_, fun other opened => ?_⟩
  · have old := owned.entry other found above
    simp only [Holdings.bound, entered, Function.update_apply] at entry ⊢
    grind
  · have own := owned.own other alive
    simp only [Holdings.bound, entered, Function.update_apply] at above ⊢
    grind
  · exact (Function.update_of_ne (Int.ne_of_lt positive) _ _).trans owned.zero
  · have apart := owned.apart other
    simp only [Holdings.bound, entered, Function.update_apply] at opened ⊢
    grind

theorem Owned.detached (owned : held.Owned) (linked : held.Linked dns id) : (held.detached dns id).Owned :=
  { owned.shut (owned.free_entry (owned.apart _ linked.opened) linked.positive) with }

theorem Owned.released (owned : held.Owned) (live : held.live id = true) : (held.released id).Owned := by
  have mine := owned.own id live
  refine ⟨fun other alive => ?_, fun other found above entry => ?_, fun other alive above => ?_, ?_,
    fun other opened => ?_⟩
  · have fresh := owned.fresh other
    simp only [Holdings.released, Function.update_apply] at alive ⊢
    grind
  · have old := owned.entry other found above
    simp only [Holdings.released] at entry ⊢
    split at entry
    · simp only [Function.update_apply] at entry ⊢
      grind
    · simp only [Function.update_apply]
      grind
  · have own := owned.own other
    simp only [Holdings.released, Function.update_apply] at alive above ⊢
    grind
  · have zero := owned.zero
    simp only [Holdings.released]
    split
    · rename_i bound
      exact (Function.update_of_ne (Int.ne_of_lt bound) _ _).trans zero
    · exact zero
  · have apart := owned.apart other opened
    simp only [Holdings.released]
    split
    · simp only [Function.update_apply]
      grind
    · exact apart

theorem Owned.strays (owned : held.Owned) :
    Owned { held with events := Function.update held.events (-1) (some id) } := by
  refine ⟨owned.fresh, fun other found above entry => ?_, fun other alive above => ?_, owned.zero, owned.apart⟩
  · have different : other ≠ -1 := by omega
    exact owned.entry other found above ((Function.update_of_ne different _ _).symm.trans entry)
  · have different : held.fd other ≠ -1 := by
      have := above
      simp only at this
      omega
    obtain ⟨entered, opened⟩ := owned.own other alive above
    exact ⟨(Function.update_of_ne different _ _).trans entered, opened⟩

/-- What a step may leave of a DNS event and its event. -/
structure Undisturbed (held after : Holdings) (dns id : Nat) : Prop where
  heap : after.dnsHeap dns = held.dnsHeap dns
  known : held.nextDns ≤ after.nextDns
  entry : after.dnsEvents (held.dnsHeap dns).dnsFd = held.dnsEvents (held.dnsHeap dns).dnsFd
  opened : held.otherFds (held.dnsHeap dns).dnsFd = true → after.otherFds (held.dnsHeap dns).dnsFd = true
  live : held.live id = true → after.live id = true
  back : after.dnsEvent id = held.dnsEvent id
  fd : after.fd id = held.fd id
  connected : after.connected id = held.connected id

theorem Linked.of_undisturbed (linked : held.Linked dns id) (kept : Undisturbed held after dns id) :
    after.Linked dns id where
  known := Nat.lt_of_lt_of_le linked.known kept.known
  positive := kept.heap ▸ linked.positive
  entry := by
    rw [kept.heap, kept.entry]
    exact linked.entry
  opened := by
    rw [kept.heap]
    exact kept.opened linked.opened
  event := kept.heap ▸ linked.event
  live := kept.live linked.live
  back := kept.back.trans linked.back
  unbound := kept.fd.trans linked.unbound
  unconnected := kept.connected.trans linked.unconnected

/-- Where every DNS event that is left is undisturbed. -/
theorem LookedUp.of_undisturbed (lookedUp : held.LookedUp)
    (entry : ∀ fd dns, after.dnsEvents fd = some dns → held.dnsEvents fd = some dns ∧
      after.dnsHeap dns = held.dnsHeap dns)
    (kept : ∀ dns id, (after.dnsHeap dns).live = true → held.Linked dns id → Undisturbed held after dns id)
    (heap : ∀ dns, (after.dnsHeap dns).live = true → (held.dnsHeap dns).live = true)
    (owner : ∀ id dns, after.live id = true → after.dnsEvent id = some dns →
      held.live id = true ∧ held.dnsEvent id = some dns ∧ after.dnsHeap dns = held.dnsHeap dns) :
    after.LookedUp where
  entry := by
    intro fd dns found
    obtain ⟨before, same⟩ := entry fd dns found
    rw [same]
    exact lookedUp.entry fd dns before
  linked := by
    intro dns live
    obtain ⟨id, linked⟩ := lookedUp.linked dns (heap dns live)
    exact ⟨id, linked.of_undisturbed (kept dns id live linked)⟩
  owner := by
    intro id dns live back
    obtain ⟨before, there, same⟩ := owner id dns live back
    rw [same]
    exact lookedUp.owner id dns before there

/-- A step that leaves the DNS events and their fields alone. -/
theorem LookedUp.keeps (lookedUp : held.LookedUp) (heap : after.dnsHeap = held.dnsHeap)
    (known : after.nextDns = held.nextDns) (events : after.dnsEvents = held.dnsEvents)
    (opened : ∀ dns id, held.Linked dns id → after.otherFds (held.dnsHeap dns).dnsFd = true)
    (kept : ∀ id dns, held.live id = true → held.dnsEvent id = some dns → after.live id = true ∧
      after.dnsEvent id = some dns ∧ after.fd id = held.fd id ∧ after.connected id = held.connected id)
    (owner : ∀ id dns, after.live id = true → after.dnsEvent id = some dns →
      held.live id = true ∧ held.dnsEvent id = some dns) : after.LookedUp := by
  refine lookedUp.of_undisturbed ?_ ?_ ?_ ?_
  · intro fd dns found
    exact ⟨events ▸ found, congrFun heap dns⟩
  · intro dns id _ linked
    obtain ⟨live, back, same, unconnected⟩ := kept id dns linked.live linked.back
    exact ⟨congrFun heap dns, known.ge, congrFun events _, fun _ => opened dns id linked, fun _ => live,
      back.trans linked.back.symm, same, unconnected⟩
  · intro dns live
    exact heap ▸ live
  · intro id dns live back
    obtain ⟨before, there⟩ := owner id dns live back
    exact ⟨before, there, congrFun heap dns⟩

theorem LookedUp.opens (lookedUp : held.LookedUp) :
    LookedUp { held with otherFds := Function.update held.otherFds fd true } := by
  refine lookedUp.keeps rfl rfl rfl ?_ ?_ ?_
  · intro dns id linked
    by_cases same : (held.dnsHeap dns).dnsFd = fd
    · exact same ▸ Function.update_self _ _ _
    · exact (Function.update_of_ne same _ _).trans linked.opened
  · exact fun id dns live back => ⟨live, back, rfl, rfl⟩
  · exact fun id dns live back => ⟨live, back⟩

theorem Linked.apart (linked : held.Linked dns id) (unheld : held.dnsEvents fd = none) :
    (held.dnsHeap dns).dnsFd ≠ fd := by
  rintro rfl
  have entry := linked.entry
  rw [unheld] at entry
  cases entry

theorem LookedUp.shut (lookedUp : held.LookedUp) (unheld : held.dnsEvents fd = none) : (held.shut fd).LookedUp := by
  refine lookedUp.keeps rfl rfl rfl ?_ ?_ ?_
  · intro dns id linked
    exact (Function.update_of_ne (linked.apart unheld) _ _).trans linked.opened
  · exact fun id dns live back => ⟨live, back, rfl, rfl⟩
  · exact fun id dns live back => ⟨live, back⟩

theorem LookedUp.allocated (lookedUp : held.LookedUp) (owned : held.Owned) :
    (held.allocated fd connected served shaking).LookedUp := by
  refine lookedUp.keeps rfl rfl rfl ?_ ?_ ?_
  · exact fun dns id linked => linked.opened
  · intro id dns live back
    have older : id ≠ held.next := Nat.ne_of_lt (owned.fresh id live)
    exact ⟨(Function.update_of_ne older _ _).trans live, (Function.update_of_ne older _ _).trans back,
      Function.update_of_ne older _ _, Function.update_of_ne older _ _⟩
  · intro id dns live back
    simp only [Holdings.allocated, Function.update_apply] at live back
    split at back
    · cases back
    · rename_i older
      exact ⟨(if_neg older).symm.trans live, back⟩

theorem LookedUp.entered (lookedUp : held.LookedUp) (unheld : held.dnsEvents fd = none) :
    (held.entered fd id).LookedUp := by
  refine lookedUp.keeps rfl rfl rfl ?_ ?_ ?_
  · intro dns id linked
    exact (Function.update_of_ne (linked.apart unheld) _ _).trans linked.opened
  · exact fun id dns live back => ⟨live, back, rfl, rfl⟩
  · exact fun id dns live back => ⟨live, back⟩

theorem LookedUp.released (lookedUp : held.LookedUp) (alone : held.dnsEvent id = none) :
    (held.released id).LookedUp := by
  have other {found dns : Nat} (back : held.dnsEvent found = some dns) : found ≠ id := by
    rintro rfl
    rw [alone] at back
    cases back
  refine lookedUp.keeps rfl rfl rfl ?_ ?_ ?_
  · exact fun dns found linked => linked.opened
  · intro found dns live back
    exact ⟨(Function.update_of_ne (other back) _ _).trans live, back, Function.update_of_ne (other back) _ _, rfl⟩
  · intro found dns live back
    exact ⟨(Function.update_of_ne (other back) _ _).symm.trans live, back⟩

theorem Linked.inj {dns' id' : Nat} (linked : held.Linked dns id) (other : held.Linked dns' id')
    (same : (held.dnsHeap dns).dnsFd = (held.dnsHeap dns').dnsFd ∨ id = id') : dns = dns' ∧ id = id' := by
  have dnses : dns = dns' := by
    obtain same | rfl := same
    · exact Option.some.inj (linked.entry.symm.trans (same ▸ other.entry))
    · exact Option.some.inj (linked.back.symm.trans other.back)
  subst dnses
  exact ⟨rfl, Option.some.inj (linked.event.symm.trans other.event)⟩

theorem LookedUp.attached (lookedUp : held.LookedUp) {ssl : Bool} (spare : held.Spare fd) (live : held.live id = true)
    (unbound : held.fd id = -1) (unconnected : held.connected id = false) (alone : held.dnsEvent id = none) :
    (held.attached id fd ssl).LookedUp := by
  have old {dns : Nat} (allocated : (held.dnsHeap dns).live = true) : dns ≠ held.nextDns := by
    obtain ⟨other, linked⟩ := lookedUp.linked dns allocated
    exact Nat.ne_of_lt linked.known
  refine ⟨fun other dns found => ?_, fun dns allocated => ?_, fun other dns alive back => ?_⟩
  · simp only [Holdings.attached, Function.update_apply] at found ⊢
    have before := lookedUp.entry other dns
    have older := @old dns
    grind
  · by_cases same : dns = held.nextDns
    · subst same
      have cell : (held.attached id fd ssl).dnsHeap held.nextDns = ⟨fd, some id, ssl, true⟩ :=
        Function.update_self _ _ _
      refine ⟨id, ?_⟩
      constructor
      · exact Nat.lt_succ_self _
      · exact cell ▸ spare.positive
      · rw [cell]
        exact Function.update_self _ _ _
      · exact cell ▸ spare.opened
      · rw [cell]
      · exact live
      · exact Function.update_self _ _ _
      · exact unbound
      · exact unconnected
    · have before := (congrArg DnsEvent.live (Function.update_of_ne same _ _)).symm.trans allocated
      obtain ⟨other, linked⟩ := lookedUp.linked dns before
      have apart : other ≠ id := by
        rintro rfl
        have back := linked.back
        rw [alone] at back
        cases back
      refine ⟨other, linked.of_undisturbed ⟨Function.update_of_ne same _ _, Nat.le_succ _, ?_, fun opened => opened,
        fun alive => alive, ?_, rfl, rfl⟩⟩
      · exact Function.update_of_ne (linked.apart spare.unheld) _ _
      · exact Function.update_of_ne apart _ _
  · have before := lookedUp.owner other dns alive
    have older := @old dns
    simp only [Holdings.attached, Function.update_apply] at back ⊢
    grind

/-- The rest, once a DNS event is gone. -/
theorem LookedUp.detached (lookedUp : held.LookedUp) (linked : held.Linked dns id) :
    (held.detached dns id).LookedUp := by
  have different {other found : Nat} (there : held.Linked other found) (apart : other ≠ dns) :
      (held.dnsHeap other).dnsFd ≠ (held.dnsHeap dns).dnsFd ∧ found ≠ id :=
    ⟨fun same => apart (there.inj linked (.inl same)).1, fun same => apart (there.inj linked (.inr same)).1⟩
  have lives {other : Nat} (allocated : ((held.detached dns id).dnsHeap other).live = true) :
      other ≠ dns ∧ (held.dnsHeap other).live = true := by
    simp only [Holdings.detached, Function.update_apply] at allocated
    grind
  refine lookedUp.of_undisturbed ?_ ?_ ?_ ?_
  · intro fd other found
    simp only [Holdings.detached, Function.update_apply] at found ⊢
    have before := lookedUp.entry fd other
    grind
  · intro other found allocated there
    obtain ⟨apart, -⟩ := lives allocated
    obtain ⟨fds, ids⟩ := different there apart
    exact ⟨Function.update_of_ne apart _ _, Nat.le_refl _, Function.update_of_ne fds _ _,
      fun opened => (Function.update_of_ne fds _ _).trans opened, fun live => live, Function.update_of_ne ids _ _,
      rfl, rfl⟩
  · intro other allocated
    exact (lives allocated).2
  · intro found other alive back
    have live : held.live found = true := alive
    have before := lookedUp.owner found other live
    have event := linked.event
    simp only [Holdings.detached, Function.update_apply] at back ⊢
    grind

theorem LookedUp.bound (lookedUp : held.LookedUp) (spare : held.Spare fd) (alone : held.dnsEvent id = none) :
    (held.bound id fd).LookedUp := by
  refine lookedUp.keeps rfl rfl rfl ?_ ?_ ?_
  · intro dns found linked
    exact (Function.update_of_ne (linked.apart spare.unheld) _ _).trans linked.opened
  · intro found dns live back
    have other : found ≠ id := by
      rintro rfl
      rw [alone] at back
      cases back
    exact ⟨live, back, Function.update_of_ne other _ _, rfl⟩
  · exact fun found dns live back => ⟨live, back⟩

/-- An event whose name is being looked up. -/
theorem LookedUp.back (lookedUp : held.LookedUp) (live : held.live id = true) (there : held.dnsEvent id = some dns) :
    held.Linked dns id := by
  obtain ⟨allocated, event⟩ := lookedUp.owner id dns live there
  obtain ⟨other, linked⟩ := lookedUp.linked dns allocated
  obtain rfl := Option.some.inj (event.symm.trans linked.event)
  exact linked

theorem LookedUp.connects (lookedUp : held.LookedUp) (bound : 0 < held.fd id) :
    LookedUp { held with connected := Function.update held.connected id true } := by
  refine lookedUp.keeps rfl rfl rfl ?_ ?_ ?_
  · exact fun dns found linked => linked.opened
  · intro found dns live back
    have other : found ≠ id := by
      rintro rfl
      have unbound := (lookedUp.back live back).unbound
      omega
    exact ⟨live, back, rfl, Function.update_of_ne other _ _⟩
  · exact fun found dns live back => ⟨live, back⟩

end Devent.Holdings
