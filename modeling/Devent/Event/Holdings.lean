import Devent.Event.Loop
import Mathlib.Logic.Relation

/-! Who holds what in a docket: descriptors, DNS events, and the announcements that are still to be
made. A step is what the program may do to it, and every step keeps it safe. -/
namespace Devent

/-- `served` is whether an event has a listener, `shaking` whether its handshake is pending. -/
@[ext]
structure Holdings where
  next : Nat
  live : Nat → Bool
  fd : Nat → Int
  connected : Nat → Bool
  served : Nat → Bool
  shaking : Nat → Bool
  events : Int → Option Nat
  openFds : Int → Bool
  otherFds : Int → Bool
  dnsEvent : Nat → Option Nat
  dnsHeap : Nat → DnsEvent
  nextDns : Nat
  dnsEvents : Int → Option Nat
  marks : List Mark

/-- The mark announces the event. -/
def Mark.announces (id : Nat) : Mark → Bool
  | .connected other | .failed other | .accepted other => decide (other = id)
  | .uses _ | .accepting _ => false

namespace Holdings

def announcements (held : Holdings) (id : Nat) : Nat := held.marks.countP (Mark.announces id)

/-- The event is still to be announced. -/
def Waiting (held : Holdings) (id : Nat) : Prop :=
  held.live id = true ∧ (held.connected id = false ∧ 0 < held.fd id ∨ (held.dnsEvent id).isSome = true ∨
    held.served id = true ∧ held.shaking id = true)

/-- A descriptor that is open and that nobody holds. -/
structure Spare (held : Holdings) (fd : Int) : Prop where
  positive : 0 < fd
  opened : held.otherFds fd = true
  unheld : held.dnsEvents fd = none

/-- Every allocated event has its descriptor to itself, open and under its own entry. -/
structure Owned (held : Holdings) : Prop where
  fresh : ∀ id, held.live id = true → id < held.next
  entry : ∀ fd id, 0 < fd → held.events fd = some id → held.live id = true ∧ held.fd id = fd
  own : ∀ id, held.live id = true → 0 < held.fd id →
    held.events (held.fd id) = some id ∧ held.openFds (held.fd id) = true
  zero : held.events 0 = none
  apart : ∀ fd, held.otherFds fd = true → held.openFds fd = false

/-- Every DNS event has its descriptor to itself, and an event that is allocated, has no descriptor
yet and points back to it. -/
structure Linked (held : Holdings) (dns id : Nat) : Prop where
  known : dns < held.nextDns
  positive : 0 < (held.dnsHeap dns).dnsFd
  entry : held.dnsEvents (held.dnsHeap dns).dnsFd = some dns
  opened : held.otherFds (held.dnsHeap dns).dnsFd = true
  event : (held.dnsHeap dns).event = some id
  live : held.live id = true
  back : held.dnsEvent id = some dns
  unbound : held.fd id = -1
  unconnected : held.connected id = false

structure LookedUp (held : Holdings) : Prop where
  entry : ∀ fd dns, held.dnsEvents fd = some dns → (held.dnsHeap dns).live = true ∧ (held.dnsHeap dns).dnsFd = fd
  linked : ∀ dns, (held.dnsHeap dns).live = true → ∃ id, held.Linked dns id
  owner : ∀ id dns, held.live id = true → held.dnsEvent id = some dns →
    (held.dnsHeap dns).live = true ∧ (held.dnsHeap dns).event = some id

/-- An event is announced once at most, and one that has been accepted does not go without. -/
structure Told (held : Holdings) (id : Nat) : Prop where
  once : held.announcements id ≤ 1
  waiting : held.Waiting id → held.announcements id = 0
  fresh : held.next ≤ id → held.announcements id = 0 ∧ .accepting id ∉ held.marks
  served : held.live id = true → held.served id = true → held.connected id = true
  accepted : .accepting id ∈ held.marks → held.live id = true →
    held.connected id = true ∧ (held.Waiting id ∨ held.announcements id = 1)

structure Safe (held : Holdings) : Prop where
  owned : held.Owned
  lookedUp : held.LookedUp
  told : ∀ id, held.Told id
  valid : ∀ valid, .uses valid ∈ held.marks → valid = true

def marked (held : Holdings) (marks : List Mark) : Holdings := { held with marks := held.marks ++ marks }

/-- `close`. -/
def shut (held : Holdings) (fd : Int) : Holdings :=
  { held with
    openFds := Function.update held.openFds fd false
    otherFds := Function.update held.otherFds fd false }

/-- A new event. -/
def allocated (held : Holdings) (fd : Int) (connected served shaking : Bool) : Holdings :=
  { held with
    next := held.next + 1
    live := Function.update held.live held.next true
    fd := Function.update held.fd held.next fd
    connected := Function.update held.connected held.next connected
    served := Function.update held.served held.next served
    shaking := Function.update held.shaking held.next shaking
    dnsEvent := Function.update held.dnsEvent held.next none }

/-- The event gets its entry under a spare descriptor. -/
def entered (held : Holdings) (fd : Int) (id : Nat) : Holdings :=
  { held with
    events := Function.update held.events fd (some id)
    openFds := Function.update held.openFds fd true
    otherFds := Function.update held.otherFds fd false }

/-- A new event on a spare descriptor. -/
def adopted (held : Holdings) (fd : Int) (connected served shaking : Bool) : Holdings :=
  (held.allocated fd connected served shaking).entered fd held.next

def attached (held : Holdings) (id : Nat) (fd : Int) (ssl : Bool) : Holdings :=
  { held with
    dnsEvent := Function.update held.dnsEvent id (some held.nextDns)
    dnsHeap := Function.update held.dnsHeap held.nextDns ⟨fd, some id, ssl, true⟩
    nextDns := held.nextDns + 1
    dnsEvents := Function.update held.dnsEvents fd (some held.nextDns) }

/-- A DNS event is freed, and its event has none any more. -/
def detached (held : Holdings) (dns id : Nat) : Holdings :=
  { held.shut (held.dnsHeap dns).dnsFd with
    dnsEvents := Function.update held.dnsEvents (held.dnsHeap dns).dnsFd none
    dnsEvent := Function.update held.dnsEvent id none
    dnsHeap := Function.update held.dnsHeap dns { held.dnsHeap dns with live := false } }

/-- An event without a descriptor gets one. -/
def bound (held : Holdings) (id : Nat) (fd : Int) : Holdings :=
  { held with fd := Function.update held.fd id fd }.entered fd id

/-- An event is freed, with its descriptor where it has one. -/
def released (held : Holdings) (id : Nat) : Holdings :=
  { held with
    live := Function.update held.live id false
    fd := Function.update held.fd id (min (held.fd id) 0)
    events := if 0 < held.fd id then Function.update held.events (held.fd id) none else held.events
    openFds := if 0 < held.fd id then Function.update held.openFds (held.fd id) false else held.openFds }

inductive Step (held : Holdings) : Holdings → Prop
  | opens {fd} : 0 < fd → held.openFds fd = false → held.otherFds fd = false →
      Step held { held with otherFds := Function.update held.otherFds fd true }
  | shuts {fd} : held.events fd = none → held.dnsEvents fd = none → Step held (held.shut fd)
  | adopts {fd} (connected shaking) : held.Spare fd → Step held (held.adopted fd connected false shaking)
  | accepts {fd} : held.Spare fd →
      Step held ((held.adopted fd true false false).marked [.accepting held.next, .accepted held.next])
  | acceptsTls {fd} : held.Spare fd →
      Step held ((held.adopted fd true true true).marked [.accepting held.next])
  | allocates (shaking) : Step held (held.allocated (-1) false false shaking)
  | attaches {id fd} (ssl) : held.Spare fd → held.live id = true → held.fd id = -1 → held.connected id = false →
      held.dnsEvent id = none → held.announcements id = 0 → Step held (held.attached id fd ssl)
  | detaches {dns id} : held.Linked dns id → Step held (held.detached dns id)
  | binds {id fd} : held.Spare fd → held.live id = true → held.fd id = -1 → held.connected id = false →
      held.dnsEvent id = none → held.announcements id = 0 → Step held (held.bound id fd)
  | strays (id) : Step held { held with events := Function.update held.events (-1) (some id) }
  | releases {id} : held.live id = true → held.dnsEvent id = none → Step held (held.released id)
  | reshakes {id} (shaking) : held.served id = false →
      Step held { held with shaking := Function.update held.shaking id shaking }
  | shaken {id} : held.live id = true → held.served id = true → held.shaking id = true →
      Step held ({ held with shaking := Function.update held.shaking id false }.marked [.accepted id])
  | connects {id} (told : Bool) : held.live id = true → 0 < held.fd id → held.connected id = false →
      Step held ({ held with connected := Function.update held.connected id true }.marked
        (if told then [.connected id] else []))
  | fails {id} : held.live id = true → held.fd id = -1 → held.connected id = false → held.dnsEvent id = none →
      held.announcements id = 0 → Step held (held.marked [.failed id])
  | uses : Step held (held.marked [.uses true])

/-- What the program may do in several steps. -/
def Steps : Holdings → Holdings → Prop := Relation.ReflTransGen Step

end Holdings
end Devent
