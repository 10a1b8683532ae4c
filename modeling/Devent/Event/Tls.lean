import Devent.Dlib.Clib
import Devent.Event.Outcome
import Devent.Library.Run

/-! TLS of a hostname connect. connect.c takes an address literal to `DocketEvent_connect`, whether
or not TLS is asked for; dns.c keeps what is asked for in the DNS event until the reply. -/
namespace Devent
open Outcome

/-- `ssl` and `ssl_handshaking` of an event. -/
structure Tls where
  ssl : Bool
  handshaking : Bool
  deriving DecidableEq

/-- As `DocketEvent_new` leaves it. -/
def Tls.clear : Tls := ⟨false, false⟩

/-- The docket with the TLS fields of its events, and `event_ssl` of its DNS events. -/
structure TlsDocket where
  docket : DnsDocket
  tls : Nat → Tls
  eventSsl : Int → Bool

/-- How a connect goes: the event that it returns, and the descriptor on which a connection
has begun. -/
structure Connecting where
  docket : TlsDocket
  event : Option Nat
  connection : Option Int

/-- What the C library does with an address text, where that is not fixed. -/
structure Resolver where
  einval : Bool
  inetPton : List Byte → Option (List Byte)

/-- What the calls of one hostname connect return; `sslNew` is whether `SSL_new` gives an object. -/
structure TlsScript where
  dnsFd : Option Int
  queries : List Query
  lookup : Lookup
  sslNew : Bool

/-- `devent_parse_ipv4`: the numbers it stores, where it returns true. -/
def deventParseIpv4 (einval : Bool) : Nat → List Byte → Option (List Byte)
  | 0, _ => some []
  | index + 1, left =>
    let a := strtol einval left
    if a.errno = false ∧ 0 ≤ a.value ∧ a.value ≤ 255 then
      (deventParseIpv4 einval index (if a.rest.head? = some 46 then a.rest.tail else a.rest)).map
        (UInt8.ofNat a.value.toNat :: ·)
    else none

/-- The text of a host that is no domain, as "[%s]:%d" or "%s:%d" prints it. -/
def literalText (resolver : Resolver) (host : CString) (port : UInt16) : Option (List Byte) :=
  let behind := 58 :: printNumber port.toNat
  if host.bytes.head? = some 91 then some (91 :: host.bytes ++ 93 :: behind)
  else if (deventParseIpv4 resolver.einval 4 host.bytes).isSome then some (host.bytes ++ behind)
  else none

/-- The address of a host that is one; a fault is an overrun of `address_` or of `address`. -/
def literal (resolver : Resolver) (host : CString) (port : UInt16) : Outcome Nat (Option SockAddr) :=
  match literalText resolver host port with
  | none => .value none
  | some text =>
    if 1024 < text.length + 1 then .fault (text.length + 1)
    else parseAddress resolver.inetPton SockAddr.sizeIn text

namespace TlsDocket

def newEvent (t : TlsDocket) (peer : Peer) : TlsDocket :=
  { t with docket := t.docket.newEvent peer, tls := Function.update t.tls t.docket.next Tls.clear }

/-- The event under the descriptor, or a new one. -/
def ensureEvent (t : TlsDocket) (fd : Int) : TlsDocket × Nat :=
  match t.docket.findEvent fd with
  | none =>
    let made := t.newEvent ⟨fd, false, false, true⟩
    ({ made with docket := made.docket.addEvent t.docket.next }, t.docket.next)
  | some id => (t, id)

def watch (t : TlsDocket) (fd : Int) : TlsDocket := { t with docket := t.docket.watch fd }

def setSsl (t : TlsDocket) (id : Nat) (sslNew : Bool) : TlsDocket :=
  { t with tls := Function.update t.tls id ⟨sslNew, true⟩ }

/-- `DocketEvent_connect_internal` for SOCK_STREAM, once it has its descriptor. -/
def connectFd (t : TlsDocket) (ssl sslNew : Bool) (fd : Int) (lookup : Lookup) : Connecting :=
  if lookup.nonblocking = false then ⟨t, none, none⟩
  else if lookup.connection = .refused then ⟨{ t with docket := t.docket.close fd }, none, none⟩
  else
    let (t, id) := t.ensureEvent fd
    if lookup.registered = false then ⟨t, none, some fd⟩
    else ⟨if ssl then (t.watch fd).setSsl id sslNew else t.watch fd, some id, some fd⟩

def connectInternal (t : TlsDocket) (ssl sslNew : Bool) (fd : Int) (lookup : Lookup) : Option Connecting :=
  if fd = -1 then do
    let docket ← t.docket.opens lookup.newFd
    match lookup.newFd with
    | none => return ⟨{ t with docket := docket }, none, none⟩
    | some fd => return connectFd { t with docket := docket } ssl sslNew fd lookup
  else some (t.connectFd ssl sslNew fd lookup)

/-- `devent_dns_read`. -/
def dnsRead (t : TlsDocket) (dnsFd : Int) (id : Nat) (lookup : Lookup) (sslNew : Bool) : Option Connecting :=
  if lookup.fails then some ⟨{ t with docket := t.docket.failLookup dnsFd id }, none, none⟩
  else do
    let docket ← t.docket.giveSocket id lookup
    let result ← connectInternal { t with docket := docket } (t.eventSsl dnsFd) sslNew (docket.heap id).fd lookup
    return { result with docket := { result.docket with docket := result.docket.docket.freeDnsEvent dnsFd } }

/-- The DNS path, up to where the reply has been dealt with. -/
def connectDomain (t : TlsDocket) (ssl : Bool) (fd : Int) (script : TlsScript) : Option Connecting :=
  let id := t.docket.next
  match script.dnsFd with
  | none => some ⟨t.newEvent ⟨fd, false, false, true⟩, none, none⟩
  | some dnsFd => do
    let docket ← t.docket.connectHostname fd dnsFd
    let t : TlsDocket :=
      { docket, tls := Function.update t.tls id Tls.clear, eventSsl := Function.update t.eventSsl dnsFd ssl }
    let (docket, sent) ← t.docket.dnsWrites dnsFd id script.queries
    if sent then
      let result ← dnsRead { t with docket := docket } dnsFd id script.lookup script.sslNew
      return { result with event := some id }
    else return ⟨{ t with docket := docket }, some id, none⟩

/-- `DocketEvent_connect_hostname_internal` and what comes of it; a value `none` is an answer
that the kernel does not give. -/
def connectHostname (t : TlsDocket) (resolver : Resolver) (ssl : Bool) (fd : Int) (host : CString) (port : UInt16)
    (script : TlsScript) : Outcome Nat (Option Connecting) := do
  match ← literal resolver host port with
  | some _ => return t.connectInternal false script.sslNew fd script.lookup
  | none => return t.connectDomain ssl fd script

end TlsDocket

/-- The SSL object is set and its handshake is pending. The event keeps the object, whatever is
called on it and whatever the loop tells it. -/
structure Tls.Protects (tls : Tls) : Prop where
  pending : tls = ⟨true, true⟩
  kept : ∀ event : DocketEvent, event.ssl = tls.ssl → event.sslHandshaking = tls.handshaking →
    ∀ inputs last outs, Run.run DocketEvent.step event inputs = some (last, outs) → last.isOpen = true →
      last.ssl = true

/-- If the event is on the descriptor, it has TLS there. -/
def TlsDocket.Covered (t : TlsDocket) (id : Nat) (fd : Int) : Prop :=
  (t.docket.heap id).fd = fd → (t.tls id).Protects

/-- The connection has TLS for the event that is returned. -/
def Connecting.Secured (result : Connecting) : Prop :=
  ∀ id fd, result.event = some id → result.connection = some fd → result.docket.Covered id fd

/-- No event is given an SSL object. -/
def TlsDocket.Plain (before after : TlsDocket) : Prop :=
  ∀ id < after.docket.next, (after.tls id).ssl = true → id < before.docket.next ∧ (before.tls id).ssl = true

/-- The call comes about, with TLS exactly where it is asked for. -/
def TlsAsRequested (before : TlsDocket) (ssl : Bool) (outcome : Outcome Nat (Option Connecting)) : Prop :=
  ∃ result, outcome = .value (some result) ∧ if ssl then result.Secured else before.Plain result.docket

/-- A connection is begun on the descriptor. -/
def Lookup.Begins (lookup : Lookup) : Prop := lookup.nonblocking = true ∧ lookup.connection ≠ .refused

/-- No event comes of an address literal, or it is one that already has TLS. -/
def TlsDocket.LiteralCovered (t : TlsDocket) (fd : Int) (lookup : Lookup) : Prop :=
  lookup.Begins → lookup.registered = true → ∀ d, (if fd = -1 then lookup.newFd else some fd) = some d →
    ∃ id, t.docket.findEvent d = some id ∧ t.Covered id d

/-- No connection comes of a domain, or it is on a descriptor of its own, the kernel takes it,
and there is an SSL object. -/
def TlsScript.Covered (script : TlsScript) (fd : Int) : Prop :=
  script.dnsFd.isSome = true → queried script.queries = true → script.lookup.fails = false →
    script.lookup.Begins → fd = -1 ∧
      (script.lookup.socket.isSome = true → script.lookup.registered = true ∧ script.sslNew = true)

/-- The host fits in the buffers, and what is asked for comes of it. -/
def TlsDocket.Honours (t : TlsDocket) (resolver : Resolver) (ssl : Bool) (fd : Int) (host : CString)
    (port : UInt16) (script : TlsScript) : Prop :=
  match literal resolver host port with
  | .value (some _) => ssl = true → t.LiteralCovered fd script.lookup
  | .value none => ssl = true → script.Covered fd
  | _ => False

/-- Every event in the table has been allocated. -/
def DnsDocket.Known (docket : DnsDocket) : Prop := ∀ fd id, docket.events fd = some id → id < docket.next

def TlsDocket.Known (t : TlsDocket) : Prop := t.docket.Known

end Devent
