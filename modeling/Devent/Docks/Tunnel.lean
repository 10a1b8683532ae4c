import Devent.Docks.SessionProofs

/-! docks_client between an application and docks_server. Its local server is one session, what
`connect_remote` opens is another, and they meet in docks_client alone: the second begins with
the first's connect, `on_connect` answers the first from the second, and the relay of
transfer.c hands on what one of them has received. -/
namespace Devent.Docks

/-- The session of the application with docks_client, and that of docks_client with docks_server,
to the same destination. -/
structure Route where
  near : Deployment
  far : Deployment
  host : near.host = far.host
  port : near.port = far.port
  /-- `connect_remote` is set. -/
  relays : near.platform.connectRemote ≠ none

structure Tunnel where
  near : Session
  far : Option Session

inductive TunnelOp where
  | near (op : SessionOp)
  | far (op : SessionOp)

/-- What the client's end has behind the reply. -/
def Session.received (session : Session) : List Byte :=
  session.client.reader.inBuffer ++ session.client.reader.unread

namespace Route

def start (route : Route) : Tunnel := ⟨route.near.start, none⟩

/-- What the local server does, it does for the far session: it is connected by `on_connect`, and
sends what docks_server has sent. -/
def admitsNear (far : Option Session) (near : Session) : SessionOp → Bool
  | .remoteConnects .. => far.any fun far => far.client.reader.connected ≠ []
  | .downloads bytes => far.any fun far =>
    far.client.reader.connected ≠ [] ∧ near.server.downloaded ++ bytes <+: far.received
  | _ => true

/-- docks_client sends on what its local server has relayed. -/
def admitsFar (near far : Session) : SessionOp → Bool
  | .uploads bytes => far.client.uploaded ++ bytes <+: near.server.server.relayed
  | _ => true

/-- `connect_remote`, once the local server has a destination; it frees the event that it cannot serve. -/
def opens (route : Route) (near : Session) (far : Option Session) : Option Session :=
  if far.isNone ∧ near.server.server.live ∧ near.server.server.connects ≠ [] then some route.far.start else far

def step (route : Route) (tunnel : Tunnel) : TunnelOp → Option (Tunnel × Unit)
  | .near op =>
    if admitsNear tunnel.far tunnel.near op then
      (route.near.step tunnel.near op).map fun (near, _) => (⟨near, route.opens near tunnel.far⟩, ())
    else none
  | .far op => do
    let far ← tunnel.far
    if admitsFar tunnel.near far op then
      (route.far.step far op).map fun (far, _) => (⟨tunnel.near, some far⟩, ())
    else none

/-- Neither server is cut off where it must not be. -/
def Cuts (route : Route) (tunnel : Tunnel) : TunnelOp → Prop
  | .near op => route.near.Cuts tunnel.near op
  | .far op => ∀ far ∈ tunnel.far, route.far.Cuts far op

end Route

instance (route : Route) (tunnel : Tunnel) : (op : TunnelOp) → Decidable (route.Cuts tunnel op)
  | .near op => inferInstanceAs (Decidable (route.near.Cuts tunnel.near op))
  | .far op => inferInstanceAs (Decidable (∀ far ∈ tunnel.far, route.far.Cuts far op))

end Devent.Docks
