import Devent.Docks.Tunnel

/-! Both sessions of a tunnel stay sessions of their own, and what passes from one to the other only
grows, so the ends of the tunnel see of each other what the ends of one session do. -/
namespace Devent.Docks

namespace Server

theorem log_of_acts {p : Effect → Prop} {q : ReadCallback → Prop} {server next : Server}
    (acts : Acts p q server next) : server.log <+: next.log := by
  obtain ⟨effects, grown, -⟩ := acts.logs
  exact ⟨effects, grown.symm⟩

variable {platform : Platform} {config : ServerConfig} {stack : Nat → Byte}

theorem setReadCb_log (server : Server) (cb : ReadCallback) : server.log <+: (server.setReadCb cb).log := by
  rw [setReadCb]
  split
  · exact List.prefix_rfl
  · exact List.prefix_append ..

theorem onAuthRead_log (server : Server) : server.log <+: (onAuthRead config stack server).log := by
  rcases onAuthRead_cases config stack server with acts | ⟨_, _, _, before, -, -, -, -, acts, judged⟩
  · exact log_of_acts acts
  · rw [judged]
    refine (log_of_acts acts).trans (List.IsPrefix.trans ?_ (setReadCb_log _ _))
    exact (List.prefix_append ..).trans (List.prefix_append ..)

theorem callRead_log (server : Server) : server.log <+: (server.callRead platform config stack).log := by
  have called : server.log <+: (server.emit (.call server.readCb)).log := List.prefix_append ..
  refine called.trans ?_
  rw [callRead]
  split
  · exact log_of_acts (onReadMethods_acts (q := fun _ => True) trivial (fun _ _ => trivial) trivial _)
  · exact log_of_acts (onReadMethodsInner_acts (q := fun _ => True) trivial (fun _ _ => trivial) _)
  · exact onAuthRead_log _
  · exact log_of_acts (connectRead_acts platform _)
  · exact log_of_acts (readAddress_acts (q := fun _ => True) platform _)
  · exact log_of_acts (serverRead_acts (q := fun _ => True) _)

theorem step_log {server next : Server} {input : Input} {out : Unit}
    (taken : Docks.step platform config server input = some (next, out)) : server.log <+: next.log := by
  cases input with
  | segment bytes stack =>
    rw [Docks.step] at taken
    split at taken
    · obtain ⟨rfl, -⟩ := Prod.mk.inj (Option.some.inj taken)
      exact callRead_log { server with inBuffer := server.inBuffer ++ bytes }
    · cases taken
  | finish stack =>
    rw [Docks.step] at taken
    split at taken
    · obtain ⟨rfl, -⟩ := Prod.mk.inj (Option.some.inj taken)
      have last : server.log <+:
          (if server.inBuffer = [] then server else server.callRead platform config stack).log := by
        split
        · exact List.prefix_rfl
        · exact callRead_log server
      have freed (server : Server) : server.log <+: (if server.live then server.free else server).log := by
        split
        · exact List.prefix_append ..
        · exact List.prefix_rfl
      exact last.trans (freed _)
    · cases taken
  | connected =>
    rw [Docks.step] at taken
    split at taken
    · obtain ⟨rfl, -⟩ := Prod.mk.inj (Option.some.inj taken)
      exact List.prefix_rfl
    · cases taken

end Server

structure Grows (op : SessionOp) (session next : Session) : Prop where
  log : session.server.server.log <+: next.server.server.log
  bound : (∀ address port, op ≠ .remoteConnects address port) → next.server.bound = session.server.bound
  received : session.client.reader.connected ≠ [] →
    next.client.reader.connected ≠ [] ∧ session.received <+: next.received

variable {d : Deployment} {excuse : Prop} {session next : Session} {op : SessionOp} {out : Unit}

theorem Grows.relayed (grows : Grows op session next) :
    session.server.server.relayed <+: next.server.server.relayed := by
  obtain ⟨effects, whole⟩ := grows.log
  rw [Server.relayed_append whole.symm]
  exact List.prefix_append ..

theorem Grows.connects (grows : Grows op session next) (some' : session.server.server.connects ≠ []) :
    next.server.server.connects ≠ [] := by
  obtain ⟨effects, whole⟩ := grows.log
  rw [Server.connects_append whole.symm]
  exact List.append_ne_nil_of_left_ne_nil some' _

/-- The reading is disabled once the client is connected. -/
theorem ClientAt.stopped {bound : Option (BoundAddress × Nat)} {heard written : List Byte} {client : ClientEnd}
    (stage : ClientAt d bound heard client written) (connected : client.reader.connected ≠ []) :
    client.client.readCb = .onReadServerConnect ∧ client.reader.live = true ∧ client.reader.reading = false := by
  cases stage with
  | negotiating => exact absurd rfl connected
  | authenticating => exact absurd rfl connected
  | rejected => exact absurd rfl connected
  | requesting admits reads =>
    cases bound with
    | none =>
      rw [reads.2] at connected
      exact absurd rfl connected
    | some pair =>
      obtain ⟨-, text, -, framing⟩ := reads
      cases framing with
      | header _ waiting => exact absurd waiting.connected connected
      | bindHost _ waiting => exact absurd waiting.connected connected
      | bindPort _ waiting => exact absurd waiting.connected connected
      | connected done => exact ⟨rfl, done.live, done.reading⟩

namespace ServerEnd

variable {peer server : ServerEnd} {platform : Platform} {config : ServerConfig} {stack : Nat → Byte}
  {bytes said : List Byte}

theorem hear_grows (taken : peer.hear platform config stack bytes = some (server, said)) :
    peer.server.log <+: server.server.log ∧ server.bound = peer.bound := by
  obtain ⟨⟨after, out⟩, stepped, same⟩ := Option.bind_eq_some_iff.mp taken
  obtain ⟨rfl, -⟩ := Prod.mk.inj (Option.some.inj same)
  exact ⟨Server.step_log stepped, rfl⟩

theorem remoteConnects_log {address : BoundAddress} {port : Nat}
    (taken : peer.remoteConnects address port = some server) : peer.server.log <+: server.server.log := by
  rw [remoteConnects] at taken
  split at taken
  · split at taken
    · obtain rfl := Option.some.inj taken
      exact List.prefix_rfl
    · cases taken
  · cases taken

theorem remoteEnds_grows (taken : peer.remoteEnds = some server) :
    peer.server.log <+: server.server.log ∧ server.bound = peer.bound := by
  rw [remoteEnds] at taken
  split at taken
  · obtain rfl := Option.some.inj taken
    exact ⟨List.prefix_append .., rfl⟩
  · cases taken

theorem replyFlushed_grows (taken : peer.replyFlushed platform config = some (server, said)) :
    peer.server.log <+: server.server.log ∧ server.bound = peer.bound := by
  rw [replyFlushed] at taken
  split at taken
  · cases taken
  · obtain ⟨⟨after, out⟩, stepped, same⟩ := Option.bind_eq_some_iff.mp taken
    obtain ⟨rfl, -⟩ := Prod.mk.inj (Option.some.inj same)
    exact ⟨Server.step_log stepped, rfl⟩

theorem downloads_grows (taken : peer.downloads bytes = some (server, said)) :
    peer.server.log <+: server.server.log ∧ server.bound = peer.bound := by
  rw [downloads] at taken
  split at taken
  · obtain ⟨rfl, -⟩ := Prod.mk.inj (Option.some.inj taken)
    exact ⟨List.prefix_rfl, rfl⟩
  · cases taken

theorem ends_grows (taken : peer.ends platform config stack = some server) :
    peer.server.log <+: server.server.log ∧ server.bound = peer.bound := by
  obtain ⟨⟨after, out⟩, stepped, same⟩ := Option.bind_eq_some_iff.mp taken
  obtain rfl := Option.some.inj same
  exact ⟨Server.step_log stepped, rfl⟩

end ServerEnd

/-- A connected client only adds to what is left in the socket. -/
theorem ClientAt.receives {bound : Option (BoundAddress × Nat)} {heard written bytes said : List Byte}
    {client after : ClientEnd} (stage : ClientAt d bound heard client written)
    (connected : client.reader.connected ≠ []) (taken : client.hear d.platform bytes = some (after, said)) :
    after = { client with reader := { client.reader with unread := client.reader.unread ++ bytes } } := by
  obtain ⟨readCb, live, stopped⟩ := stage.stopped connected
  have silent : ¬client.reader.reading = true := by
    rw [stopped]
    exact Bool.noConfusion
  rw [ClientEnd.hear] at taken
  split at taken
  · rw [readCb] at taken
    simp only [ReplyReader.step, if_pos live, if_neg silent, Option.map_some, Option.some.injEq, Prod.mk.injEq] at taken
    exact taken.1.symm
  · cases taken

theorem InSession.grows (inSession : InSession d excuse session)
    (taken : d.step session op = some (next, out)) : Grows op session next := by
  have still : session.client.reader.connected ≠ [] →
      session.client.reader.connected ≠ [] ∧ session.received <+: session.received :=
    fun connected => ⟨connected, List.prefix_rfl⟩
  cases op with
  | serverReads n stack =>
    rw [Deployment.step] at taken
    split at taken
    · obtain ⟨⟨server, said⟩, hears, same⟩ := Option.map_eq_some_iff.mp taken
      obtain ⟨rfl, -⟩ := Prod.mk.inj same
      obtain ⟨log, bound⟩ := ServerEnd.hear_grows hears
      exact ⟨log, fun _ => bound, still⟩
    · cases taken
  | clientReads n =>
    rw [Deployment.step] at taken
    split at taken
    · obtain ⟨⟨client, said⟩, hears, same⟩ := Option.map_eq_some_iff.mp taken
      obtain ⟨rfl, -⟩ := Prod.mk.inj same
      refine ⟨List.prefix_rfl, fun _ => rfl, fun connected => ?_⟩
      obtain rfl := inSession.client.receives connected hears
      refine ⟨connected, ?_⟩
      rw [Session.received, Session.received]
      exact (List.prefix_append_right_inj _).mpr (List.prefix_append ..)
    · cases taken
  | remoteConnects address port =>
    obtain ⟨server, connects, same⟩ := Option.map_eq_some_iff.mp taken
    obtain ⟨rfl, -⟩ := Prod.mk.inj same
    exact ⟨ServerEnd.remoteConnects_log connects, fun other => absurd rfl (other address port), still⟩
  | replyFlushed =>
    obtain ⟨⟨server, said⟩, flushed, same⟩ := Option.map_eq_some_iff.mp taken
    obtain ⟨rfl, -⟩ := Prod.mk.inj same
    obtain ⟨log, bound⟩ := ServerEnd.replyFlushed_grows flushed
    exact ⟨log, fun _ => bound, still⟩
  | uploads bytes =>
    obtain ⟨⟨client, said⟩, uploads, same⟩ := Option.map_eq_some_iff.mp taken
    obtain ⟨rfl, -⟩ := Prod.mk.inj same
    rw [ClientEnd.uploads] at uploads
    split at uploads
    · obtain ⟨rfl, -⟩ := Prod.mk.inj (Option.some.inj uploads)
      exact ⟨List.prefix_rfl, fun _ => rfl, still⟩
    · cases uploads
  | downloads bytes =>
    obtain ⟨⟨server, said⟩, downloads, same⟩ := Option.map_eq_some_iff.mp taken
    obtain ⟨rfl, -⟩ := Prod.mk.inj same
    obtain ⟨log, bound⟩ := ServerEnd.downloads_grows downloads
    exact ⟨log, fun _ => bound, still⟩
  | remoteEnds =>
    obtain ⟨server, ends, same⟩ := Option.map_eq_some_iff.mp taken
    obtain ⟨rfl, -⟩ := Prod.mk.inj same
    obtain ⟨log, bound⟩ := ServerEnd.remoteEnds_grows ends
    exact ⟨log, fun _ => bound, still⟩
  | serverEnds stack =>
    obtain ⟨server, ends, same⟩ := Option.map_eq_some_iff.mp taken
    obtain ⟨rfl, -⟩ := Prod.mk.inj same
    obtain ⟨log, bound⟩ := ServerEnd.ends_grows ends
    exact ⟨log, fun _ => bound, still⟩
  | clientEnds =>
    obtain ⟨client, ends, same⟩ := Option.map_eq_some_iff.mp taken
    obtain ⟨rfl, -⟩ := Prod.mk.inj same
    rw [ClientEnd.ends] at ends
    split at ends
    · obtain rfl := Option.some.inj ends
      exact ⟨List.prefix_rfl, fun _ => rfl, still⟩
    · cases ends

theorem uploads_adds {bytes : List Byte} (taken : d.step session (.uploads bytes) = some (next, out)) :
    next.client.uploaded = session.client.uploaded ++ bytes := by
  obtain ⟨⟨client, said⟩, uploads, same⟩ := Option.map_eq_some_iff.mp taken
  obtain ⟨rfl, -⟩ := Prod.mk.inj same
  rw [ClientEnd.uploads] at uploads
  split at uploads
  · obtain ⟨rfl, -⟩ := Prod.mk.inj (Option.some.inj uploads)
    rfl
  · cases uploads

theorem downloads_adds {bytes : List Byte} (taken : d.step session (.downloads bytes) = some (next, out)) :
    next.server.downloaded = session.server.downloaded ++ bytes := by
  obtain ⟨⟨server, said⟩, downloads, same⟩ := Option.map_eq_some_iff.mp taken
  obtain ⟨rfl, -⟩ := Prod.mk.inj same
  rw [ServerEnd.downloads] at downloads
  split at downloads
  · obtain ⟨rfl, -⟩ := Prod.mk.inj (Option.some.inj downloads)
    rfl
  · cases downloads

/-- Both sessions, and what has passed from one to the other. -/
structure Coupled (route : Route) (tunnel : Tunnel) : Prop where
  near : InSession route.near True tunnel.near
  far : ∀ far ∈ tunnel.far, InSession route.far True far
  begun : ∀ far ∈ tunnel.far, tunnel.near.server.server.connects ≠ []
  uploaded : ∀ far ∈ tunnel.far, far.client.uploaded <+: tunnel.near.server.server.relayed
  bound : tunnel.near.server.bound ≠ none → ∃ far ∈ tunnel.far, far.client.reader.connected ≠ []
  downloaded : tunnel.near.server.downloaded ≠ [] →
    ∃ far ∈ tunnel.far, far.client.reader.connected ≠ [] ∧ tunnel.near.server.downloaded <+: far.received

variable {route : Route} {tunnel : Tunnel} {near : Session}

theorem Coupled.start (route : Route) : Coupled route route.start where
  near := InSession.start route.near True
  far := fun far member => by cases member
  begun := fun far member => by cases member
  uploaded := fun far member => by cases member
  bound := fun bound => absurd rfl bound
  downloaded := fun downloaded => absurd rfl downloaded

/-- The far session stays, or begins. -/
theorem opens_cases (route : Route) (near : Session) (far : Option Session) :
    (∀ session ∈ route.opens near far, session ∈ far ∨
      session = route.far.start ∧ near.server.server.connects ≠ []) ∧
      ∀ session ∈ far, session ∈ route.opens near far := by
  cases far with
  | none =>
    refine ⟨fun session member => ?_, fun session member => by cases member⟩
    rw [Route.opens] at member
    split at member
    · rename_i opened
      exact .inr ⟨(Option.some.inj member).symm, opened.2.2⟩
    · cases member
  | some far =>
    have kept : route.opens near (some far) = some far := if_neg fun opened => by cases opened.1
    rw [kept]
    exact ⟨fun session member => .inl member, fun session member => member⟩

theorem Coupled.stepNear (coupled : Coupled route tunnel) (sound : route.near.Sound)
    (admits : Route.admitsNear tunnel.far tunnel.near op = true) (uncut : route.near.Cuts tunnel.near op)
    (taken : route.near.step tunnel.near op = some (near, out)) :
    Coupled route ⟨near, route.opens near tunnel.far⟩ := by
  obtain ⟨inSession, keeps⟩ := step_inSession sound coupled.near uncut (fun _ => trivial) taken
  have grows := coupled.near.grows taken
  obtain ⟨stays, kept⟩ := opens_cases route near tunnel.far
  constructor
  · exact inSession
  · intro far member
    rcases stays far member with old | ⟨rfl, -⟩
    · exact coupled.far far old
    · exact InSession.start route.far True
  · intro far member
    rcases stays far member with old | ⟨-, connects⟩
    · exact grows.connects (coupled.begun far old)
    · exact connects
  · intro far member
    rcases stays far member with old | ⟨rfl, -⟩
    · exact (coupled.uploaded far old).trans grows.relayed
    · exact List.nil_prefix
  · intro bound
    by_cases connecting : ∃ address port, op = .remoteConnects address port
    · obtain ⟨address, port, rfl⟩ := connecting
      obtain ⟨far, found, connected⟩ := (Option.any_eq_true _ _).mp admits
      exact ⟨far, kept far found, of_decide_eq_true connected⟩
    · have same := grows.bound fun address port is => connecting ⟨address, port, is⟩
      rw [same] at bound
      obtain ⟨far, member, connected⟩ := coupled.bound bound
      exact ⟨far, kept far member, connected⟩
  · intro downloaded
    by_cases downloading : ∃ bytes, op = .downloads bytes
    · obtain ⟨bytes, rfl⟩ := downloading
      obtain ⟨far, found, allowed⟩ := (Option.any_eq_true _ _).mp admits
      obtain ⟨connected, inside⟩ := of_decide_eq_true allowed
      refine ⟨far, kept far found, connected, ?_⟩
      rw [downloads_adds taken]
      exact inside
    · have same := keeps.downloaded fun bytes is => downloading ⟨bytes, is⟩
      rw [same] at downloaded ⊢
      obtain ⟨far, member, connected, inside⟩ := coupled.downloaded downloaded
      exact ⟨far, kept far member, connected, inside⟩

theorem Coupled.stepFar {far next : Session} (coupled : Coupled route tunnel) (sound : route.far.Sound)
    (present : tunnel.far = some far) (admits : Route.admitsFar tunnel.near far op = true)
    (uncut : route.far.Cuts far op) (taken : route.far.step far op = some (next, out)) :
    Coupled route ⟨tunnel.near, some next⟩ := by
  have before := coupled.far far present
  obtain ⟨inSession, keeps⟩ := step_inSession sound before uncut (fun _ => trivial) taken
  have grows := before.grows taken
  have single {P : Session → Prop} (holds : P next) : ∀ far ∈ some next, P far := by
    intro far member
    obtain rfl := Option.some.inj member
    exact holds
  have uploaded := coupled.uploaded far present
  constructor
  · exact coupled.near
  · exact single inSession
  · exact single (coupled.begun far present)
  · apply single
    by_cases uploading : ∃ bytes, op = .uploads bytes
    · obtain ⟨bytes, rfl⟩ := uploading
      rw [uploads_adds taken]
      exact of_decide_eq_true admits
    · rw [keeps.uploaded fun bytes is => uploading ⟨bytes, is⟩]
      exact uploaded
  · intro bound
    obtain ⟨old, member, connected⟩ := coupled.bound bound
    obtain rfl := Option.some.inj (present.symm.trans member)
    exact ⟨next, rfl, (grows.received connected).1⟩
  · intro downloaded
    obtain ⟨old, member, connected, inside⟩ := coupled.downloaded downloaded
    obtain rfl := Option.some.inj (present.symm.trans member)
    obtain ⟨connected', more⟩ := grows.received connected
    exact ⟨next, rfl, connected', inside.trans more⟩

theorem Coupled.step {op : TunnelOp} {next : Tunnel} (coupled : Coupled route tunnel) (near : route.near.Sound)
    (far : route.far.Sound) (uncut : route.Cuts tunnel op) (taken : route.step tunnel op = some (next, out)) :
    Coupled route next := by
  cases op with
  | near op =>
    rw [Route.step] at taken
    split at taken
    · rename_i admits
      obtain ⟨⟨after, out⟩, stepped, same⟩ := Option.map_eq_some_iff.mp taken
      obtain ⟨rfl, -⟩ := Prod.mk.inj same
      exact coupled.stepNear near admits uncut stepped
    · cases taken
  | far op =>
    obtain ⟨session, present, taken⟩ := Option.bind_eq_some_iff.mp taken
    split at taken
    · rename_i admits
      obtain ⟨⟨after, out⟩, stepped, same⟩ := Option.map_eq_some_iff.mp taken
      obtain ⟨rfl, -⟩ := Prod.mk.inj same
      exact coupled.stepFar far present admits (uncut session present) stepped
    · cases taken

/-- What the application and the destination see of each other. -/
structure EndToEnd (route : Route) (tunnel : Tunnel) : Prop where
  destination : ∀ far ∈ tunnel.far, far.server.server.connects = [] ∨ route.far.Authorized ∧
    far.server.server.connects = [(route.near.host, route.near.port)] ∧
    tunnel.near.server.server.connects = [(route.near.host, route.near.port)]
  connected : tunnel.near.client.reader.connected ≠ [] → ∃ far ∈ tunnel.far, far.server.bound ≠ none ∧
    far.server.server.connects = [(route.near.host, route.near.port)]
  uploaded : ∀ far ∈ tunnel.far, far.server.server.relayed <+: tunnel.near.client.uploaded
  downloaded : tunnel.near.client.reader.connected ≠ [] →
    ∃ far ∈ tunnel.far, tunnel.near.received <+: far.server.downloaded

/-- An application that is connected has docks_client connected behind it. -/
theorem Coupled.joined (coupled : Coupled route tunnel) (near : route.near.Sound)
    (connected : tunnel.near.client.reader.connected ≠ []) :
    ∃ far ∈ tunnel.far, far.client.reader.connected ≠ [] := by
  rcases (coupled.near.safe near).connected with none | ⟨address, port, text, bound, -⟩
  · exact absurd none connected
  · refine coupled.bound ?_
    rw [bound]
    exact Option.some_ne_none _

theorem Coupled.endToEnd (coupled : Coupled route tunnel) (near : route.near.Sound) (far : route.far.Sound) :
    EndToEnd route tunnel := by
  have here := coupled.near.safe near
  constructor
  · intro session member
    have there := (coupled.far session member).safe far
    rcases there.connects with none | ⟨authorized, once⟩
    · exact .inl none
    · refine .inr ⟨authorized, ?_, ?_⟩
      · rw [once, route.host, route.port]
      · rcases here.connects with none | ⟨-, once⟩
        · exact absurd none (coupled.begun session member)
        · exact once
  · intro connected
    obtain ⟨session, member, joined⟩ := coupled.joined near connected
    rcases ((coupled.far session member).safe far).connected with none | ⟨_, _, _, bound, -, -, once⟩
    · exact absurd none joined
    · refine ⟨session, member, ?_, ?_⟩
      · rw [bound]
        exact Option.some_ne_none _
      · rw [once, route.host, route.port]
  · intro session member
    have there := (coupled.far session member).safe far
    exact there.uploaded.trans ((coupled.uploaded session member).trans here.uploaded)
  · intro connected
    have received : tunnel.near.received <+: tunnel.near.server.downloaded := here.downloaded connected
    by_cases downloaded : tunnel.near.server.downloaded = []
    · obtain ⟨session, member, -⟩ := coupled.joined near connected
      rw [downloaded] at received
      refine ⟨session, member, ?_⟩
      rw [List.prefix_nil.mp received]
      exact List.nil_prefix
    · obtain ⟨session, member, joined, inside⟩ := coupled.downloaded downloaded
      exact ⟨session, member, received.trans (inside.trans (((coupled.far session member).safe far).downloaded joined))⟩

/-- Every run of a tunnel, for any order of the events of its two sessions, any cuts of its four
streams and any ends of its connections: nothing but the destination of the application is
connected to, and only with credentials that docks_server accepts; the application hears of a
connection when docks_server has one; and each end hears the bytes of the other, none lost,
repeated or reordered on the way. -/
theorem tunnel_end_to_end (route : Route) (near : route.near.Sound) (far : route.far.Sound) (ops : List TunnelOp)
    (last : Tunnel) (outs : List Unit) (path : Run.run route.step route.start ops = some (last, outs))
    (uncut : Run.Along route.step route.Cuts route.start ops) :
    SafeSession route.near last.near ∧ (∀ session ∈ last.far, SafeSession route.far session) ∧ EndToEnd route last := by
  have coupled : Coupled route last := Run.run_along
    (fun coupled uncut taken => coupled.step near far uncut taken) (Coupled.start route) uncut path
  exact ⟨coupled.near.safe near, fun session member => (coupled.far session member).safe far, coupled.endToEnd near far⟩

def localPlatform : Platform := ⟨loopback.inetNtop, some fun _ _ => true, fun _ _ => true⟩

/-- An application that has no credentials, behind a docks_client that has. -/
def accountedRoute : Route where
  near := ⟨localPlatform, ⟨none⟩, ⟨none, none⟩, accounted.host, accounted.port⟩
  far := accounted
  host := rfl
  port := rfl
  relays := Option.some_ne_none _

theorem accountedRoute_near : accountedRoute.near.Sound where
  prints := fun _ _ absent => by cases absent
  host := by decide
  port := by decide
  username := fun _ absent => by cases absent
  password := fun _ absent => by cases absent
  paired := fun _ absent => by cases absent

/-- Both handshakes, the second behind the first, and a byte of the relay in each direction. -/
def accountedRouteOps : List TunnelOp :=
  [.near (.serverReads 3 blank), .near (.clientReads 2), .near (.serverReads 8 blank)] ++
    (accountedOps.take 13).map .far ++
    [.near (.remoteConnects (.inet ⟨[10, 0, 0, 1], rfl⟩) 4660), .near .replyFlushed, .near (.clientReads 10),
      .near (.uploads [71]), .near (.serverReads 1 blank), .far (.uploads [71]), .far (.serverReads 1 blank),
      .far (.downloads [72]), .far (.clientReads 1), .near (.downloads [72]), .near (.clientReads 1)]

theorem accountedRoute_end_to_end : ∃ last outs,
    Run.run accountedRoute.step accountedRoute.start accountedRouteOps = some (last, outs) ∧
      EndToEnd accountedRoute last := by
  have defined : (Run.run accountedRoute.step accountedRoute.start accountedRouteOps).isSome = true := by decide +kernel
  obtain ⟨⟨last, outs⟩, path⟩ := Option.isSome_iff_exists.mp defined
  exact ⟨last, outs, path, (tunnel_end_to_end accountedRoute accountedRoute_near accounted_sound accountedRouteOps last
    outs path (by decide +kernel)).2.2⟩

end Devent.Docks
