import Devent.Docks.SessionRequest
import Devent.Event.Delivery
import Devent.Library.Progress

/-! Every run of a session, whatever the order of the events and wherever the streams are cut:
what each end knows of the other, and where the handshake ends. -/
namespace Devent.Docks

/-- Both ends stand where the bytes between them put them. -/
structure InSession (d : Deployment) (excuse : Prop) (session : Session) : Prop where
  server : ServerAt d excuse session.up.heard session.server session.down.written
  client : ClientAt d session.server.bound session.down.heard session.client session.up.written

/-- No read event of the server ends where its callbacks look beyond what has arrived. -/
def Deployment.Cuts (d : Deployment) (session : Session) : SessionOp → Prop
  | .serverReads n _ => d.Uncut (session.up.taken + n)
  | _ => True

instance (d : Deployment) (session : Session) : (op : SessionOp) → Decidable (d.Cuts session op)
  | .serverReads n _ => inferInstanceAs (Decidable (d.Uncut (session.up.taken + n)))
  | .clientReads _ | .remoteConnects .. | .replyFlushed | .uploads _ | .downloads _ | .remoteEnds | .serverEnds _
  | .clientEnds => .isTrue trivial

/-- An end is given up. -/
def SessionOp.Disturbs : SessionOp → Prop
  | .remoteEnds | .serverEnds _ | .clientEnds => True
  | _ => False

variable {d : Deployment} {excuse : Prop} {session next : Session}

theorem InSession.start (d : Deployment) (excuse : Prop) : InSession d excuse d.start := by
  have unheard : (Pipe.empty.write d.methods).heard = [] := Pipe.heard_write ..
  refine ⟨?_, ?_⟩
  · have server := ServerAt.start d excuse
    rw [← unheard] at server
    exact server
  · exact ClientAt.start d

theorem hear_live {peer next : ServerEnd} {platform : Platform} {config : ServerConfig} {stack : Nat → Byte}
    {bytes said : List Byte} (taken : peer.hear platform config stack bytes = some (next, said)) :
    peer.server.live = true := by
  by_contra dead
  have none : Docks.step platform config peer.server (.segment bytes stack) = none := if_neg fun both => dead both.1
  rw [ServerEnd.hear, none] at taken
  cases taken

theorem flight_take_ne_nil {pipe : Pipe Byte} {n : Nat} (some' : 0 < n) (there : n ≤ pipe.flight.length) :
    pipe.flight.take n ≠ [] := by
  apply List.length_pos_iff.mp
  rw [List.length_take, Nat.min_eq_left there]
  exact some'

/-- A read event of the server: the client has written nothing that the server does not expect. -/
theorem InSession.serverHears {n : Nat} (stack : Nat → Byte) (sound : d.Sound)
    (inSession : InSession d excuse session) (live : session.server.server.live = true)
    (uncut : d.Uncut (session.up.taken + n)) (some' : 0 < n) (there : n ≤ session.up.flight.length) :
    Hears d excuse stack session.up.heard (session.up.flight.take n) session.server session.down.written := by
  have heard := session.up.heard_advance n
  have length : (session.up.heard ++ session.up.flight.take n).length = session.up.taken + n := by
    rw [← heard, Pipe.length_heard, Pipe.taken_advance _ there]
  have within : session.up.heard ++ session.up.flight.take n <+: session.up.written := by
    rw [← heard]
    exact (session.up.advance n).heard_isPrefix
  have speaks := inSession.client.speaks
  have inside := session.down.heard_isPrefix
  apply inSession.server.hears sound live (flight_take_ne_nil some' there)
  · rw [length]
    exact uncut
  · intro silent
    rw [silent] at inside
    have unheard : session.down.heard.length < 2 := by
      rw [List.prefix_nil.mp inside]
      exact Nat.two_pos
    rw [← speaks.first unheard]
    exact within
  · intro few
    exact within.trans (speaks.second (Nat.lt_of_le_of_lt inside.length_le few))
  · intro all
    rw [all] at inside
    exact within.trans (speaks.third inside)
  · intro long
    exact speaks.admits (Nat.lt_of_lt_of_le long within.length_le)

theorem InSession.serverReads {n : Nat} {stack : Nat → Byte} {server : ServerEnd} {said : List Byte}
    (sound : d.Sound) (inSession : InSession d excuse session) (uncut : d.Uncut (session.up.taken + n))
    (some' : 0 < n) (there : n ≤ session.up.flight.length)
    (taken : session.server.hear d.platform d.accounts stack (session.up.flight.take n) = some (server, said)) :
    InSession d excuse ⟨server, session.client, session.up.advance n, session.down.write said⟩ ∧
      server.downloaded = session.server.downloaded := by
  obtain ⟨next, said', taken', stage, bound, downloaded⟩ :=
    inSession.serverHears stack sound (hear_live taken) uncut some' there
  obtain ⟨rfl, rfl⟩ := Prod.mk.inj (Option.some.inj (taken.symm.trans taken'))
  refine ⟨⟨?_, ?_⟩, downloaded⟩
  · rw [← session.up.heard_advance n] at stage
    exact stage
  · have client := inSession.client
    rw [← bound, ← session.down.heard_write said] at client
    exact client

/-- A read event of the client: the server has written nothing that the client does not expect. -/
theorem InSession.clientHears {n : Nat} (sound : d.Sound) (inSession : InSession d excuse session)
    (opened : session.client.opened = true) (some' : 0 < n) (there : n ≤ session.down.flight.length) :
    ∃ next said, session.client.hear d.platform (session.down.flight.take n) = some (next, said) ∧
      ClientAt d session.server.bound (session.down.heard ++ session.down.flight.take n) next
        (session.up.written ++ said) ∧
      next.uploaded = session.client.uploaded ∧ next.opened = session.client.opened := by
  have within : session.down.heard ++ session.down.flight.take n <+: session.down.written := by
    rw [← session.down.heard_advance n]
    exact (session.down.advance n).heard_isPrefix
  have speaks := inSession.server.speaks
  have inside := session.up.heard_isPrefix
  refine inSession.client.hears sound opened inSession.server.small (flight_take_ne_nil some' there) ?_ ?_
    (within.trans speaks.whole) inSession.server.quiet
  · intro only
    rw [only] at inside
    exact within.trans (speaks.first inside)
  · intro early
    exact within.trans (speaks.second (inside.trans early))

theorem InSession.clientReads {n : Nat} {client : ClientEnd} {said : List Byte} (sound : d.Sound)
    (inSession : InSession d excuse session) (some' : 0 < n) (there : n ≤ session.down.flight.length)
    (taken : session.client.hear d.platform (session.down.flight.take n) = some (client, said)) :
    InSession d excuse ⟨session.server, client, session.up.write said, session.down.advance n⟩ ∧
      client.uploaded = session.client.uploaded ∧ client.opened = session.client.opened := by
  have opened : session.client.opened = true := by
    by_contra shut
    rw [ClientEnd.hear, if_neg shut] at taken
    cases taken
  obtain ⟨next, said', taken', stage, uploaded, opened'⟩ := inSession.clientHears sound opened some' there
  obtain ⟨rfl, rfl⟩ := Prod.mk.inj (Option.some.inj (taken.symm.trans taken'))
  refine ⟨⟨?_, ?_⟩, uploaded, opened'⟩
  · have server := inSession.server
    rw [← session.up.heard_write said] at server
    exact server
  · rw [← session.down.heard_advance n] at stage
    exact stage

/-- What one event does to the bytes of the relay and to the client's event. -/
structure Keeps (op : SessionOp) (session next : Session) : Prop where
  uploaded : (∀ bytes, op ≠ .uploads bytes) → next.client.uploaded = session.client.uploaded
  downloaded : (∀ bytes, op ≠ .downloads bytes) → next.server.downloaded = session.server.downloaded
  opened : op ≠ .clientEnds → next.client.opened = session.client.opened

/-- One event, at either end. -/
theorem step_inSession {op : SessionOp} {out : Unit} (sound : d.Sound) (inSession : InSession d excuse session)
    (uncut : d.Cuts session op) (excused : op.Disturbs → excuse) (taken : d.step session op = some (next, out)) :
    InSession d excuse next ∧ Keeps op session next := by
  cases op with
  | serverReads n stack =>
    rw [Deployment.step] at taken
    split at taken
    · rename_i enabled
      obtain ⟨⟨server, said⟩, hears, same⟩ := Option.map_eq_some_iff.mp taken
      obtain ⟨rfl, -⟩ := Prod.mk.inj same
      obtain ⟨kept, downloaded⟩ := inSession.serverReads sound uncut enabled.1 enabled.2 hears
      exact ⟨kept, fun _ => rfl, fun _ => downloaded, fun _ => rfl⟩
    · cases taken
  | clientReads n =>
    rw [Deployment.step] at taken
    split at taken
    · rename_i enabled
      obtain ⟨⟨client, said⟩, hears, same⟩ := Option.map_eq_some_iff.mp taken
      obtain ⟨rfl, -⟩ := Prod.mk.inj same
      obtain ⟨kept, uploaded, opened⟩ := inSession.clientReads sound enabled.1 enabled.2 hears
      exact ⟨kept, fun _ => uploaded, fun _ => rfl, fun _ => opened⟩
    · cases taken
  | remoteConnects address port =>
    obtain ⟨server, connected, same⟩ := Option.map_eq_some_iff.mp taken
    obtain ⟨rfl, -⟩ := Prod.mk.inj same
    obtain ⟨stage, unbound, bound, small, downloaded⟩ := inSession.server.remoteConnects connected
    have client := inSession.client
    rw [unbound] at client
    refine ⟨⟨stage, ?_⟩, fun _ => rfl, fun _ => downloaded, fun _ => rfl⟩
    have rebound : ClientAt d (some (address, port)) _ _ _ := client.rebound sound small
    rw [← bound] at rebound
    exact rebound
  | replyFlushed =>
    obtain ⟨⟨server, said⟩, flushed, same⟩ := Option.map_eq_some_iff.mp taken
    obtain ⟨rfl, -⟩ := Prod.mk.inj same
    obtain ⟨stage, bound, downloaded⟩ := inSession.server.replyFlushed flushed
    have client := inSession.client
    rw [← bound, ← session.down.heard_write said] at client
    exact ⟨⟨stage, client⟩, fun _ => rfl, fun _ => downloaded, fun _ => rfl⟩
  | uploads bytes =>
    obtain ⟨⟨client, said⟩, uploads, same⟩ := Option.map_eq_some_iff.mp taken
    obtain ⟨rfl, -⟩ := Prod.mk.inj same
    obtain ⟨stage, -, opened⟩ := inSession.client.uploads uploads
    have server := inSession.server
    rw [← session.up.heard_write said] at server
    refine ⟨⟨server, stage⟩, fun other => absurd rfl (other bytes), fun _ => rfl, fun _ => opened⟩
  | downloads bytes =>
    obtain ⟨⟨server, said⟩, downloads, same⟩ := Option.map_eq_some_iff.mp taken
    obtain ⟨rfl, -⟩ := Prod.mk.inj same
    obtain ⟨stage, bound, -⟩ := inSession.server.downloads sound downloads
    have client := inSession.client
    rw [← bound, ← session.down.heard_write said] at client
    exact ⟨⟨stage, client⟩, fun _ => rfl, fun other => absurd rfl (other bytes), fun _ => rfl⟩
  | remoteEnds =>
    obtain ⟨server, ends, same⟩ := Option.map_eq_some_iff.mp taken
    obtain ⟨rfl, -⟩ := Prod.mk.inj same
    obtain ⟨stage, bound, downloaded⟩ := inSession.server.remoteEnds (excused trivial) ends
    have client := inSession.client
    rw [← bound] at client
    exact ⟨⟨stage, client⟩, fun _ => rfl, fun _ => downloaded, fun _ => rfl⟩
  | serverEnds stack =>
    obtain ⟨server, ends, same⟩ := Option.map_eq_some_iff.mp taken
    obtain ⟨rfl, -⟩ := Prod.mk.inj same
    obtain ⟨stage, bound, downloaded⟩ := inSession.server.ends sound (excused trivial) ends
    have client := inSession.client
    rw [← bound] at client
    exact ⟨⟨stage, client⟩, fun _ => rfl, fun _ => downloaded, fun _ => rfl⟩
  | clientEnds =>
    obtain ⟨client, ends, same⟩ := Option.map_eq_some_iff.mp taken
    obtain ⟨rfl, -⟩ := Prod.mk.inj same
    obtain ⟨stage, uploaded⟩ := inSession.client.ends ends
    exact ⟨⟨inSession.server, stage⟩, fun _ => uploaded, fun _ => rfl, fun other => absurd rfl other⟩

/-- What the server's accounts and the client's credentials have to do with each other. -/
def Deployment.Authorized (d : Deployment) : Prop :=
  ¬d.accounts.RequiresAuth ∨ ∃ username password, d.credentials = ⟨some username, some password⟩ ∧
    d.accounts.password username = some password

/-- Nothing is asked for where there are no accounts. -/
theorem openly_free (course : d.course = .openly) : ¬d.accounts.RequiresAuth := by
  intro required
  rw [Deployment.course, if_pos required] at course
  split at course
  · split at course <;> cases course
  · cases course

theorem admits_authorized (admits : d.Admits) : d.Authorized := by
  rw [Deployment.Admits] at admits
  cases course : d.course with
  | openly => exact .inl (openly_free course)
  | judged username password =>
    rw [course] at admits
    exact .inr ⟨username, password, (d.judged_credentials course).1, admits⟩
  | refused =>
    rw [course] at admits
    exact admits.elim

/-- What holds between the ends at any time. The server connects at most once, for the client's
destination, and only for a client that its accounts allow; the client only hears the address that
the remote event is bound to; and the relay loses, repeats and reorders nothing. -/
structure SafeSession (d : Deployment) (session : Session) : Prop where
  connects : session.server.server.connects = [] ∨
    d.Authorized ∧ session.server.server.connects = [(d.host, d.port)]
  valid : d.Reaches → ∀ what, .invalid what ∉ session.server.server.log
  connected : session.client.reader.connected = [] ∨ ∃ address port text,
    session.server.bound = some (address, port) ∧ address.text d.platform = some text ∧
    session.client.reader.connected = [(some text, port)] ∧ session.server.server.connects = [(d.host, d.port)]
  uploaded : session.server.server.relayed <+: session.client.uploaded
  downloaded : session.client.reader.connected ≠ [] →
    session.client.reader.inBuffer ++ session.client.reader.unread <+: session.server.downloaded
  flights : session.server.server.live = true → session.server.server.readCb = .serverRead →
    session.server.server.relayed ++ session.up.flight = session.client.uploaded ∧
    (session.client.reader.connected ≠ [] →
      session.client.reader.inBuffer ++ session.client.reader.unread ++ session.down.flight =
        session.server.downloaded)

variable {bound : Option (BoundAddress × Nat)} {heard written : List Byte} {client : ClientEnd} {server : ServerEnd}

/-- A client that is connected has read the whole reply, and keeps what lies behind it. -/
theorem ClientAt.connected (stage : ClientAt d bound heard client written) (connected : client.reader.connected ≠ []) :
    ∃ address port text, bound = some (address, port) ∧ address.text d.platform = some text ∧
      client.reader.connected = [(some text, port)] ∧
      heard = d.answers ++ (replyBytes bound ++ (client.reader.inBuffer ++ client.reader.unread)) := by
  cases stage with
  | negotiating => exact absurd rfl connected
  | authenticating => exact absurd rfl connected
  | rejected => exact absurd rfl connected
  | requesting admits reads =>
    cases bound with
    | none =>
      rw [reads.2] at connected
      exact absurd rfl connected
    | some pair =>
      obtain ⟨address, port⟩ := pair
      obtain ⟨-, text, printed, framing⟩ := reads
      refine ⟨address, port, text, rfl, printed, ?_⟩
      cases framing with
      | header _ waiting => exact absurd waiting.connected connected
      | bindHost _ waiting => exact absurd waiting.connected connected
      | bindPort _ waiting => exact absurd waiting.connected connected
      | connected done =>
        refine ⟨done.connected, ?_⟩
        simp only [replyBytes, List.append_assoc, ← done.kept]

/-- A client that has gone beyond its introduction has sent its request. -/
theorem ClientAt.spoken (stage : ClientAt d bound heard client written)
    (long : d.introduction.length < written.length) :
    written = d.introduction ++ (d.request ++ client.uploaded) := by
  cases stage with
  | negotiating => exact absurd d.methods_prefix.length_le (Nat.not_le.mpr long)
  | authenticating => exact absurd long (Nat.lt_irrefl _)
  | rejected => exact absurd long (Nat.lt_irrefl _)
  | requesting => rfl

theorem ServerAt.relays (sound : d.Sound) (stage : ServerAt d excuse heard server written)
    (live : server.server.live = true) (readCb : server.server.readCb = .serverRead) :
    heard = d.introduction ++ (d.request ++ server.server.relayed) ∧
      written = d.answers ++ (replyBytes server.bound ++ server.downloaded) := by
  cases stage with
  | methods _ _ _ _ reads =>
    rcases reads with ⟨-, holds⟩ | ⟨-, holds, -⟩
    · cases holds.readCb.symm.trans readCb
    · cases holds.readCb.symm.trans readCb
  | judging _ _ _ _ _ _ holds => cases holds.readCb.symm.trans readCb
  | requested _ _ _ _ _ _ pending =>
    rcases (pending sound.bounds).kept with ⟨-, other, -⟩ | ⟨-, other, -⟩
    · cases other.symm.trans readCb
    · cases other.symm.trans readCb
  | connecting _ _ _ _ _ _ holds => cases holds.readCb.symm.trans readCb
  | relaying _ _ _ _ _ conduct =>
    rw [conduct.relayed]
    exact ⟨rfl, rfl⟩
  | ended ended =>
    rw [ended.dead] at live
    exact Bool.noConfusion live

theorem InSession.safe (sound : d.Sound) (inSession : InSession d excuse session) : SafeSession d session := by
  have conduct := inSession.server.conduct
  have speaks := inSession.client.speaks
  have answers := inSession.server.speaks.whole
  refine ⟨?_, ?_, ?_, ?_, ?_, ?_⟩
  · rcases conduct with ⟨-, conduct⟩ | ⟨admits, _, conduct, -⟩
    · exact .inl conduct.connects
    · exact .inr ⟨admits_authorized admits, conduct.connects⟩
  · rcases conduct with ⟨-, conduct⟩ | ⟨-, _, conduct, -⟩
    · exact conduct.valid
    · exact conduct.valid
  · by_cases connected : session.client.reader.connected = []
    · exact .inl connected
    · obtain ⟨address, port, text, bound, printed, once, -⟩ := inSession.client.connected connected
      refine .inr ⟨address, port, text, bound, printed, once, ?_⟩
      rcases conduct with ⟨unbound, -⟩ | ⟨-, _, conduct, -⟩
      · cases unbound.symm.trans bound
      · exact conduct.connects
  · rcases conduct with ⟨-, conduct⟩ | ⟨-, relayed, conduct, none | kept⟩
    · rw [conduct.relayed]
      exact List.nil_prefix
    · rw [conduct.relayed, none]
      exact List.nil_prefix
    · have within := session.up.heard_isPrefix.trans speaks.whole
      rw [kept, List.prefix_append_right_inj, List.prefix_append_right_inj] at within
      rw [conduct.relayed]
      exact within
  · intro connected
    obtain ⟨address, port, text, -, -, -, heard⟩ := inSession.client.connected connected
    have within := session.down.heard_isPrefix.trans answers
    rw [heard, List.prefix_append_right_inj, List.prefix_append_right_inj] at within
    exact within
  · intro live readCb
    obtain ⟨heard, written⟩ := inSession.server.relays sound live readCb
    constructor
    · have whole := session.up.heard_append_flight
      have long : d.introduction.length < session.up.written.length := by
        have positive := List.length_pos_iff.mpr (request_ne_nil d)
        rw [← whole, heard, List.length_append, List.length_append, List.length_append]
        omega
      rw [inSession.client.spoken long, heard, List.append_assoc, List.append_assoc] at whole
      exact List.append_cancel_left (List.append_cancel_left whole)
    · intro connected
      obtain ⟨address, port, text, -, -, -, heard⟩ := inSession.client.connected connected
      have whole := session.down.heard_append_flight
      rw [heard, written, List.append_assoc, List.append_assoc] at whole
      exact List.append_cancel_left (List.append_cancel_left whole)

/-- A session uses each of its pipes as an out-buffer and its peer do. -/
theorem step_moves {op : SessionOp} {out : Unit} (taken : d.step session op = some (next, out)) :
    Relation.ReflGen Pipe.Moves session.up next.up ∧ Relation.ReflGen Pipe.Moves session.down next.down := by
  cases op with
  | serverReads n stack =>
    rw [Deployment.step] at taken
    split at taken
    · rename_i enabled
      obtain ⟨⟨server, said⟩, -, same⟩ := Option.map_eq_some_iff.mp taken
      obtain ⟨rfl, -⟩ := Prod.mk.inj same
      exact ⟨.single (.advance enabled.2), .single (.write said)⟩
    · cases taken
  | clientReads n =>
    rw [Deployment.step] at taken
    split at taken
    · rename_i enabled
      obtain ⟨⟨client, said⟩, -, same⟩ := Option.map_eq_some_iff.mp taken
      obtain ⟨rfl, -⟩ := Prod.mk.inj same
      exact ⟨.single (.write said), .single (.advance enabled.2)⟩
    · cases taken
  | replyFlushed =>
    obtain ⟨⟨server, said⟩, -, same⟩ := Option.map_eq_some_iff.mp taken
    obtain ⟨rfl, -⟩ := Prod.mk.inj same
    exact ⟨.refl, .single (.write said)⟩
  | uploads bytes =>
    obtain ⟨⟨client, said⟩, -, same⟩ := Option.map_eq_some_iff.mp taken
    obtain ⟨rfl, -⟩ := Prod.mk.inj same
    exact ⟨.single (.write said), .refl⟩
  | downloads bytes =>
    obtain ⟨⟨server, said⟩, -, same⟩ := Option.map_eq_some_iff.mp taken
    obtain ⟨rfl, -⟩ := Prod.mk.inj same
    exact ⟨.refl, .single (.write said)⟩
  | remoteConnects | remoteEnds | serverEnds | clientEnds =>
    obtain ⟨end', -, same⟩ := Option.map_eq_some_iff.mp taken
    obtain ⟨rfl, -⟩ := Prod.mk.inj same
    exact ⟨.refl, .refl⟩

theorem session_moves {ops : List SessionOp} {last : Session} {outs : List Unit}
    (path : Run.run d.step d.start ops = some (last, outs)) :
    Relation.ReflTransGen Pipe.Moves Pipe.empty last.up ∧ Relation.ReflTransGen Pipe.Moves Pipe.empty last.down := by
  have onward {session next : Session} {op : SessionOp} {out : Unit}
      (moved : Relation.ReflTransGen Pipe.Moves Pipe.empty session.up ∧
        Relation.ReflTransGen Pipe.Moves Pipe.empty session.down)
      (taken : d.step session op = some (next, out)) :
      Relation.ReflTransGen Pipe.Moves Pipe.empty next.up ∧ Relation.ReflTransGen Pipe.Moves Pipe.empty next.down := by
    obtain ⟨up, down⟩ := step_moves taken
    exact ⟨moved.1.trans up.to_reflTransGen, moved.2.trans down.to_reflTransGen⟩
  have greets : Pipe.Moves Pipe.empty d.start.up := .write d.methods
  exact Run.run_invariant onward ⟨.single greets, .refl⟩ path

/-- What is in flight while the relay is on has been accepted by the kernel of its sender, or is in the
out-buffer still. -/
theorem SafeSession.carried (safe : SafeSession d session) (live : session.server.server.live = true)
    (relays : session.server.server.readCb = .serverRead) {up down : Delivery} (upward : up.Piped session.up)
    (downward : down.Piped session.down) :
    session.server.server.relayed ++ (up.arrived ++ up.stream.pending) = session.client.uploaded ∧
      (session.client.reader.connected ≠ [] →
        session.client.reader.inBuffer ++ session.client.reader.unread ++ (down.arrived ++ down.stream.pending) =
          session.server.downloaded) := by
  rw [← upward.flight, ← downward.flight]
  exact safe.flights live relays

/-- Every reachable state of a session, for any order of the events, any addresses and any cuts. -/
theorem session_safe (d : Deployment) (sound : d.Sound) (ops : List SessionOp) (last : Session) (outs : List Unit)
    (path : Run.run d.step d.start ops = some (last, outs)) (uncut : Run.Along d.step d.Cuts d.start ops) :
    SafeSession d last := by
  have reached : InSession d True last := Run.run_along
    (fun inSession uncut taken => (step_inSession sound inSession uncut (fun _ => trivial) taken).1)
    (InSession.start d True) uncut path
  exact reached.safe sound

/-- One account, and a client that has its password; the destination is the host `a`, port 80. -/
def accounted : Deployment := ⟨loopback, oneAccount, ⟨some user, some secret⟩, ⟨[97], nul_notMem_a⟩, 80⟩

theorem accounted_sound : accounted.Sound where
  prints := fun _ _ absent => by cases absent
  host := by decide
  port := by decide
  username := fun username same => by
    obtain rfl := Option.some.inj same
    decide
  password := fun password same => by
    obtain rfl := Option.some.inj same
    decide
  paired := fun _ _ _ absent => by cases absent

/-- The whole handshake with cuts, and a byte of the relay in each direction. -/
def accountedOps : List SessionOp :=
  [.serverReads 3 blank, .serverReads 1 blank, .clientReads 2, .serverReads 4 blank, .serverReads 1 blank,
    .clientReads 1, .clientReads 1, .serverReads 4 blank, .serverReads 4 blank,
    .remoteConnects (.inet ⟨[127, 0, 0, 1], rfl⟩) 4660, .replyFlushed, .clientReads 7, .clientReads 3,
    .uploads [71, 69], .serverReads 1 blank, .downloads [72], .clientReads 1]

theorem accounted_safe : ∃ last outs, Run.run accounted.step accounted.start accountedOps = some (last, outs) ∧
    SafeSession accounted last := by
  have defined : (Run.run accounted.step accounted.start accountedOps).isSome = true := by decide +kernel
  obtain ⟨⟨last, outs⟩, path⟩ := Option.isSome_iff_exists.mp defined
  exact ⟨last, outs, path,
    session_safe accounted accounted_sound accountedOps last outs path (by decide +kernel)⟩

end Devent.Docks
