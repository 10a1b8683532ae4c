import Devent.Docks.SessionProofs

/-! Where a handshake ends that nobody breaks off. Every event brings it nearer to its end, one
is left until then, and the end is settled by the accounts, the credentials and the
destination alone. -/
namespace Devent.Docks

/-- The events of the handshake. -/
def SessionOp.Handshakes : SessionOp → Prop
  | .serverReads .. | .clientReads _ | .remoteConnects .. | .replyFlushed => True
  | .uploads _ | .downloads _ | .remoteEnds | .serverEnds _ | .clientEnds => False

instance : (op : SessionOp) → Decidable op.Handshakes
  | .serverReads .. | .clientReads _ | .remoteConnects .. | .replyFlushed => .isTrue trivial
  | .uploads _ | .downloads _ | .remoteEnds | .serverEnds _ | .clientEnds => .isFalse id

/-- An event of the handshake that does not cut a message where it must not. -/
def Deployment.Calm (d : Deployment) (session : Session) (op : SessionOp) : Prop :=
  op.Handshakes ∧ d.Cuts session op

instance (d : Deployment) (session : Session) (op : SessionOp) : Decidable (d.Calm session op) :=
  inferInstanceAs (Decidable (_ ∧ _))

/-- The four ends: no method is acceptable, the password is rejected, no event is made for the
destination, or both ends are connected. The accounts, the credentials and the destination leave
one of them. -/
inductive Outcome (d : Deployment) (session : Session) : Prop
  | refused (course : d.course = .refused) (freed : session.server.server.live = false)
      (unconnected : session.server.server.connects = []) (unheard : session.client.reader.connected = [])
  | rejected {username password : CString} (course : d.course = .judged username password)
      (rejects : ¬d.Admits) (live : session.server.server.live = true)
      (unconnected : session.server.server.connects = []) (unheard : session.client.reader.connected = [])
      (stuck : session.client.client.readCb = .onReadUP)
  | unreached (admits : d.Admits) (unreached : ¬d.Reaches) (freed : session.server.server.live = false)
      (once : session.server.server.connects = [(d.host, d.port)]) (unheard : session.client.reader.connected = [])
  | connected (admits : d.Admits) (reaches : d.Reaches) (live : session.server.server.live = true)
      (relays : session.server.server.readCb = .serverRead)
      (once : session.server.server.connects = [(d.host, d.port)])
      (hears : ∃ address port text, session.server.bound = some (address, port) ∧
        address.text d.platform = some text ∧ session.client.reader.connected = [(some text, port)])

/-- What the events of a handshake gain on. -/
def Session.progress (session : Session) : Nat :=
  session.up.taken + session.down.taken + session.down.written.length + session.server.bound.toList.length

/-- A handshake in progress. -/
structure Shaking (d : Deployment) (session : Session) : Prop where
  inSession : InSession d False session
  uploaded : session.client.uploaded = []
  downloaded : session.server.downloaded = []
  opened : session.client.opened = true

variable {d : Deployment} {session next : Session}

theorem Shaking.start (d : Deployment) : Shaking d d.start := ⟨.start d False, rfl, rfl, rfl⟩

theorem Shaking.step {op : SessionOp} {out : Unit} (sound : d.Sound) (shaking : Shaking d session)
    (calm : d.Calm session op) (taken : d.step session op = some (next, out)) : Shaking d next := by
  have steady : ¬op.Disturbs := by
    have handshakes := calm.1
    cases op with
    | serverReads | clientReads | remoteConnects | replyFlushed => exact id
    | uploads | downloads | remoteEnds | serverEnds | clientEnds => exact handshakes.elim
  obtain ⟨inSession, keeps⟩ := step_inSession sound shaking.inSession calm.2 steady taken
  refine ⟨inSession, ?_, ?_, ?_⟩
  · rw [keeps.uploaded (by rintro bytes rfl; exact calm.1), shaking.uploaded]
  · rw [keeps.downloaded (by rintro bytes rfl; exact calm.1), shaking.downloaded]
  · rw [keeps.opened (by rintro rfl; exact calm.1), shaking.opened]

/-- No handshake takes more events than this. -/
def Deployment.longest (d : Deployment) : Nat :=
  d.introduction.length + d.request.length + 2 * (d.answers.length + 22) + 1

theorem hear_bound {peer server : ServerEnd} {platform : Platform} {config : ServerConfig} {stack : Nat → Byte}
    {bytes said : List Byte} (taken : peer.hear platform config stack bytes = some (server, said)) :
    server.bound = peer.bound := by
  obtain ⟨⟨next, out⟩, -, same⟩ := Option.bind_eq_some_iff.mp taken
  obtain ⟨rfl, -⟩ := Prod.mk.inj (Option.some.inj same)
  rfl

/-- The reply is sent as a whole. -/
theorem ServerAt.flushes {excuse : Prop} {heard written bytes : List Byte} {peer server : ServerEnd}
    (stage : ServerAt d excuse heard peer written)
    (taken : peer.replyFlushed d.platform d.accounts = some (server, bytes)) :
    server.bound = peer.bound ∧ bytes ≠ [] := by
  refine ⟨(stage.replyFlushed taken).2.1, ?_⟩
  rw [ServerEnd.replyFlushed] at taken
  split at taken
  · cases taken
  · rename_i enabled
    obtain ⟨bound, other⟩ := not_or.mp enabled
    rw [Docks.step] at taken
    split at taken
    · rename_i started
      obtain ⟨-, rfl⟩ := Prod.mk.inj (Option.some.inj taken)
      obtain ⟨-, -, outBuffer, -⟩ := stage.late started.1 started.2
      rw [if_neg other] at outBuffer
      rw [outBuffer]
      obtain ⟨pair, named⟩ := Option.ne_none_iff_exists'.mp (fun none => bound (Option.isNone_iff_eq_none.mpr none))
      rw [named]
      exact List.cons_ne_nil _ _
    · cases taken

theorem Shaking.grows {op : SessionOp} {out : Unit} (shaking : Shaking d session)
    (calm : d.Calm session op) (taken : d.step session op = some (next, out)) : session.progress < next.progress := by
  have handshakes := calm.1
  cases op with
  | serverReads n stack =>
    rw [Deployment.step] at taken
    split at taken
    · rename_i enabled
      obtain ⟨⟨server, said⟩, hears, same⟩ := Option.map_eq_some_iff.mp taken
      obtain ⟨rfl, -⟩ := Prod.mk.inj same
      have gained := session.up.taken_advance enabled.2
      have bound := hear_bound hears
      simp only [Session.progress, gained, bound, Pipe.taken_write, Pipe.written_write, List.length_append]
      omega
    · cases taken
  | clientReads n =>
    rw [Deployment.step] at taken
    split at taken
    · rename_i enabled
      obtain ⟨⟨client, said⟩, hears, same⟩ := Option.map_eq_some_iff.mp taken
      obtain ⟨rfl, -⟩ := Prod.mk.inj same
      have gained := session.down.taken_advance enabled.2
      simp only [Session.progress, gained, Pipe.taken_write, Pipe.written_advance]
      omega
    · cases taken
  | remoteConnects address port =>
    obtain ⟨server, connected, same⟩ := Option.map_eq_some_iff.mp taken
    obtain ⟨rfl, -⟩ := Prod.mk.inj same
    obtain ⟨-, unbound, bound, -⟩ := shaking.inSession.server.remoteConnects connected
    simp only [Session.progress, unbound, bound, Option.toList_none, Option.toList_some, List.length_nil,
      List.length_singleton]
    omega
  | replyFlushed =>
    obtain ⟨⟨server, said⟩, flushed, same⟩ := Option.map_eq_some_iff.mp taken
    obtain ⟨rfl, -⟩ := Prod.mk.inj same
    obtain ⟨bound, some'⟩ := shaking.inSession.server.flushes flushed
    have positive := List.length_pos_iff.mpr some'
    simp only [Session.progress, bound, Pipe.taken_write, Pipe.written_write, List.length_append]
    omega
  | uploads | downloads | remoteEnds | serverEnds | clientEnds => exact handshakes.elim

variable {excuse : Prop} {heard written : List Byte} {client : ClientEnd} {server : ServerEnd}
  {bound : Option (BoundAddress × Nat)}

/-- Reading all there is cuts no message. -/
theorem ClientAt.uncut (stage : ClientAt d bound heard client written) : d.Uncut written.length := by
  have methods := d.methods_prefix.length_le
  have judged {username password : CString} (course : d.course = .judged username password) :
      d.introduction.length = d.methods.length + (3 + username.strlen + password.strlen) := by
    rw [judged_introduction course, List.length_append, authMessage_length]
  cases stage with
  | negotiating =>
    refine ⟨?_, .inl (by omega)⟩
    cases course : d.course with
    | judged username password => exact fun (same : _ = _ + _) => by omega
    | openly | refused => trivial
  | authenticating course' =>
    refine ⟨?_, .inl (Nat.le_add_right ..)⟩
    cases course : d.course with
    | judged username password =>
      have length := judged course
      exact fun (same : _ = _ + _) => by omega
    | openly | refused => trivial
  | rejected course' =>
    refine ⟨?_, .inl (Nat.le_add_right ..)⟩
    cases course : d.course with
    | judged username password =>
      have length := judged course
      exact fun (same : _ = _ + _) => by omega
    | openly | refused => trivial
  | requesting =>
    refine ⟨?_, .inr (by simp only [List.length_append]; omega)⟩
    simp only [List.length_append]
    cases course : d.course with
    | judged username password =>
      have length := judged course
      exact fun (same : _ = _ + _) => by omega
    | openly | refused => trivial

theorem ServerAt.ended_of_dead (sound : d.Sound) (stage : ServerAt d excuse heard server written)
    (dead : server.server.live = false) : Ended d excuse heard server written := by
  cases stage with
  | methods _ _ _ _ reads =>
    rcases reads with ⟨-, holds⟩ | ⟨-, holds, -⟩
    · cases holds.live.symm.trans dead
    · cases holds.live.symm.trans dead
  | judging _ _ _ _ _ _ holds => cases holds.live.symm.trans dead
  | requested _ _ _ _ _ _ pending => cases (pending sound.bounds).live.symm.trans dead
  | connecting _ _ _ _ _ _ holds => cases holds.live.symm.trans dead
  | relaying _ _ _ _ _ _ holds => cases holds.live.symm.trans dead
  | ended ended => exact ended

theorem refused_rejects (course : d.course = .refused) : ¬d.Admits := by
  rw [Deployment.Admits, course]
  exact id

/-- The client reports a connection exactly if it is admitted and its destination is looked up. -/
theorem Outcome.connected_iff (outcome : Outcome d session) :
    session.client.reader.connected ≠ [] ↔ d.Admits ∧ d.Reaches := by
  cases outcome with
  | refused course _ _ unheard =>
    exact iff_of_false (absurd unheard) fun both => absurd both.1 (refused_rejects course)
  | rejected _ rejects _ _ unheard => exact iff_of_false (absurd unheard) fun both => rejects both.1
  | unreached _ unreached _ _ unheard => exact iff_of_false (absurd unheard) fun both => unreached both.2
  | connected admits reaches _ _ _ hears =>
    obtain ⟨address, port, text, -, -, connected⟩ := hears
    refine iff_of_true ?_ ⟨admits, reaches⟩
    rw [connected]
    exact List.cons_ne_nil _ _

theorem Shaking.unheard (shaking : Shaking d session) (unbound : session.server.bound = none) :
    session.client.reader.connected = [] := by
  by_contra connected
  obtain ⟨address, port, text, bound, -⟩ := shaking.inSession.client.connected connected
  cases unbound.symm.trans bound

/-- Without the event nothing more happens. -/
theorem Shaking.outcome_of_dead (sound : d.Sound) (shaking : Shaking d session)
    (dead : session.server.server.live = false) : Outcome d session := by
  have ended := shaking.inSession.server.ended_of_dead sound dead
  rcases ended.cause with impossible | course | ⟨unreached, unbound, once⟩
  · exact impossible.elim
  · rcases ended.conduct with ⟨unbound, conduct⟩ | ⟨admits, -⟩
    · exact .refused course dead conduct.connects (shaking.unheard unbound)
    · exact absurd admits (refused_rejects course)
  · rcases ended.conduct with ⟨-, conduct⟩ | ⟨admits, -⟩
    · cases conduct.connects.symm.trans once
    · exact .unreached admits unreached dead once (shaking.unheard unbound)

/-- The server's event reads what is in flight. -/
theorem Shaking.serverReads (sound : d.Sound) (shaking : Shaking d session)
    (live : session.server.server.live = true) (more : session.up.flight ≠ []) :
    ∃ op next out, d.Calm session op ∧ d.step session op = some (next, out) := by
  have positive := List.length_pos_iff.mpr more
  have all : session.up.taken + session.up.flight.length = session.up.written.length := by
    have within := session.up.within
    rw [Pipe.length_flight]
    omega
  have uncut : d.Uncut (session.up.taken + session.up.flight.length) := by
    rw [all]
    exact shaking.inSession.client.uncut
  obtain ⟨next, said, hears, -⟩ :=
    shaking.inSession.serverHears blank sound live uncut positive (Nat.le_refl _)
  have taken : d.step session (.serverReads session.up.flight.length blank) = some (⟨next, session.client,
      session.up.advance session.up.flight.length, session.down.write said⟩, ()) := by
    rw [Deployment.step, if_pos ⟨positive, Nat.le_refl _⟩, hears]
    rfl
  have calm : d.Calm session (.serverReads session.up.flight.length blank) := ⟨trivial, uncut⟩
  exact ⟨_, _, _, calm, taken⟩

theorem Shaking.clientReads (sound : d.Sound) (shaking : Shaking d session) (more : session.down.flight ≠ []) :
    ∃ op next out, d.Calm session op ∧ d.step session op = some (next, out) := by
  have positive := List.length_pos_iff.mpr more
  obtain ⟨next, said, hears, -⟩ :=
    shaking.inSession.clientHears sound shaking.opened positive (Nat.le_refl _)
  have taken : d.step session (.clientReads session.down.flight.length) = some (⟨session.server, next,
      session.up.write said, session.down.advance session.down.flight.length⟩, ()) := by
    rw [Deployment.step, if_pos ⟨positive, Nat.le_refl _⟩, hears]
    rfl
  have calm : d.Calm session (.clientReads session.down.flight.length) := ⟨trivial, trivial⟩
  exact ⟨_, _, _, calm, taken⟩

/-- The client's stage, by how much it has heard and written. -/
theorem ClientAt.view (stage : ClientAt d bound heard client written) :
    heard.length < 2 ∧ written = d.methods ∨
      (∃ username password, d.course = .judged username password) ∧ 2 ≤ heard.length ∧ heard.length < 4 ∧
        written = d.introduction ∨
      ((∃ username password, d.course = .judged username password) ∧ ¬d.Admits) ∧ heard = d.answers ∧
        written = d.introduction ∧ client.reader.connected = [] ∧ client.client.readCb = .onReadUP ∨
      d.Admits ∧ written = d.introduction ++ (d.request ++ client.uploaded) ∧
        ∃ sofar, heard = d.answers ++ sofar ∧ ReadsReply d sofar client.reader bound := by
  cases stage with
  | negotiating short => exact .inl ⟨short, rfl⟩
  | authenticating course short =>
    have two := (judged_lengths course).1
    refine .inr (.inl ⟨⟨_, _, course⟩, ?_, ?_, rfl⟩)
    · rw [List.length_append]
      omega
    · rw [List.length_append]
      omega
  | rejected course rejects => exact .inr (.inr (.inl ⟨⟨⟨_, _, course⟩, rejects⟩, rfl, rfl, rfl, rfl⟩))
  | requesting admits reads => exact .inr (.inr (.inr ⟨admits, rfl, _, rfl, reads⟩))

/-- Both ends have read all there is: the client is rejected, the remote event is awaited, or the
reply has come. -/
theorem settled_stages (server' : ServerAt d False heard server written)
    (client' : ClientAt d server.bound written client heard)
    (live : server.server.live = true) (uploaded : client.uploaded = []) (downloaded : server.downloaded = []) :
    (((∃ username password, d.course = .judged username password) ∧ ¬d.Admits) ∧ server.server.connects = [] ∧
        client.reader.connected = [] ∧ client.client.readCb = .onReadUP) ∨
      (server.server.connects = [(d.host, d.port)] ∧ server.server.readCb = .readAddress ∧
        server.server.context.replyData = ReplyReader.replyHeader) ∨
      (d.Admits ∧ d.Reaches ∧ server.server.readCb = .serverRead ∧ server.server.connects = [(d.host, d.port)] ∧
        ∃ address port text, server.bound = some (address, port) ∧ address.text d.platform = some text ∧
          client.reader.connected = [(some text, port)]) := by
  have view := client'.view
  have methods := d.methods_prefix.length_le
  have positive := List.length_pos_iff.mpr (request_ne_nil d)
  rw [uploaded, List.append_nil] at view
  cases server' with
  | methods inside short =>
    rcases view with ⟨-, rfl⟩ | ⟨-, -, -, rfl⟩ | ⟨-, -, rfl, -⟩ | ⟨-, rfl, -⟩
    · exact absurd short (Nat.lt_irrefl _)
    · exact absurd methods (Nat.not_le.mpr short)
    · exact absurd methods (Nat.not_le.mpr short)
    · rw [List.length_append] at short
      omega
  | judging course inside short apart unbound conduct =>
    rename_i sofar username password
    obtain ⟨two, four⟩ := judged_lengths course
    have length := congrArg List.length (judged_introduction course)
    rw [List.length_append] at length
    rcases view with ⟨few, -⟩ | ⟨-, -, -, same⟩ | ⟨-, same, -⟩ | ⟨-, -, sofar, same, -⟩
    · omega
    · have lengths := congrArg List.length same
      rw [List.length_append] at lengths
      omega
    · have lengths := congrArg List.length same
      omega
    · have lengths := congrArg List.length same
      rw [List.length_append] at lengths
      omega
  | requested heeded inside short unbegun unbound conduct =>
    have two : 2 ≤ d.answers.length := by
      cases course : d.course with
      | openly => exact admitted_answers (openly_answers course).2.2
      | judged => exact Nat.le_trans (by decide) (Nat.le_of_eq (judged_lengths course).2.symm)
      | refused => exact absurd course heeded
    rcases view with ⟨few, -⟩ | ⟨⟨username, password, course⟩, -, few, -⟩ | ⟨rejects, -, -, unheard, stuck⟩ |
      ⟨-, same, -⟩
    · omega
    · have four := (judged_lengths course).2
      omega
    · exact .inl ⟨rejects, conduct.connects, unheard, stuck⟩
    · rw [List.append_cancel_left same] at short
      exact absurd short (Nat.lt_irrefl _)
  | connecting admits reaches small outBuffer none conduct holds replyData =>
    exact .inr (.inl ⟨conduct.connects, holds.readCb, replyData⟩)
  | relaying admits reaches small bound outBuffer conduct holds =>
    refine .inr (.inr ⟨admits, reaches, holds.readCb, conduct.connects, ?_⟩)
    obtain ⟨⟨address, port⟩, named⟩ := Option.ne_none_iff_exists'.mp bound
    rw [downloaded, List.append_nil, named] at view
    have two := admitted_answers admits
    have reply : 2 < (replyBytes (some (address, port))).length := by
      rw [replyBytes, List.length_append]
      exact Nat.lt_of_lt_of_le (by decide) (Nat.le_add_right ..)
    rcases view with ⟨few, -⟩ | ⟨-, -, few, -⟩ | ⟨rejects, -⟩ | ⟨-, -, sofar, same, reads⟩
    · rw [List.length_append] at few
      omega
    · rw [List.length_append] at few
      omega
    · exact absurd admits rejects.2
    · obtain ⟨-, text, printed, framing⟩ := reads
      rw [← List.append_cancel_left same, replyBytes, ← List.append_nil (uShortToData port)] at framing
      exact ⟨address, port, text, named, printed, framing.whole.connected⟩
  | ended ended =>
    rw [ended.dead] at live
    exact Bool.noConfusion live

/-- The remote event is connected, and the reply sent. -/
theorem answers_left (live : session.server.server.live = true)
    (once : session.server.server.connects = [(d.host, d.port)]) (readCb : session.server.server.readCb = .readAddress)
    (replyData : session.server.server.context.replyData = ReplyReader.replyHeader) :
    ∃ op next out, d.Calm session op ∧ d.step session op = some (next, out) := by
  have connected : session.server.server.connects ≠ [] := by
    rw [once]
    exact List.cons_ne_nil _ _
  cases bound : session.server.bound with
  | none =>
    have three : session.server.server.context.replyData.length = 3 := by
      rw [replyData]
      rfl
    have enabled : session.server.server.live ∧ session.server.server.connects ≠ [] ∧
        session.server.bound.isNone ∧ 0 < 65536 := ⟨live, connected, by rw [bound]; rfl, by decide⟩
    have calm : d.Calm session (.remoteConnects (.inet ⟨[0, 0, 0, 0], rfl⟩) 0) := ⟨trivial, trivial⟩
    have taken : ∃ next, d.step session (.remoteConnects (.inet ⟨[0, 0, 0, 0], rfl⟩) 0) = some (next, ()) := by
      rw [Deployment.step, ServerEnd.remoteConnects, if_pos enabled, sendClientAuthResponse_eq three]
      exact ⟨_, rfl⟩
    obtain ⟨next, taken⟩ := taken
    exact ⟨_, next, (), calm, taken⟩
  | some pair =>
    have idle : ¬(session.server.bound.isNone ∨ session.server.server.readCb = .serverRead) := by
      rw [bound, readCb]
      rintro (none | other)
      · cases none
      · cases other
    have calm : d.Calm session .replyFlushed := ⟨trivial, trivial⟩
    have taken : ∃ next, d.step session .replyFlushed = some (next, ()) := by
      rw [Deployment.step, ServerEnd.replyFlushed, if_neg idle, Docks.step, if_pos ⟨live, connected⟩]
      exact ⟨_, rfl⟩
    obtain ⟨next, taken⟩ := taken
    exact ⟨_, next, (), calm, taken⟩

/-- Both ends have read all there is. -/
theorem Shaking.settled (shaking : Shaking d session) (live : session.server.server.live = true)
    (up : session.up.flight = []) (down : session.down.flight = []) :
    Outcome d session ∨ ∃ op next out, d.Calm session op ∧ d.step session op = some (next, out) := by
  have server := shaking.inSession.server
  have client := shaking.inSession.client
  rw [session.up.flight_nil_iff.mp up] at server
  rw [session.down.flight_nil_iff.mp down] at client
  rcases settled_stages server client live shaking.uploaded shaking.downloaded with
    ⟨⟨⟨username, password, course⟩, rejects⟩, unconnected, unheard, stuck⟩ | ⟨once, readCb, replyData⟩ |
    ⟨admits, reaches, relays, once, hears⟩
  · exact .inl (.rejected course rejects live unconnected unheard stuck)
  · exact .inr (answers_left live once readCb replyData)
  · exact .inl (.connected admits reaches live relays once hears)

theorem Shaking.left (sound : d.Sound) (shaking : Shaking d session) :
    Outcome d session ∨ ∃ op next out, d.Calm session op ∧ d.step session op = some (next, out) := by
  cases live : session.server.server.live with
  | false => exact .inl (shaking.outcome_of_dead sound live)
  | true =>
    by_cases up : session.up.flight = []
    · by_cases down : session.down.flight = []
      · exact shaking.settled live up down
      · exact .inr (shaking.clientReads sound down)
    · exact .inr (shaking.serverReads sound live up)

end Devent.Docks
