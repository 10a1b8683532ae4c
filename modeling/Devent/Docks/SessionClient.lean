import Devent.Docks.Session

/-! The client's end of a session. What it writes follows from what it has heard: the next
message only behind the answer to the last, the request only when it is admitted, and
bytes of the relay only behind the whole reply. -/
namespace Devent.Docks

/-- How a handshake goes: the server asks for nothing, judges the credentials, or accepts no
method. -/
inductive Course where
  | openly
  | judged (username password : CString)
  | refused

namespace Deployment

def course (d : Deployment) : Course :=
  if d.accounts.RequiresAuth then
    match d.credentials.username, d.credentials.password with
    | some username, some password => if username.strlen = 0 then .refused else .judged username password
    | _, _ => .refused
  else .openly

/-- Nothing but the destination and the credentials limits the handshake. A user comes with a
password, and every length is one that a signed byte can count. -/
structure Sound (d : Deployment) : Prop where
  prints : ∀ ip : List Byte, ip.length = ipv6Len → d.platform.inetNtop ip ≠ none
  host : 1 ≤ d.host.strlen ∧ d.host.strlen ≤ 127
  port : d.port < 65536
  username : ∀ username ∈ d.credentials.username, username.strlen ≤ 127
  password : ∀ password ∈ d.credentials.password, password.strlen ≤ 127
  paired : ∀ username ∈ d.credentials.username, username.strlen ≠ 0 → d.credentials.password ≠ none

def request (d : Deployment) : List Byte := requestMessage d.host d.port

/-- What the client says before its request. -/
def introduction (d : Deployment) : List Byte :=
  match d.course with
  | .judged username password => d.methods ++ authMessage username password
  | .openly | .refused => d.methods

/-- The method the server chooses; it frees the event before a refusal is sent. -/
def choice (d : Deployment) : List Byte :=
  match d.course with
  | .openly => [socks5Version, methodNoAuthenticationRequired]
  | .judged .. => [socks5Version, methodUsernamePassword]
  | .refused => []

/-- The server's answers to the introduction. -/
def answers (d : Deployment) : List Byte :=
  match d.course with
  | .judged username password => d.choice ++ authReply (accepts d.accounts username password)
  | .openly | .refused => d.choice

/-- No accounts are kept, or the client's password is the one that is kept for its user. -/
def Admits (d : Deployment) : Prop :=
  match d.course with
  | .openly => True
  | .judged username password => d.accounts.password username = some password
  | .refused => False

theorem choice_prefix (d : Deployment) : d.choice <+: d.answers := by
  rw [answers]
  split
  · exact List.prefix_append ..
  · exact List.prefix_rfl
  · exact List.prefix_rfl

theorem methods_prefix (d : Deployment) : d.methods <+: d.introduction := by
  rw [introduction]
  split
  · exact List.prefix_append ..
  · exact List.prefix_rfl
  · exact List.prefix_rfl

/-- The courses by what they mean for the credentials. -/
theorem judged_credentials {d : Deployment} {username password : CString}
    (course : d.course = .judged username password) :
    d.credentials = ⟨some username, some password⟩ ∧ username.strlen ≠ 0 ∧ d.accounts.RequiresAuth := by
  obtain ⟨platform, accounts, ⟨user, secret⟩, host, port⟩ := d
  rw [Deployment.course] at course
  split at course
  · rename_i required
    split at course
    · split at course
      · cases course
      · rename_i u p named word nonempty
        obtain ⟨rfl, rfl⟩ := Course.judged.inj course
        cases named
        cases word
        exact ⟨rfl, nonempty, required⟩
    · cases course
  · cases course

end Deployment

/-- The bytes of the reply once the remote event is bound. -/
def replyBytes : Option (BoundAddress × Nat) → List Byte
  | none => []
  | some (address, port) => ReplyReader.replyHeader ++ (ReplyReader.boundHost address ++ uShortToData port)

/-- The reader of the reply behind a part of it, or behind all of it and a part of the relay. -/
def ReadsReply (d : Deployment) (sofar : List Byte) (reader : ReplyReader) : Option (BoundAddress × Nat) → Prop
  | none => sofar = [] ∧ reader = ReplyReader.start
  | some (address, port) => port < 65536 ∧ ∃ host, address.text d.platform = some host ∧
      ReplyReader.Framing (ReplyReader.boundHost address) host port sofar reader

/-- The client's end by what it has heard, and what it has written. -/
inductive ClientAt (d : Deployment) (bound : Option (BoundAddress × Nat)) :
    List Byte → ClientEnd → List Byte → Prop
  | negotiating {heard : List Byte} {opened : Bool} (short : heard.length < 2) :
      ClientAt d bound heard ⟨d.client heard .onReadNegotication,
        { ReplyReader.start with inBuffer := heard }, opened, []⟩ d.methods
  | authenticating {sofar : List Byte} {opened : Bool} {username password : CString}
      (course : d.course = .judged username password) (short : sofar.length < 2) :
      ClientAt d bound (d.choice ++ sofar) ⟨d.client sofar .onReadUP,
        { ReplyReader.start with inBuffer := sofar }, opened, []⟩ d.introduction
  | rejected {opened : Bool} {username password : CString} (course : d.course = .judged username password)
      (rejects : ¬d.Admits) :
      ClientAt d bound d.answers ⟨d.client [] .onReadUP, ReplyReader.start, opened, []⟩
        d.introduction
  | requesting {sofar uploaded : List Byte} {reader : ReplyReader} {opened : Bool} (admits : d.Admits)
      (reads : ReadsReply d sofar reader bound) (quiet : reader.connected = [] → uploaded = []) :
      ClientAt d bound (d.answers ++ sofar)
        ⟨d.client [] .onReadServerConnect, reader, opened, uploaded⟩
        (d.introduction ++ (d.request ++ uploaded))

/-- What was written is bounded by what was heard. -/
structure ClientSpeaks (d : Deployment) (heard written uploaded : List Byte) : Prop where
  first : heard.length < 2 → written = d.methods
  second : heard.length < d.answers.length → written <+: d.introduction
  third : heard <+: d.answers → written <+: d.introduction ++ d.request
  whole : written <+: d.introduction ++ (d.request ++ uploaded)
  admits : d.introduction.length < written.length → d.Admits

variable {d : Deployment} {bound : Option (BoundAddress × Nat)} {heard written sofar bytes downloaded : List Byte}
  {peer : ClientEnd} {username password : CString}

theorem judged_choice (course : d.course = .judged username password) :
    d.choice = [socks5Version, methodUsernamePassword] := by
  rw [Deployment.choice, course]

theorem judged_answers (course : d.course = .judged username password) :
    d.answers = d.choice ++ authReply (accepts d.accounts username password) := by
  rw [Deployment.answers, course]

theorem judged_introduction (course : d.course = .judged username password) :
    d.introduction = d.methods ++ authMessage username password := by
  rw [Deployment.introduction, course]

theorem judged_admits_iff (course : d.course = .judged username password) :
    d.Admits ↔ accepts d.accounts username password = true := by
  rw [Deployment.Admits, course, accepts, decide_eq_true_iff]

theorem admitted_choice (admits : d.Admits) : d.choice.length = 2 := by
  rw [Deployment.Admits] at admits
  rw [Deployment.choice]
  cases course : d.course with
  | openly => rfl
  | judged => rfl
  | refused =>
    rw [course] at admits
    exact admits.elim

theorem admitted_answers (admits : d.Admits) : 2 ≤ d.answers.length := by
  rw [← admitted_choice admits]
  exact d.choice_prefix.length_le

theorem judged_lengths (course : d.course = .judged username password) :
    d.choice.length = 2 ∧ d.answers.length = 4 := by
  rw [judged_answers course, judged_choice course]
  exact ⟨rfl, rfl⟩

theorem length_choice_le (d : Deployment) : d.choice.length ≤ 2 := by
  rw [Deployment.choice]
  cases d.course <;> simp

theorem openly_answers (course : d.course = .openly) :
    d.answers = d.choice ∧ d.introduction = d.methods ∧ d.Admits := by
  refine ⟨?_, ?_, ?_⟩
  · rw [Deployment.answers, course]
  · rw [Deployment.introduction, course]
  · rw [Deployment.Admits, course]
    trivial

theorem request_ne_nil (d : Deployment) : d.request ≠ [] := List.cons_ne_nil _ _

/-- Before the first byte of the reply the reader has not called `on_server_connect`. -/
theorem ReadsReply.quiet_start {reader : ReplyReader} (reads : ReadsReply d [] reader bound) :
    reader.connected = [] := by
  cases bound with
  | none =>
    rw [reads.2]
    rfl
  | some pair =>
    obtain ⟨-, host, -, framing⟩ := reads
    generalize begun : ([] : List Byte) = arrived at framing
    cases framing with
    | header _ waiting => exact waiting.connected
    | bindHost _ waiting => exact waiting.connected
    | bindPort _ waiting => exact waiting.connected
    | connected done => cases begun

theorem ClientAt.speaks (stage : ClientAt d bound heard peer written) :
    ClientSpeaks d heard written peer.uploaded := by
  have methods := d.methods_prefix
  cases stage with
  | negotiating short =>
    constructor
    · exact fun _ => rfl
    · exact fun _ => methods
    · exact fun _ => methods.trans (List.prefix_append ..)
    · exact methods.trans (List.prefix_append ..)
    · exact fun long => absurd methods.length_le (Nat.not_le.mpr long)
  | authenticating course short =>
    constructor
    · intro early
      rw [List.length_append, (judged_lengths course).1] at early
      omega
    · exact fun _ => List.prefix_rfl
    · exact fun _ => List.prefix_append ..
    · exact List.prefix_append ..
    · exact fun long => absurd long (Nat.lt_irrefl _)
  | rejected course rejects =>
    constructor
    · intro early
      rw [(judged_lengths course).2] at early
      omega
    · exact fun _ => List.prefix_rfl
    · exact fun _ => List.prefix_append ..
    · exact List.prefix_append ..
    · exact fun long => absurd long (Nat.lt_irrefl _)
  | requesting admits reads quiet =>
    have two := admitted_answers admits
    constructor
    · intro early
      rw [List.length_append] at early
      omega
    · intro early
      rw [List.length_append] at early
      omega
    · intro only
      have nothing := List.append_right_eq_self.mp (only.eq_of_length_le (by simp))
      subst nothing
      rw [quiet reads.quiet_start, List.append_nil]
    · exact List.prefix_rfl
    · exact fun _ => admits

theorem greets_flushed (d : Deployment) : { d.greets with outBuffer := [] } = d.client [] .onReadNegotication := by
  rw [Deployment.greets, writeMethods]
  split <;> rfl

theorem ClientAt.start (d : Deployment) : ClientAt d none [] d.start.client d.methods := by
  have short : ([] : List Byte).length < 2 := Nat.two_pos
  rw [Deployment.start, greets_flushed]
  exact .negotiating short

theorem hear_negotiating {heard : List Byte} {opened : Bool} (open' : opened = true) (bytes : List Byte) :
    ClientEnd.hear d.platform bytes ⟨d.client heard .onReadNegotication,
        { ReplyReader.start with inBuffer := heard }, opened, []⟩ =
      (onReadNegotication (d.client (heard ++ bytes) .onReadNegotication)).map fun client =>
        (⟨{ client with outBuffer := [] }, { ReplyReader.start with inBuffer := client.inBuffer }, opened, []⟩,
          client.outBuffer) := by
  rw [ClientEnd.hear, if_pos open']
  rfl

theorem hear_authenticating {sofar : List Byte} {opened : Bool} (open' : opened = true) (bytes : List Byte) :
    ClientEnd.hear d.platform bytes ⟨d.client sofar .onReadUP,
        { ReplyReader.start with inBuffer := sofar }, opened, []⟩ =
      (onReadUP (d.client (sofar ++ bytes) .onReadUP)).map fun client =>
        (⟨{ client with outBuffer := [] }, { ReplyReader.start with inBuffer := client.inBuffer }, opened, []⟩,
          client.outBuffer) := by
  rw [ClientEnd.hear, if_pos open']
  rfl

/-- Short input is left in the in-buffer. -/
theorem onReadNegotication_short {client : Client} (short : client.inBuffer.length < 2) :
    onReadNegotication client = some client := by
  rw [onReadNegotication]
  rcases buffer : client.inBuffer with _ | ⟨first, _ | ⟨second, rest⟩⟩
  · rfl
  · rfl
  · rw [buffer, List.length_cons, List.length_cons] at short
    omega

theorem onReadUP_short {client : Client} (short : client.inBuffer.length < 2) : onReadUP client = some client := by
  rw [onReadUP]
  rcases buffer : client.inBuffer with _ | ⟨first, _ | ⟨second, rest⟩⟩
  · rfl
  · rfl
  · rw [buffer, List.length_cons, List.length_cons] at short
    omega

/-- The request goes out, and the reply is read next. -/
theorem sendRemoteAddress_deployed (sound : d.Sound) (readCb : ClientCallback) :
    sendRemoteAddress (d.client [] readCb) =
      some { d.client [] .onReadServerConnect with outBuffer := d.request } := by
  have bounded : d.host.strlen ≤ 255 := Nat.le_trans sound.host.2 (by decide)
  have short : (d.client [] readCb).remoteHost.strlen ≤ 127 := sound.host.2
  have sends := sendRemoteAddress_eq (d.client [] readCb) bounded
  rw [if_pos short] at sends
  exact sends

/-- The choice of a method is answered. -/
theorem onReadNegotication_choice (sound : d.Sound) (whole : d.choice.length = 2) :
    ∃ client, onReadNegotication (d.client d.choice .onReadNegotication) = some client ∧
      (d.course = .openly ∧ client = { d.client [] .onReadServerConnect with outBuffer := d.request } ∨
        ∃ username password, d.course = .judged username password ∧
          client = { d.client [] .onReadUP with outBuffer := authMessage username password }) := by
  cases course : d.course with
  | openly =>
    have choice : d.choice = [socks5Version, methodNoAuthenticationRequired] := by
      rw [Deployment.choice, course]
    refine ⟨_, ?_, .inl ⟨rfl, rfl⟩⟩
    rw [choice]
    exact sendRemoteAddress_deployed sound .onReadNegotication
  | judged username password =>
    obtain ⟨credentials, -, -⟩ := d.judged_credentials course
    have asked : (d.client d.choice .onReadNegotication).Authenticating username password :=
      ⟨credentials, judged_choice course⟩
    have usernameShort := sound.username username (by rw [credentials]; rfl)
    have passwordShort := sound.password password (by rw [credentials]; rfl)
    have sends := onReadNegotication_eq asked (by omega) (by omega)
    rw [if_pos ⟨usernameShort, passwordShort⟩] at sends
    exact ⟨_, sends, .inr ⟨username, password, rfl, rfl⟩⟩
  | refused =>
    rw [Deployment.choice, course] at whole
    cases whole

/-- The judgement is answered with the request, or not at all. -/
theorem onReadUP_judgement (sound : d.Sound) (success : Bool) :
    onReadUP (d.client (authReply success) .onReadUP) =
      some (if success then { d.client [] .onReadServerConnect with outBuffer := d.request }
        else d.client [] .onReadUP) := by
  cases success with
  | true => exact sendRemoteAddress_deployed sound .onReadUP
  | false => rfl

/-- Both kinds of address are printed. -/
theorem Deployment.Sound.printed (sound : d.Sound) (address : BoundAddress) :
    ∃ host, address.text d.platform = some host := by
  cases address with
  | inet address => exact ⟨_, rfl⟩
  | inet6 address => exact Option.ne_none_iff_exists'.mp (sound.prints address.val address.property)

theorem ReadsReply.start (sound : d.Sound) (small : ∀ pair ∈ bound, pair.2 < 65536) :
    ReadsReply d [] ReplyReader.start bound := by
  cases bound with
  | none => exact ⟨rfl, rfl⟩
  | some pair =>
    obtain ⟨host, printed⟩ := sound.printed pair.1
    exact ⟨small pair rfl, host, printed, .header (by decide) ⟨rfl, rfl, rfl, rfl, rfl, rfl⟩⟩

/-- Behind the last answer the client has sent its request. -/
theorem ClientAt.requests (sound : d.Sound) (admits : d.Admits) (small : ∀ pair ∈ bound, pair.2 < 65536)
    (opened : Bool) : ClientAt d bound d.answers
      ⟨d.client [] .onReadServerConnect, ReplyReader.start, opened, []⟩ (d.introduction ++ d.request) := by
  have stage : ClientAt d bound (d.answers ++ []) ⟨_, ReplyReader.start, opened, []⟩ _ :=
    .requesting admits (ReadsReply.start sound small) fun _ => rfl
  rw [List.append_nil, List.append_nil] at stage
  exact stage

/-- What else the client reads of the reply and behind it. -/
theorem ReadsReply.step {reader : ReplyReader} (reads : ReadsReply d sofar reader bound) (nonempty : bytes ≠ [])
    (inside : sofar ++ bytes <+: replyBytes bound ++ downloaded) (quiet : bound = none → downloaded = []) :
    ∃ next, reader.step d.platform bytes = some (next, ()) ∧ ReadsReply d (sofar ++ bytes) next bound ∧
      (reader.connected ≠ [] → next.connected ≠ []) := by
  cases bound with
  | none =>
    rw [quiet rfl] at inside
    have none := List.prefix_nil.mp inside
    exact absurd (List.append_eq_nil_iff.mp none).2 nonempty
  | some pair =>
    obtain ⟨address, port⟩ := pair
    obtain ⟨small, host, printed, framing⟩ := reads
    rw [replyBytes, List.append_assoc, List.append_assoc] at inside
    obtain ⟨next, _, taken, framing'⟩ := ReplyReader.step_frames small
      (ReplyReader.readsField_boundHost small printed) framing inside
    refine ⟨next, taken, ⟨small, host, printed, framing'⟩, ?_⟩
    intro connected
    cases framing with
    | header _ waiting => exact absurd waiting.connected connected
    | bindHost _ waiting => exact absurd waiting.connected connected
    | bindPort _ waiting => exact absurd waiting.connected connected
    | connected done =>
      simp only [List.append_assoc] at framing'
      rw [framing'.whole.connected]
      exact List.cons_ne_nil _ _

/-- A read event of the client, while the other end has only written what it may. -/
theorem ClientAt.hears (sound : d.Sound) (stage : ClientAt d bound heard peer written) (opened : peer.opened = true)
    (small : ∀ pair ∈ bound, pair.2 < 65536) (nonempty : bytes ≠ [])
    (first : written = d.methods → heard ++ bytes <+: d.choice)
    (second : written <+: d.introduction → heard ++ bytes <+: d.answers)
    (whole : heard ++ bytes <+: d.answers ++ (replyBytes bound ++ downloaded))
    (quiet : bound = none → downloaded = []) :
    ∃ next said, peer.hear d.platform bytes = some (next, said) ∧
      ClientAt d bound (heard ++ bytes) next (written ++ said) ∧ next.uploaded = peer.uploaded ∧
      next.opened = peer.opened := by
  cases stage with
  | negotiating short =>
    have inside := first rfl
    rw [hear_negotiating opened]
    obtain early | full := Nat.lt_or_ge (heard ++ bytes).length 2
    · rw [onReadNegotication_short early]
      refine ⟨_, _, rfl, ?_, rfl, rfl⟩
      rw [Deployment.client, List.append_nil]
      exact .negotiating early
    · have two : d.choice.length = 2 := Nat.le_antisymm (length_choice_le d) (Nat.le_trans full inside.length_le)
      have chosen : heard ++ bytes = d.choice := inside.eq_of_length_le (by omega)
      obtain ⟨client, answered, ⟨course, rfl⟩ | ⟨username, password, course, rfl⟩⟩ :=
        onReadNegotication_choice sound two
      · obtain ⟨answers, introduction, admits⟩ := openly_answers course
        rw [chosen, answered, ← answers, ← introduction]
        exact ⟨_, _, rfl, .requests sound admits small _, rfl, rfl⟩
      · rw [chosen, answered, ← List.append_nil d.choice]
        refine ⟨_, _, rfl, ?_, rfl, rfl⟩
        rw [← judged_introduction course]
        exact .authenticating course Nat.two_pos
  | authenticating course short =>
    rename_i sofar opened' username password
    have inside := second List.prefix_rfl
    rw [judged_answers course, List.append_assoc, List.prefix_append_right_inj] at inside
    rw [hear_authenticating opened, List.append_assoc]
    obtain early | full := Nat.lt_or_ge (sofar ++ bytes).length 2
    · rw [onReadUP_short early]
      refine ⟨_, _, rfl, ?_, rfl, rfl⟩
      rw [Deployment.client, List.append_nil]
      exact .authenticating course early
    · have judged : sofar ++ bytes = authReply (accepts d.accounts username password) :=
        inside.eq_of_length_le full
      rw [judged, onReadUP_judgement sound, ← judged_answers course]
      by_cases accepted : accepts d.accounts username password = true
      · rw [if_pos accepted]
        exact ⟨_, _, rfl, .requests sound ((judged_admits_iff course).mpr accepted) small _, rfl, rfl⟩
      · rw [if_neg accepted]
        refine ⟨_, _, rfl, ?_, rfl, rfl⟩
        rw [Deployment.client, List.append_nil]
        exact .rejected course fun admits => accepted ((judged_admits_iff course).mp admits)
  | rejected course rejects =>
    have inside := second List.prefix_rfl
    exact absurd (List.append_right_eq_self.mp (inside.eq_of_length_le (by simp))) nonempty
  | requesting admits reads listening =>
    rename_i sofar uploaded reader opened'
    rw [List.append_assoc] at whole
    have inside := (List.prefix_append_right_inj _).mp whole
    obtain ⟨next, taken, reads, keeps⟩ := reads.step nonempty inside quiet
    refine ⟨⟨d.client [] .onReadServerConnect, next, opened', uploaded⟩, [], ?_, ?_, rfl, rfl⟩
    · rw [ClientEnd.hear, if_pos opened]
      simp only [Deployment.client, taken, Option.map_some]
    · rw [List.append_nil, List.append_assoc]
      refine .requesting admits reads fun silent => ?_
      exact listening (by_contra fun connected => keeps connected silent)

/-- The remote event gets its address. -/
theorem ClientAt.rebound {pair : BoundAddress × Nat} (sound : d.Sound) (stage : ClientAt d none heard peer written)
    (small : pair.2 < 65536) : ClientAt d (some pair) heard peer written := by
  cases stage with
  | negotiating short => exact .negotiating short
  | authenticating course short => exact .authenticating course short
  | rejected course rejects => exact .rejected course rejects
  | requesting admits reads listening =>
    obtain ⟨rfl, rfl⟩ := reads
    refine .requesting admits (ReadsReply.start sound fun other same => ?_) listening
    obtain rfl := Option.some.inj same
    exact small

theorem ClientAt.uploads {next : ClientEnd} {items : List Byte} (stage : ClientAt d bound heard peer written)
    (taken : peer.uploads items = some (next, bytes)) :
    ClientAt d bound heard next (written ++ bytes) ∧ next.uploaded = peer.uploaded ++ bytes ∧
      next.opened = peer.opened := by
  rw [ClientEnd.uploads] at taken
  split at taken
  · rename_i enabled
    obtain ⟨-, connected⟩ := enabled
    obtain ⟨rfl, rfl⟩ := Prod.mk.inj (Option.some.inj taken)
    refine ⟨?_, rfl, rfl⟩
    cases stage with
    | negotiating => exact absurd rfl connected
    | authenticating => exact absurd rfl connected
    | rejected => exact absurd rfl connected
    | requesting admits reads listening =>
      rw [List.append_assoc, List.append_assoc]
      exact .requesting admits reads fun silent => absurd silent connected
  · cases taken

theorem ClientAt.ends {next : ClientEnd} (stage : ClientAt d bound heard peer written) (taken : peer.ends = some next) :
    ClientAt d bound heard next written ∧ next.uploaded = peer.uploaded := by
  rw [ClientEnd.ends] at taken
  split at taken
  · obtain rfl := Option.some.inj taken
    refine ⟨?_, rfl⟩
    cases stage with
    | negotiating short => exact .negotiating short
    | authenticating course short => exact .authenticating course short
    | rejected course rejects => exact .rejected course rejects
    | requesting admits reads listening => exact .requesting admits reads listening
  · cases taken

end Devent.Docks
