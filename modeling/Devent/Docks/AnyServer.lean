import Devent.Docks.SessionProofs

/-! docks_client against any server. Whatever bytes arrive, and wherever they are cut, the client
says each message of its handshake once and in order, and its credentials only when they are
asked for. -/
namespace Devent.Docks

/-- The messages of two bytes that the client looks at, one after the other. -/
def message (heard : List Byte) (n : Nat) : List Byte := (heard.drop (2 * n)).take 2

/-- The choices of a method that the client goes on with. -/
def choices : List (List Byte) :=
  [[socks5Version, methodUsernamePassword], [socks5Version, methodNoAuthenticationRequired]]

def acceptance : List Byte := [authVersion1, authSuccess]

/-- What the client has said behind its methods, by the messages that it has looked at. It passes over
all that are not what it waits for. -/
inductive Said (d : Deployment) (heard : List Byte) : Nat → List Byte → ClientCallback → Prop
  | nothing {n : Nat} (passed : ∀ k < n, message heard k ∉ choices) : Said d heard n [] .onReadNegotication
  | credentials {n k : Nat} {username password : CString} (given : d.credentials = ⟨some username, some password⟩)
      (passed : ∀ j < k, message heard j ∉ choices) (behind : k < n)
      (asked : message heard k = [socks5Version, methodUsernamePassword])
      (unaccepted : ∀ j, k < j → j < n → message heard j ≠ acceptance) :
      Said d heard n (authMessage username password) .onReadUP
  | openly {n : Nat} (passed : ∀ j < n, message heard j ∉ choices)
      (free : message heard n = [socks5Version, methodNoAuthenticationRequired]) :
      Said d heard (n + 1) d.request .onReadServerConnect
  | judged {n k : Nat} {username password : CString} (given : d.credentials = ⟨some username, some password⟩)
      (passed : ∀ j < k, message heard j ∉ choices) (behind : k < n)
      (asked : message heard k = [socks5Version, methodUsernamePassword])
      (unaccepted : ∀ j, k < j → j < n → message heard j ≠ acceptance) (accepted : message heard n = acceptance) :
      Said d heard (n + 1) (authMessage username password ++ d.request) .onReadServerConnect

/-- The client calls back at most once, and no longer reads from then on. -/
def ReplyReader.Once (reader : ReplyReader) : Prop :=
  reader.connected = [] ∨ ∃ address, reader.connected = [address] ∧ reader.reading = false

/-- The client has looked at so many messages; what lies behind them is in its in-buffer. -/
structure Looked (d : Deployment) (heard : List Byte) (n : Nat) (said : List Byte) (peer : ClientEnd) : Prop where
  within : 2 * n ≤ heard.length
  said : Said d heard n said peer.client.readCb
  handshake : peer.client.readCb ≠ .onReadServerConnect → peer.client.inBuffer = heard.drop (2 * n) ∧
    peer.reader = { ReplyReader.start with inBuffer := peer.client.inBuffer }

/-- The client's end, by what it has heard and said. -/
structure Guarded (d : Deployment) (heard said : List Byte) (peer : ClientEnd) : Prop where
  looked : ∃ n, Looked d heard n said peer
  client : peer.client = d.client peer.client.inBuffer peer.client.readCb
  once : peer.reader.Once

/-- The message that the client has to answer names a method it has no credentials for. -/
def Deployment.Unanswerable (d : Deployment) (peer : ClientEnd) (bytes : List Byte) : Prop :=
  peer.client.readCb = .onReadNegotication ∧
    (peer.client.inBuffer ++ bytes).take 2 = [socks5Version, methodUsernamePassword] ∧
    ∀ username password, d.credentials ≠ ⟨some username, some password⟩

/-- No string is longer than a signed byte can count. -/
structure Deployment.Short (d : Deployment) : Prop where
  host : d.host.strlen ≤ 127
  username : ∀ username ∈ d.credentials.username, username.strlen ≤ 127
  password : ∀ password ∈ d.credentials.password, password.strlen ≤ 127

variable {d : Deployment} {heard said bytes rest : List Byte} {peer next : ClientEnd} {client : Client}

namespace ReplyReader

variable {reader after : ReplyReader} {platform : Platform}

theorem onReadServerBindPort_once (quiet : reader.connected = []) : reader.onReadServerBindPort.Once := by
  rw [onReadServerBindPort]
  split
  · rename_i high low rest _
    refine .inr ⟨(reader.bindHost, portToUint16 high low), ?_, rfl⟩
    rw [onServerConnect, quiet]
    rfl
  · exact .inl quiet

theorem readBindHost_once {skipped len : Nat} {print : List Byte → Option CString} (quiet : reader.connected = []) :
    (reader.readBindHost skipped len print).Once := by
  rw [readBindHost]
  split
  · split
    · exact .inl quiet
    · exact onReadServerBindPort_once quiet
  · exact .inl quiet

theorem onReadServerBindHost_once (quiet : reader.connected = [])
    (reads : reader.onReadServerBindHost platform = some after) : after.Once := by
  rw [onReadServerBindHost] at reads
  split at reads
  · obtain rfl := Option.some.inj reads
    exact .inl quiet
  · split at reads
    · obtain rfl := Option.some.inj reads
      exact readBindHost_once quiet
    · split at reads
      · obtain rfl := Option.some.inj reads
        exact readBindHost_once quiet
      · split at reads
        · split at reads
          · obtain rfl := Option.some.inj reads
            exact .inl quiet
          · split at reads
            · obtain rfl := Option.some.inj reads
              exact readBindHost_once quiet
            · cases reads
        · obtain rfl := Option.some.inj reads
          exact .inl quiet

theorem onReadServerConnect_once (quiet : reader.connected = [])
    (reads : reader.onReadServerConnect platform = some after) : after.Once := by
  rw [onReadServerConnect] at reads
  split at reads
  · split at reads
    · obtain rfl := Option.some.inj reads
      exact .inl quiet
    · split at reads
      · obtain rfl := Option.some.inj reads
        exact .inl quiet
      · apply onReadServerBindHost_once _ reads
        exact quiet
  · obtain rfl := Option.some.inj reads
    exact .inl quiet

theorem Once.step {out : Unit} (once : reader.Once) (taken : reader.step platform bytes = some (after, out)) :
    after.Once := by
  rw [ReplyReader.step] at taken
  split at taken
  · split at taken
    · rename_i reading
      have quiet : (reader.arrive bytes).connected = [] := by
        rcases once with quiet | ⟨address, -, stopped⟩
        · exact quiet
        · rw [stopped] at reading
          cases reading
      obtain ⟨read, reads, same⟩ := Option.map_eq_some_iff.mp taken
      obtain ⟨rfl, -⟩ := Prod.mk.inj same
      rw [callRead] at reads
      split at reads
      · exact onReadServerConnect_once quiet reads
      · exact onReadServerBindHost_once quiet reads
      · obtain rfl := Option.some.inj reads
        exact onReadServerBindPort_once quiet
    · obtain ⟨rfl, -⟩ := Prod.mk.inj (Option.some.inj taken)
      exact once
  · cases taken

end ReplyReader

/-- A message that has been heard stays where it is. -/
theorem message_append {n : Nat} (whole : 2 * (n + 1) ≤ heard.length) (more : List Byte) :
    message (heard ++ more) n = message heard n := by
  have enough : 2 ≤ (heard.drop (2 * n)).length := by
    rw [List.length_drop]
    omega
  rw [message, message, List.drop_append_of_le_length (by omega), List.take_append_of_le_length enough]

theorem message_cons {n : Nat} {first second : Byte} (within : 2 * n ≤ heard.length)
    (kept : heard.drop (2 * n) = first :: second :: rest) :
    message heard n = [first, second] ∧ 2 * (n + 1) ≤ heard.length ∧ rest = heard.drop (2 * (n + 1)) := by
  have length := congrArg List.length kept
  rw [List.length_drop, List.length_cons, List.length_cons] at length
  refine ⟨?_, by omega, ?_⟩
  · rw [message, kept]
    rfl
  · rw [Nat.mul_succ, ← List.drop_drop, kept]
    rfl

theorem Said.mono {n : Nat} {cb : ClientCallback} (known : Said d heard n said cb) (within : 2 * n ≤ heard.length)
    (more : List Byte) : Said d (heard ++ more) n said cb := by
  have same (k : Nat) (small : k < n) : message (heard ++ more) k = message heard k :=
    message_append (by omega) more
  cases known with
  | nothing passed => exact .nothing fun k small => same k small ▸ passed k small
  | credentials given passed behind asked unaccepted =>
    refine .credentials given (fun j small => ?_) behind ((same _ behind).trans asked) fun j later small => ?_
    · exact same j (Nat.lt_trans small behind) ▸ passed j small
    · exact same j small ▸ unaccepted j later small
  | openly passed free =>
    refine .openly (fun j small => ?_) ((same _ (Nat.lt_succ_self _)).trans free)
    exact same j (Nat.lt_succ_of_lt small) ▸ passed j small
  | judged given passed behind asked unaccepted accepted =>
    refine .judged given (fun j small => ?_) behind ((same _ (Nat.lt_succ_of_lt behind)).trans asked)
      (fun j later small => ?_) ((same _ (Nat.lt_succ_self _)).trans accepted)
    · exact same j (Nat.lt_trans small (Nat.lt_succ_of_lt behind)) ▸ passed j small
    · exact same j (Nat.lt_succ_of_lt small) ▸ unaccepted j later small

/-- One more message is looked at and passed over, or is the one that the client waits for. -/
theorem Said.pass {n : Nat} (known : Said d heard n [] .onReadNegotication) (other : message heard n ∉ choices) :
    Said d heard (n + 1) [] .onReadNegotication := by
  cases known with
  | nothing passed =>
    refine .nothing fun k small => ?_
    obtain earlier | rfl := Nat.lt_succ_iff_lt_or_eq.mp small
    · exact passed k earlier
    · exact other

theorem Said.wait {n : Nat} {sent : List Byte} (known : Said d heard n sent .onReadUP)
    (other : message heard n ≠ acceptance) : Said d heard (n + 1) sent .onReadUP := by
  cases known with
  | credentials given passed behind asked unaccepted =>
    refine .credentials given passed (Nat.lt_succ_of_lt behind) asked fun j later small => ?_
    obtain earlier | rfl := Nat.lt_succ_iff_lt_or_eq.mp small
    · exact unaccepted j later earlier
    · exact other

theorem Said.ask {n : Nat} {username password : CString} (known : Said d heard n [] .onReadNegotication)
    (given : d.credentials = ⟨some username, some password⟩)
    (asked : message heard n = [socks5Version, methodUsernamePassword]) :
    Said d heard (n + 1) (authMessage username password) .onReadUP := by
  cases known with
  | nothing passed =>
    exact .credentials given passed (Nat.lt_succ_self n) asked fun j later small => by omega

theorem Said.free {n : Nat} (known : Said d heard n [] .onReadNegotication)
    (free : message heard n = [socks5Version, methodNoAuthenticationRequired]) :
    Said d heard (n + 1) d.request .onReadServerConnect := by
  cases known with
  | nothing passed => exact .openly passed free

theorem Said.accept {n : Nat} {sent : List Byte} (known : Said d heard n sent .onReadUP)
    (accepted : message heard n = acceptance) : Said d heard (n + 1) (sent ++ d.request) .onReadServerConnect := by
  cases known with
  | credentials given passed behind asked unaccepted => exact .judged given passed behind asked unaccepted accepted

theorem sendRemoteAddress_short (short : d.Short) (inBuffer : List Byte) (readCb : ClientCallback) :
    sendRemoteAddress (d.client inBuffer readCb) =
      some { d.client inBuffer .onReadServerConnect with outBuffer := d.request } := by
  have host : (d.client inBuffer readCb).remoteHost.strlen ≤ 127 := short.host
  have sends := sendRemoteAddress_eq (d.client inBuffer readCb) (Nat.le_trans host (by decide))
  rw [if_pos host] at sends
  exact sends

/-- The callback behind the methods waits for two bytes, passes over them, or goes on with a message
of the handshake. -/
inductive Negotiates (d : Deployment) : List Byte → Option Client → Prop
  | waits {inBuffer : List Byte} (few : inBuffer.length < 2) :
      Negotiates d inBuffer (some (d.client inBuffer .onReadNegotication))
  | passes {version method : Byte} {rest : List Byte} (other : [version, method] ∉ choices) :
      Negotiates d (version :: method :: rest) (some (d.client rest .onReadNegotication))
  | credentials {username password : CString} {rest : List Byte}
      (given : d.credentials = ⟨some username, some password⟩) :
      Negotiates d (socks5Version :: methodUsernamePassword :: rest)
        (some { d.client rest .onReadUP with outBuffer := authMessage username password })
  | missing {rest : List Byte} (without : ∀ username password, d.credentials ≠ ⟨some username, some password⟩) :
      Negotiates d (socks5Version :: methodUsernamePassword :: rest) none
  | openly {rest : List Byte} : Negotiates d (socks5Version :: methodNoAuthenticationRequired :: rest)
      (some { d.client rest .onReadServerConnect with outBuffer := d.request })

/-- The callback behind the credentials. -/
inductive Judges (d : Deployment) : List Byte → Option Client → Prop
  | waits {inBuffer : List Byte} (few : inBuffer.length < 2) :
      Judges d inBuffer (some (d.client inBuffer .onReadUP))
  | passes {version result : Byte} {rest : List Byte} (other : [version, result] ≠ acceptance) :
      Judges d (version :: result :: rest) (some (d.client rest .onReadUP))
  | accepted {rest : List Byte} : Judges d (authVersion1 :: authSuccess :: rest)
      (some { d.client rest .onReadServerConnect with outBuffer := d.request })

theorem sends_credentials (short : d.Short) (rest : List Byte) : Negotiates d
    (socks5Version :: methodUsernamePassword :: rest)
    (onReadNegotication (d.client (socks5Version :: methodUsernamePassword :: rest) .onReadNegotication)) := by
  obtain ⟨platform, accounts, ⟨username, password⟩, host, port⟩ := d
  have version : ¬socks5Version ≠ socks5Version := fun differs => differs rfl
  simp only [onReadNegotication, Deployment.client, if_neg version, if_true, Option.bind_eq_bind]
  cases username with
  | none => exact .missing fun username password same => by cases same
  | some username =>
    have usernameShort : username.strlen ≤ 127 := short.username username rfl
    rw [Option.bind_some, writeString_short _ usernameShort, Option.bind_some]
    cases password with
    | none => exact .missing fun username password same => by cases same
    | some password =>
      have passwordShort : password.strlen ≤ 127 := short.password password rfl
      simp only [Client.write, Option.bind_some, writeString_short _ passwordShort]
      exact .credentials rfl

theorem onReadNegotication_negotiates (short : d.Short) (inBuffer : List Byte) :
    Negotiates d inBuffer (onReadNegotication (d.client inBuffer .onReadNegotication)) := by
  rcases inBuffer with _ | ⟨version, _ | ⟨method, rest⟩⟩
  · exact .waits (by decide)
  · exact .waits (Nat.lt_succ_self 1)
  · by_cases versioned : version = socks5Version
    · subst versioned
      by_cases named : method = methodUsernamePassword
      · subst named
        exact sends_credentials short rest
      · by_cases free : method = methodNoAuthenticationRequired
        · subst free
          have sends : onReadNegotication (d.client (socks5Version :: methodNoAuthenticationRequired :: rest)
              .onReadNegotication) = sendRemoteAddress (d.client rest .onReadNegotication) := rfl
          rw [sends, sendRemoteAddress_short short]
          exact .openly
        · have passed : onReadNegotication (d.client (socks5Version :: method :: rest) .onReadNegotication) =
              some (d.client rest .onReadNegotication) := by
            simp only [onReadNegotication, Deployment.client, ne_eq, not_true_eq_false, if_false, if_neg named,
              if_neg free]
          rw [passed]
          refine .passes ?_
          simp [choices, named, free]
    · have passed : onReadNegotication (d.client (version :: method :: rest) .onReadNegotication) =
          some (d.client rest .onReadNegotication) := by
        simp only [onReadNegotication, Deployment.client, ne_eq, versioned, not_false_eq_true, if_true]
      rw [passed]
      refine .passes ?_
      simp [choices, versioned]

theorem onReadUP_judges (short : d.Short) (inBuffer : List Byte) :
    Judges d inBuffer (onReadUP (d.client inBuffer .onReadUP)) := by
  rcases inBuffer with _ | ⟨version, _ | ⟨result, rest⟩⟩
  · exact .waits (by decide)
  · exact .waits (Nat.lt_succ_self 1)
  · by_cases accepted : version = authVersion1 ∧ result = authSuccess
    · obtain ⟨rfl, rfl⟩ := accepted
      have sends : onReadUP (d.client (authVersion1 :: authSuccess :: rest) .onReadUP) =
          sendRemoteAddress (d.client rest .onReadUP) := rfl
      rw [sends, sendRemoteAddress_short short]
      exact .accepted
    · have passed : onReadUP (d.client (version :: result :: rest) .onReadUP) = some (d.client rest .onReadUP) := by
        by_cases versioned : version = authVersion1
        · have fails : result ≠ authSuccess := fun succeeds => accepted ⟨versioned, succeeds⟩
          simp only [onReadUP, Deployment.client, versioned, ne_eq, not_true_eq_false, if_false, fails,
            not_false_eq_true, if_true]
        · simp only [onReadUP, Deployment.client, ne_eq, versioned, not_false_eq_true, if_true]
      rw [passed]
      refine .passes fun same => accepted ?_
      obtain ⟨rfl, tail⟩ := List.cons.inj same
      exact ⟨rfl, (List.cons.inj tail).1⟩

theorem Guarded.arrive (guarded : Guarded d heard said peer) (bytes : List Byte) :
    peer.client.arrive bytes = d.client (peer.client.inBuffer ++ bytes) peer.client.readCb := by
  rw [guarded.client]
  rfl

/-- Behind a callback of the handshake the in-buffer is what lies behind the messages looked at. -/
theorem Guarded.flushes {n : Nat} {cb : ClientCallback} {sent : List Byte} (within : 2 * n ≤ heard.length)
    (known : Said d heard n said cb) (kept : rest = heard.drop (2 * n))
    (fresh : peer.reader = { ReplyReader.start with inBuffer := peer.client.inBuffer }) :
    Guarded d heard said (ClientEnd.flush { d.client rest cb with outBuffer := sent } peer).1 := by
  have quiet : peer.reader.connected = [] := by
    rw [fresh]
    rfl
  refine ⟨⟨n, within, known, fun _ => ⟨kept, ?_⟩⟩, rfl, .inl quiet⟩
  rw [ClientEnd.flush, fresh]

theorem Guarded.hear (short : d.Short) (guarded : Guarded d heard said peer) {sent : List Byte}
    (taken : peer.hear d.platform bytes = some (next, sent)) : Guarded d (heard ++ bytes) (said ++ sent) next := by
  have arrives := guarded.arrive bytes
  obtain ⟨n, within, known, handshake⟩ := guarded.looked
  have known := known.mono within bytes
  have within' : 2 * n ≤ (heard ++ bytes).length := by
    rw [List.length_append]
    exact Nat.le_trans within (Nat.le_add_right ..)
  have whole (kept : peer.client.inBuffer = heard.drop (2 * n)) :
      (heard ++ bytes).drop (2 * n) = peer.client.inBuffer ++ bytes := by
    rw [kept, List.drop_append_of_le_length within]
  rw [ClientEnd.hear] at taken
  split at taken
  · cases stage : peer.client.readCb with
    | onReadNegotication =>
      obtain ⟨kept, fresh⟩ := handshake (by rw [stage]; decide)
      have whole := whole kept
      have negotiates := onReadNegotication_negotiates short (peer.client.inBuffer ++ bytes)
      rw [stage] at arrives known taken
      simp only [arrives] at taken
      obtain ⟨client, called, same⟩ := Option.map_eq_some_iff.mp taken
      obtain ⟨rfl, rfl⟩ := Prod.mk.inj same
      rw [called] at negotiates
      obtain rfl : said = [] := by cases known; rfl
      rw [List.nil_append]
      generalize peer.client.inBuffer ++ bytes = arrived at whole negotiates
      cases negotiates with
      | waits => exact .flushes within' known whole.symm fresh
      | passes other =>
        obtain ⟨looked, within, behind⟩ := message_cons within' whole
        exact .flushes within (known.pass (looked ▸ other)) behind fresh
      | credentials given =>
        obtain ⟨looked, within, behind⟩ := message_cons within' whole
        exact .flushes within (known.ask given looked) behind fresh
      | openly =>
        obtain ⟨looked, within, behind⟩ := message_cons within' whole
        exact .flushes within (known.free looked) behind fresh
    | onReadUP =>
      obtain ⟨kept, fresh⟩ := handshake (by rw [stage]; decide)
      have whole := whole kept
      have judges := onReadUP_judges short (peer.client.inBuffer ++ bytes)
      rw [stage] at arrives known taken
      simp only [arrives] at taken
      obtain ⟨client, called, same⟩ := Option.map_eq_some_iff.mp taken
      obtain ⟨rfl, rfl⟩ := Prod.mk.inj same
      rw [called] at judges
      generalize peer.client.inBuffer ++ bytes = arrived at whole judges
      cases judges with
      | waits =>
        refine .flushes within' ?_ whole.symm fresh
        rw [Deployment.client, List.append_nil]
        exact known
      | passes other =>
        obtain ⟨looked, within, behind⟩ := message_cons within' whole
        refine .flushes within ?_ behind fresh
        rw [Deployment.client, List.append_nil]
        exact known.wait (looked ▸ other)
      | accepted =>
        obtain ⟨looked, within, behind⟩ := message_cons within' whole
        exact .flushes within (known.accept looked) behind fresh
    | onReadServerConnect =>
      rw [stage] at taken
      obtain ⟨⟨reader, out⟩, reads, same⟩ := Option.map_eq_some_iff.mp taken
      obtain ⟨rfl, rfl⟩ := Prod.mk.inj same
      rw [List.append_nil]
      exact ⟨⟨n, within', known, fun other => absurd stage other⟩, guarded.client, guarded.once.step reads⟩
  · cases taken

theorem hear_opened {sent : List Byte} (taken : peer.hear d.platform bytes = some (next, sent)) :
    next.opened = true := by
  rw [ClientEnd.hear] at taken
  split at taken
  · rename_i opened
    split at taken
    · obtain ⟨client, -, same⟩ := Option.map_eq_some_iff.mp taken
      obtain ⟨rfl, -⟩ := Prod.mk.inj same
      exact opened
    · obtain ⟨client, -, same⟩ := Option.map_eq_some_iff.mp taken
      obtain ⟨rfl, -⟩ := Prod.mk.inj same
      exact opened
    · obtain ⟨reader, -, same⟩ := Option.map_eq_some_iff.mp taken
      obtain ⟨rfl, -⟩ := Prod.mk.inj same
      exact opened
  · cases taken

/-- The client has an answer to whatever it hears, unless it is asked for credentials that it does not
have. -/
theorem Guarded.undefined_iff (short : d.Short) (guarded : Guarded d heard said peer) (opened : peer.opened = true)
    (shaking : peer.client.readCb ≠ .onReadServerConnect) (bytes : List Byte) :
    peer.hear d.platform bytes = none ↔ d.Unanswerable peer bytes := by
  have arrives := guarded.arrive bytes
  rw [ClientEnd.hear, if_pos opened, Deployment.Unanswerable]
  cases stage : peer.client.readCb with
  | onReadNegotication =>
    have negotiates := onReadNegotication_negotiates short (peer.client.inBuffer ++ bytes)
    rw [stage] at arrives
    simp only [arrives, Option.map_eq_none_iff, true_and]
    generalize onReadNegotication (d.client (peer.client.inBuffer ++ bytes) .onReadNegotication) = result at negotiates
    generalize peer.client.inBuffer ++ bytes = arrived at negotiates
    cases negotiates with
    | waits few =>
      refine iff_of_false (Option.some_ne_none _) fun both => ?_
      have two := congrArg List.length both.1
      rw [List.length_take, List.length_cons, List.length_singleton] at two
      omega
    | @passes version method _ other =>
      refine iff_of_false (Option.some_ne_none _) fun both => other ?_
      have same : [version, method] = [socks5Version, methodUsernamePassword] := both.1
      rw [same]
      exact List.mem_cons_self
    | credentials given => exact iff_of_false (Option.some_ne_none _) fun both => both.2 _ _ given
    | missing without => exact iff_of_true rfl ⟨rfl, without⟩
    | openly =>
      refine iff_of_false (Option.some_ne_none _) fun both => ?_
      exact absurd (List.cons.inj (List.cons.inj both.1).2).1 (by decide)
  | onReadUP =>
    have judges := onReadUP_judges short (peer.client.inBuffer ++ bytes)
    rw [stage] at arrives
    simp only [arrives, Option.map_eq_none_iff]
    refine iff_of_false (fun fails => ?_) fun both => by cases both.1
    rw [fails] at judges
    generalize peer.client.inBuffer ++ bytes = arrived at judges
    cases judges
  | onReadServerConnect => exact absurd stage shaking

theorem guarded_run (short : d.Short) {segments outs : List (List Byte)} {last : ClientEnd}
    (guarded : Guarded d heard said peer) (opened : peer.opened = true)
    (path : Run.run (fun peer bytes => ClientEnd.hear d.platform bytes peer) peer segments = some (last, outs)) :
    Guarded d (heard ++ segments.flatten) (said ++ outs.flatten) last ∧ last.opened = true := by
  induction segments generalizing peer heard said outs with
  | nil =>
    cases path
    rw [List.flatten_nil, List.append_nil, List.append_nil]
    exact ⟨guarded, opened⟩
  | cons bytes rest ih =>
    obtain ⟨next, sent, tail, taken, onward, rfl⟩ := Run.run_cons_iff.mp path
    have keeps := ih (guarded.hear short taken) (hear_opened taken) onward
    rw [List.append_assoc, List.append_assoc] at keeps
    exact keeps

/-- Against any server, and however its bytes are cut: the client keeps to its handshake, says its
credentials only where they are asked for, calls back at most once, and goes wrong only where it
is asked for credentials that it was not given. -/
theorem client_keeps_to_handshake (d : Deployment) (short : d.Short) (segments : List (List Byte)) (last : ClientEnd)
    (outs : List (List Byte))
    (path : Run.run (fun peer bytes => ClientEnd.hear d.platform bytes peer) d.start.client segments =
      some (last, outs)) :
    Guarded d segments.flatten outs.flatten last ∧
      (last.client.readCb ≠ .onReadServerConnect → ∀ bytes,
        last.hear d.platform bytes = none ↔ d.Unanswerable last bytes) := by
  have start : Guarded d [] [] d.start.client := by
    rw [Deployment.start, greets_flushed]
    refine ⟨⟨0, Nat.le_refl 0, .nothing ?_, fun _ => ⟨rfl, rfl⟩⟩, rfl, .inl rfl⟩
    exact fun k none => absurd none (Nat.not_lt_zero k)
  obtain ⟨guarded, opened⟩ := guarded_run short start rfl path
  rw [List.nil_append, List.nil_append] at guarded
  exact ⟨guarded, fun shaking bytes => guarded.undefined_iff short opened shaking bytes⟩

theorem accounted_keeps : ∃ last outs,
    Run.run (fun peer bytes => ClientEnd.hear accounted.platform bytes peer) accounted.start.client
      [[4], [4, 5], [2], [1, 0]] = some (last, outs) ∧ Guarded accounted [4, 4, 5, 2, 1, 0] outs.flatten last := by
  have defined : (Run.run (fun peer bytes => ClientEnd.hear accounted.platform bytes peer) accounted.start.client
      [[4], [4, 5], [2], [1, 0]]).isSome = true := by decide +kernel
  obtain ⟨⟨last, outs⟩, path⟩ := Option.isSome_iff_exists.mp defined
  have short : accounted.Short := ⟨accounted_sound.host.2, accounted_sound.username, accounted_sound.password⟩
  exact ⟨last, outs, path, (client_keeps_to_handshake accounted short [[4], [4, 5], [2], [1, 0]] last outs path).1⟩

end Devent.Docks
