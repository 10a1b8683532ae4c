import Devent.Docks.ClientConfig
import Devent.Docks.SessionOutcome

/-! From the two command lines to the connection. Both programs check what they are given
before they start; what they accept decides whether a client gets its connection. -/
namespace Devent.Docks

/-- Both programs start, and speak over the same kind of connection. -/
structure Commanded (serverOptions : List ServerOption) (clientOptions : List ClientOption) (d : Deployment) :
    Prop where
  started : ∃ server client, parseConfig serverOptions .zero = some (0, server) ∧
    initClientConfig clientOptions .zero = (0, client) ∧ server.ssl = client.config.ssl ∧
    d.accounts = server.toServerConfig ∧ d.credentials = client.config.toClientConfig

/-- No length is beyond what a signed byte can count, and every address is printed. -/
structure Fits (clientOptions : List ClientOption) (d : Deployment) : Prop where
  prints : ∀ ip : List Byte, ip.length = ipv6Len → d.platform.inetNtop ip ≠ none
  host : 1 ≤ d.host.strlen ∧ d.host.strlen ≤ 127
  port : d.port < 65536
  username : ∀ username ∈ lastValue ClientOption.usernameArg clientOptions, username.strlen ≤ 127
  password : ∀ password ∈ lastValue ClientOption.passwordArg clientOptions, password.strlen ≤ 127

variable {serverOptions : List ServerOption} {clientOptions : List ClientOption} {d : Deployment}

/-- A client that starts has a password to its username. -/
theorem startable_paired {client : ClientStart} (starts : initClientConfig clientOptions .zero = (0, client)) :
    client.config.username = lastValue ClientOption.usernameArg clientOptions ∧
      client.config.password = lastValue ClientOption.passwordArg clientOptions ∧
      strIsEmpty client.config.username = strIsEmpty client.config.password := by
  obtain ⟨startable, reads⟩ := ClientStart.startable starts
  have username := reads.username
  have password := reads.password
  rw [ClientStart.zero, Option.or_none] at username password
  refine ⟨username, password, ?_⟩
  rw [username, password]
  exact startable.paired

theorem strIsEmpty_some (s : CString) : strIsEmpty (some s) = false ↔ s.strlen ≠ 0 := by
  rw [strIsEmpty, beq_eq_false_iff_ne]

theorem Commanded.sound (commanded : Commanded serverOptions clientOptions d) (fits : Fits clientOptions d) :
    d.Sound := by
  obtain ⟨server, client, -, starts, -, -, credentials⟩ := commanded
  obtain ⟨username, password, paired⟩ := startable_paired starts
  constructor
  · exact fits.prints
  · exact fits.host
  · exact fits.port
  · rw [credentials, username]
    exact fits.username
  · rw [credentials, password]
    exact fits.password
  · rw [credentials]
    intro user named filled absent
    rw [Option.mem_def.mp named, (strIsEmpty_some user).mpr filled, absent] at paired
    cases paired

/-- A client that is not admitted gets no connection, whatever happens. -/
theorem InSession.unconnected {excuse : Prop} {session : Session} (sound : d.Sound)
    (inSession : InSession d excuse session) (rejects : ¬d.Admits) :
    session.server.server.connects = [] ∧ session.client.reader.connected = [] := by
  have none : session.server.server.connects = [] := by
    rcases inSession.server.conduct with ⟨-, conduct⟩ | ⟨admits, -⟩
    · exact conduct.connects
    · exact absurd admits rejects
  refine ⟨none, ?_⟩
  rcases (inSession.safe sound).connected with quiet | ⟨-, -, -, -, -, -, once⟩
  · exact quiet
  · rw [none] at once
    cases once

/-- One that is admitted has it once the handshake is settled. -/
theorem Outcome.admitted {session : Session} (outcome : Outcome d session) (admits : d.Admits) :
    session.server.server.connects = [(d.host, d.port)] ∧ (d.Reaches → session.client.reader.connected ≠ []) := by
  refine ⟨?_, fun reaches => outcome.connected_iff.mpr ⟨admits, reaches⟩⟩
  cases outcome with
  | refused course => exact absurd admits (refused_rejects course)
  | rejected _ rejects => exact absurd admits rejects
  | unreached _ _ _ once => exact once
  | connected _ _ _ _ once => exact once

end Devent.Docks
