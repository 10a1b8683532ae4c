import Devent.Docks.AuthFraming
import Devent.Docks.Client

/-! The client's messages against the server's decoders. Both agree on every string
that a signed length byte can count; beyond, the client reads past its string. -/
namespace Devent.Docks

/-- The username/password message that a server expects. -/
def authMessage (username password : CString) : List Byte :=
  [authVersion1, UInt8.ofNat username.strlen] ++ username.bytes ++
    [UInt8.ofNat password.strlen] ++ password.bytes

variable {client : Client} {username password s : CString}

theorem writeString_short (client : Client) (short : s.strlen ≤ 127) :
    client.writeString s (UInt8.ofNat s.strlen) = some (client.write s.bytes) := by
  have size := char_length_short short
  have within : s.strlen ≤ s.strlen + 1 := Nat.le_add_right ..
  simp only [Client.writeString, size, if_pos within]
  rw [CString.strlen, List.take_left]

/-- A length byte from 128 on widens to a length beyond the string. -/
theorem writeString_long (client : Client) (long : 128 ≤ s.strlen) (bounded : s.strlen ≤ 255) :
    client.writeString s (UInt8.ofNat s.strlen) = none := by
  have byte := length_byte bounded
  have size : sizeT (signedChar (UInt8.ofNat s.strlen)) = s.strlen + 18446744073709551360 := by
    rw [sizeT_signedChar_high (by omega), byte]
  have beyond : ¬s.strlen + 18446744073709551360 ≤ s.strlen + 1 := by omega
  simp only [Client.writeString, size, if_neg beyond]

theorem writeString_eq (client : Client) (bounded : s.strlen ≤ 255) :
    client.writeString s (UInt8.ofNat s.strlen) =
      if s.strlen ≤ 127 then some (client.write s.bytes) else none := by
  split
  · rename_i short
    exact writeString_short client short
  · rename_i long
    exact writeString_long client (Nat.not_le.mp long) bounded

/-- The client, asked for its credentials. -/
structure Client.Authenticating (client : Client) (username password : CString) : Prop where
  config : client.config = ⟨some username, some password⟩
  answered : client.inBuffer = [socks5Version, methodUsernamePassword]

theorem onReadNegotication_eq (asked : client.Authenticating username password)
    (usernameBounded : username.strlen ≤ 255) (passwordBounded : password.strlen ≤ 255) :
    onReadNegotication client = if username.strlen ≤ 127 ∧ password.strlen ≤ 127 then
      some { client with
        inBuffer := []
        outBuffer := client.outBuffer ++ authMessage username password
        readCb := .onReadUP }
    else none := by
  have version : ¬socks5Version ≠ socks5Version := fun differs => differs rfl
  obtain ⟨config, remoteHost, remotePort, inBuffer, outBuffer, readCb⟩ := client
  obtain ⟨rfl, rfl⟩ := asked
  simp only [onReadNegotication, if_neg version, if_true, Option.bind_eq_bind, Option.bind_some,
    writeString_eq _ usernameBounded]
  by_cases first : username.strlen ≤ 127
  · simp only [if_pos first, Option.bind_some, Client.write, writeString_eq _ passwordBounded]
    by_cases second : password.strlen ≤ 127
    · simp [first, second, authMessage]
    · simp [second]
  · simp [first]

/-- The bytes of a CONNECT request to the client's host. -/
def requestMessage (host : CString) (port : Nat) : List Byte :=
  [socks5Version, cmdConnect, 0x00, atypeDomainname] ++ [UInt8.ofNat host.strlen] ++ host.bytes ++
    uShortToData port

theorem sendRemoteAddress_eq (client : Client) (bounded : client.remoteHost.strlen ≤ 255) :
    sendRemoteAddress client = if client.remoteHost.strlen ≤ 127 then
      some { client with
        outBuffer := client.outBuffer ++ requestMessage client.remoteHost client.remotePort
        readCb := .onReadServerConnect }
    else none := by
  simp only [sendRemoteAddress, Client.write, Option.bind_eq_bind, writeString_eq _ bounded]
  by_cases short : client.remoteHost.strlen ≤ 127
  · simp [short, requestMessage]
  · simp [short]

variable {server : Server} {stack : Nat → Byte}

theorem authMessage_length (username password : CString) :
    (authMessage username password).length = 3 + username.strlen + password.strlen := by
  simp only [authMessage, List.length_append, List.length_cons, List.length_nil, CString.strlen]
  omega

theorem authMessage_eq (username password : CString) :
    authMessage username password = credentials username.bytes password.bytes := by
  simp [authMessage, credentials, CString.strlen]

/-- A whole message is judged on exactly the username and the password it was made of. -/
theorem onAuthRead_message (config : ServerConfig) (usernameShort : username.strlen ≤ 127)
    (passwordShort : password.strlen ≤ 127) (arrived : server.inBuffer = authMessage username password) :
    onAuthRead config stack server =
      judge config username password (server.consume (authMessage username password).length) := by
  have whole : server.inBuffer = credentials username.bytes password.bytes ++ [] := by
    rw [arrived, authMessage_eq, List.append_nil]
  rw [onAuthRead_whole whole usernameShort passwordShort, CString.ofBytes_bytes, CString.ofBytes_bytes,
    authMessage_length]
  rfl

/-- The request that the client's message spells. -/
def clientRequest (host : CString) (bounds : 1 ≤ host.strlen ∧ host.strlen ≤ maxDomainLen)
    (port : Nat) : ConnectRequest :=
  ⟨.domain ⟨host.bytes, bounds⟩, UInt8.ofNat (port / 256), UInt8.ofNat port⟩

theorem clientRequest_bytes {host : CString} (bounds : 1 ≤ host.strlen ∧ host.strlen ≤ maxDomainLen)
    (port : Nat) : (clientRequest host bounds port).bytes = requestMessage host port := by
  simp only [ConnectRequest.bytes, ConnectRequest.header, ConnectRequest.body, clientRequest,
    Destination.bytes, Destination.atype, requestMessage, uShortToData, CString.strlen, List.cons_append,
    List.nil_append]

theorem clientRequest_port {host : CString} (bounds : 1 ≤ host.strlen ∧ host.strlen ≤ maxDomainLen)
    {port : Nat} (sixteen : port < 65536) : (clientRequest host bounds port).port = port :=
  portToUint16_uShortToData sixteen

theorem requestMessage_length (host : CString) (port : Nat) :
    (requestMessage host port).length = 7 + host.strlen := by
  simp only [requestMessage, uShortToData, List.length_append, List.length_cons, List.length_nil,
    CString.strlen]
  omega

/-- The client's credentials arrive whole and are judged as they were sent. -/
def AuthAgrees (platform : Platform) (config : ServerConfig) (stack : Nat → Byte) (client : Client)
    (server : Server) (username password : CString) : Prop :=
  ∃ sent message next success answer,
    onReadNegotication client = some sent ∧ sent.outBuffer = client.outBuffer ++ message ∧
      message.length = 3 + username.strlen + password.strlen ∧
      step platform config server (.segment message stack) = some (next, ()) ∧
      next.log = server.log ++ [.call .onAuthRead, .auth username password success, .write answer]

/-- The client's request arrives whole and asks for the same host and port. -/
def RequestAgrees (platform : Platform) (config : ServerConfig) (stack : Nat → Byte) (client : Client)
    (server : Server) : Prop :=
  ∃ sent message next,
    sendRemoteAddress client = some sent ∧ sent.outBuffer = client.outBuffer ++ message ∧
      message.length = 7 + client.remoteHost.strlen ∧
      step platform config server (.segment message stack) = some (next, ()) ∧
      next.context.remoteHost = some client.remoteHost ∧ next.context.remotePort = client.remotePort

variable {platform : Platform} {config : ServerConfig}

theorem authAgrees_iff (asked : client.Authenticating username password)
    (usernameBounded : username.strlen ≤ 255) (passwordBounded : password.strlen ≤ 255)
    (awaits : server.Awaits .onAuthRead) :
    AuthAgrees platform config stack client server username password ↔
      username.strlen ≤ 127 ∧ password.strlen ≤ 127 := by
  have answer := onReadNegotication_eq asked usernameBounded passwordBounded
  constructor
  · rintro ⟨sent, -, -, -, -, sends, -⟩
    by_contra long
    rw [answer, if_neg long] at sends
    cases sends
  · intro short
    rw [if_pos short] at answer
    have nonempty : authMessage username password ≠ [] := List.cons_ne_nil _ _
    have arrived : (called (authMessage username password) server).inBuffer =
        authMessage username password := by
      rw [called_inBuffer, awaits.inBuffer, List.nil_append]
    have judged : (received platform config stack (authMessage username password) server).log =
        server.log ++ [.call .onAuthRead, .auth username password (accepts config username password),
          .write (authReply (accepts config username password))] := by
      have consumed : ((called (authMessage username password) server).consume
          (authMessage username password).length).live = true := awaits.live
      rw [received_onAuthRead awaits.readCb, onAuthRead_message config short.1 short.2 arrived,
        judge_log config username password consumed, ← awaits.readCb]
      simp only [Server.consume, called, Server.emit, List.append_assoc, List.cons_append, List.nil_append]
    exact ⟨_, _, _, _, _, answer, rfl, authMessage_length username password,
      step_segment awaits.live nonempty, judged⟩

theorem requestAgrees_iff (bounds : 1 ≤ client.remoteHost.strlen ∧ client.remoteHost.strlen ≤ 255)
    (sixteen : client.remotePort < 65536) (awaits : server.Awaits .connectRead) :
    RequestAgrees platform config stack client server ↔ client.remoteHost.strlen ≤ 127 := by
  have sends := sendRemoteAddress_eq client bounds.2
  constructor
  · rintro ⟨sent, -, -, sent', -⟩
    by_contra long
    rw [sends, if_neg long] at sent'
    cases sent'
  · intro short
    rw [if_pos short] at sends
    have nonempty : requestMessage client.remoteHost client.remotePort ≠ [] := List.cons_ne_nil _ _
    have spelled := clientRequest_bytes bounds client.remotePort
    have started : Started server.connects client.remoteHost
        (clientRequest client.remoteHost bounds client.remotePort).port
        (received platform config stack (requestMessage client.remoteHost client.remotePort) server) :=
      received_finishes (awaits.pending _) spelled.symm
        (congrArg some (CString.ofBytes_bytes client.remoteHost))
    exact ⟨_, _, _, sends, rfl, requestMessage_length _ _, step_segment awaits.live nonempty,
      started.remoteHost, started.remotePort.trans (clientRequest_port bounds sixteen)⟩

/-- Both messages agree with their decoders exactly for strings of at most 127 bytes. -/
theorem messages_agree_iff (platform : Platform) (config : ServerConfig) (stack : Nat → Byte)
    (username password : CString) (usernameBounds : 1 ≤ username.strlen ∧ username.strlen ≤ 255)
    (passwordBounds : 1 ≤ password.strlen ∧ password.strlen ≤ 255) (client : Client)
    (asked : client.Authenticating username password)
    (hostBounds : 1 ≤ client.remoteHost.strlen ∧ client.remoteHost.strlen ≤ 255)
    (sixteen : client.remotePort < 65536) (authServer requestServer : Server)
    (awaitsAuth : authServer.Awaits .onAuthRead) (awaitsRequest : requestServer.Awaits .connectRead) :
    (AuthAgrees platform config stack client authServer username password ∧
        RequestAgrees platform config stack client requestServer) ↔
      username.strlen ≤ 127 ∧ password.strlen ≤ 127 ∧ client.remoteHost.strlen ≤ 127 := by
  rw [authAgrees_iff asked usernameBounds.2 passwordBounds.2 awaitsAuth,
    requestAgrees_iff hostBounds sixteen awaitsRequest, and_assoc]

def user : CString := ⟨[117], nul_notMem_u⟩

def secret : CString := ⟨[112], nul_notMem_p⟩

/-- A client with a password for the host `a`, port 80, that is asked for its credentials. -/
def sampleClient (username : CString) : Client :=
  ⟨⟨some username, some secret⟩, ⟨[97], nul_notMem_a⟩, 80, [5, 2], [], .onReadNegotication⟩

/-- A server that has chosen the username method. -/
def judging : Server := { Server.start with readCb := .onAuthRead }

theorem sample_messages_agree :
    AuthAgrees resolving oneAccount blank (sampleClient user) judging user secret ∧
      RequestAgrees resolving oneAccount blank (sampleClient user) awaiting :=
  (messages_agree_iff resolving oneAccount blank user secret (by decide) (by decide) (sampleClient user)
    ⟨rfl, rfl⟩ (by decide) (by decide) judging awaiting ⟨rfl, rfl, rfl⟩ ⟨rfl, rfl, rfl⟩).mpr (by decide)

/-- A username of 128 bytes. -/
def longName : CString :=
  ⟨List.replicate 128 97, fun zero => absurd (List.eq_of_mem_replicate zero) (by decide)⟩

theorem long_username_disagrees :
    longName.strlen = 128 ∧ onReadNegotication (sampleClient longName) = none ∧
      ¬AuthAgrees resolving oneAccount blank (sampleClient longName) judging longName secret := by
  have length : longName.strlen = 128 := List.length_replicate
  have asked : (sampleClient longName).Authenticating longName secret := ⟨rfl, rfl⟩
  have beyond : onReadNegotication (sampleClient longName) = none := by
    have long : ¬(longName.strlen ≤ 127 ∧ secret.strlen ≤ 127) := by
      rw [length]
      decide
    rw [onReadNegotication_eq asked (by rw [length]; decide) (by decide), if_neg long]
  refine ⟨length, beyond, ?_⟩
  rintro ⟨sent, -, -, -, -, sends, -⟩
  rw [beyond] at sends
  cases sends

end Devent.Docks
