import Devent.Docks.ServerProofs

/-! CONNECT requests and how the two request callbacks take them: while bytes are
missing they wait, and a complete message is decoded and connected once. Only the
domain branch loses what it has read while it waits. -/
namespace Devent.Docks

/-- An address of the width or length its type allows. -/
inductive Destination where
  | ipv4 (address : { bytes : List Byte // bytes.length = ipv4Len })
  | domain (name : { bytes : List Byte // 1 ≤ bytes.length ∧ bytes.length ≤ maxDomainLen })
  | ipv6 (address : { bytes : List Byte // bytes.length = ipv6Len })

namespace Destination

def atype : Destination → Byte
  | .ipv4 _ => atypeIpv4
  | .domain _ => atypeDomainname
  | .ipv6 _ => atypeIpv6

def bytes : Destination → List Byte
  | .ipv4 address => address.val
  | .domain name => UInt8.ofNat name.val.length :: name.val
  | .ipv6 address => address.val

/-- The string the server makes of the address. -/
def host (platform : Platform) : Destination → Option CString
  | .ipv4 address => some (inetNtoa address.val)
  | .domain name => some (CString.ofBytes name.val)
  | .ipv6 address => platform.inetNtop address.val

def IsDomain (destination : Destination) : Prop := destination.atype = atypeDomainname

instance (destination : Destination) : Decidable destination.IsDomain := inferInstanceAs (Decidable (_ = _))

end Destination

structure ConnectRequest where
  destination : Destination
  portHigh : Byte
  portLow : Byte

namespace ConnectRequest

variable (request : ConnectRequest)

def header : List Byte := [socks5Version, cmdConnect, 0, request.destination.atype]

def body : List Byte := request.destination.bytes ++ [request.portHigh, request.portLow]

def bytes : List Byte := request.header ++ request.body

def port : Nat := portToUint16 request.portHigh request.portLow

theorem body_length : request.body.length ≤ 1 + maxDomainLen + portLen := by
  obtain ⟨destination, high, low⟩ := request
  cases destination with
  | ipv4 address => simp [body, Destination.bytes, address.property, portLen, ipv4Len, maxDomainLen]
  | domain name =>
    have short := name.property.2
    simp only [body, Destination.bytes, List.length_append, List.length_cons, List.length_nil, portLen]
    omega
  | ipv6 address => simp [body, Destination.bytes, address.property, portLen, ipv6Len, maxDomainLen]

end ConnectRequest

variable {server : Server} {platform : Platform} {request : ConnectRequest}

theorem connects_emit (server : Server) (effect : Effect) : (server.emit effect).connects =
    server.connects ++ ([effect].filterMap fun
      | .connect host port => some (host, port)
      | _ => none) := List.filterMap_append

theorem connects_setReadCb (server : Server) (cb : ReadCallback) :
    (server.setReadCb cb).connects = server.connects := by
  simp only [Server.setReadCb]
  split
  · rfl
  · simp only [connects_emit, List.filterMap_cons, List.filterMap_nil, List.append_nil]

theorem context_setReadCb (server : Server) (cb : ReadCallback) :
    (server.setReadCb cb).context = server.context := by
  simp only [Server.setReadCb]
  split <;> rfl

theorem inBuffer_setReadCb (server : Server) (cb : ReadCallback) :
    (server.setReadCb cb).inBuffer = server.inBuffer := by
  simp only [Server.setReadCb]
  split <;> rfl

/-- Host and port are stored, and one more connect was started, for them. -/
structure Started (before : List (CString × Nat)) (host : CString) (port : Nat)
    (server : Server) : Prop where
  remoteHost : server.context.remoteHost = some host
  remotePort : server.context.remotePort = port
  connects : server.connects = before ++ [(host, port)]

theorem Started.free {before : List (CString × Nat)} {host : CString} {port : Nat}
    (started : Started before host port server) : Started before host port server.free := by
  constructor
  · exact started.remoteHost
  · exact started.remotePort
  · rw [← started.connects, Server.free, connects_emit]
    exact List.append_nil _

theorem Started.setReadCb {before : List (CString × Nat)} {host : CString} {port : Nat}
    (started : Started before host port server) (cb : ReadCallback) :
    Started before host port (server.setReadCb cb) := by
  constructor
  · rw [context_setReadCb, started.remoteHost]
  · rw [context_setReadCb, started.remotePort]
  · rw [connects_setReadCb, started.connects]

/-- A CONNECT stores host and port and connects once. -/
theorem startConnect_started (platform : Platform) (host : CString) (port : Nat) (server : Server)
    (connect : server.context.connectHeader[1]? = some cmdConnect) :
    Started server.connects host port (startConnect platform host port server) := by
  have resp : getResp (server.context.connectHeader[1]?.getD 0) = replySucceeded := by
    rw [connect]
    decide
  have begun : ∀ context : ServerContext, context.remoteHost = some host → context.remotePort = port →
      Started server.connects host port
        (((server.setContext context).emit (.request host port)).emit (.connect host port)) := by
    intro context named numbered
    constructor
    · exact named
    · exact numbered
    · simp only [connects_emit, List.filterMap_cons, List.filterMap_nil, List.append_nil]
      rfl
  simp only [startConnect, resp, if_true]
  split
  · split
    · exact begun _ rfl rfl
    · exact (begun _ rfl rfl).free
  · split
    · have started := begun { server.context with
        remoteHost := some host, remotePort := port,
        replyData := [socks5Version, replySucceeded, 0] } rfl rfl
      exact ⟨started.remoteHost, started.remotePort, started.connects⟩
    · exact (begun _ rfl rfl).free

/-- An IP branch takes the address and the port, and nothing behind them. -/
theorem readIp_complete {ipLen : Nat} (print : List Byte → Option CString) {address tail : List Byte}
    {high low : Byte} {host : CString} (width : address.length = ipLen)
    (printed : print address = some host)
    (arrived : server.inBuffer = address ++ high :: low :: tail) :
    readIp platform ipLen print server =
      startConnect platform host (portToUint16 high low) ((server.consume ipLen).consume portLen) := by
  have long : ¬server.inBuffer.length < ipLen + portLen := by
    rw [arrived, List.length_append, width]
    exact Nat.not_lt.mpr (Nat.add_le_add_left (Nat.le_add_left ..) _)
  have ip : server.inBuffer.take ipLen = address := by rw [arrived, ← width, List.take_left]
  have port : (server.consume ipLen).inBuffer = high :: low :: tail := by
    simp only [Server.consume]
    rw [arrived, ← width, List.drop_left]
  have two : (high :: low :: tail).take portLen = [high, low] := rfl
  simp only [readIp, if_neg long, Server.read, ip, printed, port, two]
  rfl

/-- What the buffer of the domain branch takes of a complete domain and what follows it. -/
theorem take_domain {name : List Byte} (short : name.length ≤ maxDomainLen) (high low : Byte)
    (tail : List Byte) :
    (UInt8.ofNat name.length :: (name ++ high :: low :: tail)).take (maxDomainLen * 2 + 4) =
      UInt8.ofNat name.length :: (name ++ high :: low :: tail.take (maxDomainLen * 2 + 1 - name.length)) := by
  simp only [maxDomainLen] at short
  obtain ⟨room, split⟩ : ∃ room, 255 * 2 + 3 = name.length + (room + 2) :=
    ⟨255 * 2 + 1 - name.length, by omega⟩
  have left : 255 * 2 + 1 - name.length = room := by omega
  simp only [maxDomainLen, List.take_succ_cons, left, split, List.take_length_add_append]

/-- The domain branch takes as much as its buffer holds. -/
theorem readDomain_complete {name tail : List Byte} {high low : Byte} (nonempty : 1 ≤ name.length)
    (short : name.length ≤ maxDomainLen)
    (arrived : server.inBuffer = UInt8.ofNat name.length :: (name ++ high :: low :: tail)) :
    readDomain platform server = startConnect platform (CString.ofBytes name) (portToUint16 high low)
      (copyReqAddress (CString.ofBytes name) name.length (server.consume (maxDomainLen * 2 + 4))) := by
  have domainLen : (UInt8.ofNat name.length).toNat = name.length := by
    simp only [UInt8.toNat_ofNat', maxDomainLen] at short ⊢
    omega
  have bounded : ¬(name.length = 0 ∨ maxDomainLen < name.length) := by omega
  have complete : ¬(UInt8.ofNat name.length :: (name ++ high :: low :: tail)).length <
      1 + name.length + portLen := by
    simp only [List.length_append, List.length_cons, portLen]
    omega
  have host (rest : List Byte) : CString.strndup (name ++ rest) name.length = CString.ofBytes name := by
    rw [CString.strndup, List.take_left]
  have first (rest : List Byte) : (name ++ high :: rest)[name.length]? = some high := by
    rw [List.getElem?_append_right (Nat.le_refl _), Nat.sub_self]
    rfl
  have second (rest : List Byte) : (name ++ high :: low :: rest)[name.length + 1]? = some low := by
    rw [List.getElem?_append_right (Nat.le_add_right ..), Nat.add_sub_cancel_left]
    rfl
  simp only [readDomain, Server.read, arrived, take_domain short, domainLen, if_neg bounded, if_neg complete,
    host, first, second, Option.getD_some]

theorem copyReqAddress_frame (host : CString) (domainLen : Nat) (server : Server) :
    (copyReqAddress host domainLen server).context = server.context ∧
      (copyReqAddress host domainLen server).connects = server.connects := by
  simp only [copyReqAddress]
  split
  · constructor
    · rfl
    · simp only [connects_emit, List.filterMap_cons, List.filterMap_nil, List.append_nil]
  · exact ⟨rfl, rfl⟩

/-- The stored header selects the branch. -/
theorem readAddress_eq (platform : Platform) (request : ConnectRequest)
    (header : server.context.connectHeader = request.header) :
    readAddress platform server = match request.destination with
      | .ipv4 _ => readIp platform ipv4Len (fun ip => some (inetNtoa ip)) server
      | .domain _ => readDomain platform server
      | .ipv6 _ => readIp platform ipv6Len platform.inetNtop server := by
  have atype : server.context.connectHeader[3]?.getD 0 = request.destination.atype := by
    rw [header]
    rfl
  simp only [readAddress, atype]
  cases request.destination <;> rfl

/-- A request whose address and port are there is decoded and connected. -/
theorem readAddress_whole (request : ConnectRequest) {host : CString}
    (printed : request.destination.host platform = some host)
    (header : server.context.connectHeader = request.header) (arrived : server.inBuffer = request.body) :
    Started server.connects host request.port (readAddress platform server) := by
  have connect : server.context.connectHeader[1]? = some cmdConnect := by
    rw [header]
    rfl
  rw [readAddress_eq platform request header]
  obtain ⟨destination, high, low⟩ := request
  cases destination with
  | ipv4 address =>
    simp only [readIp_complete (fun ip => some (inetNtoa ip)) address.property printed arrived]
    exact startConnect_started platform host _ ((server.consume ipv4Len).consume portLen) connect
  | domain name =>
    obtain rfl : CString.ofBytes name.val = host := Option.some.inj printed
    obtain ⟨context, connects⟩ := copyReqAddress_frame (CString.ofBytes name.val) name.val.length
      (server.consume (maxDomainLen * 2 + 4))
    simp only [readDomain_complete name.property.1 name.property.2 arrived]
    have started := startConnect_started platform (CString.ofBytes name.val) (portToUint16 high low)
      (copyReqAddress (CString.ofBytes name.val) name.val.length (server.consume (maxDomainLen * 2 + 4)))
      (by rw [context]; exact connect)
    rw [connects] at started
    exact started
  | ipv6 address =>
    simp only [readIp_complete platform.inetNtop address.property printed arrived]
    exact startConnect_started platform host _ ((server.consume ipv6Len).consume portLen) connect

/-- The IP branches wait and keep everything. -/
theorem readAddress_waits (request : ConnectRequest) (ip : ¬request.destination.IsDomain)
    (header : server.context.connectHeader = request.header)
    (missing : server.inBuffer.length < request.body.length) : readAddress platform server = server := by
  rw [readAddress_eq platform request header]
  obtain ⟨destination, high, low⟩ := request
  cases destination with
  | ipv4 address =>
    have short : server.inBuffer.length < ipv4Len + portLen := by
      simpa [ConnectRequest.body, Destination.bytes, address.property, portLen] using missing
    simp only [readIp, if_pos short]
  | domain name => exact absurd rfl ip
  | ipv6 address =>
    have short : server.inBuffer.length < ipv6Len + portLen := by
      simpa [ConnectRequest.body, Destination.bytes, address.property, portLen] using missing
    simp only [readIp, if_pos short]

/-- The domain branch waits too, but it has read whatever was there. -/
theorem readAddress_drains (request : ConnectRequest) (domain : request.destination.IsDomain)
    (header : server.context.connectHeader = request.header)
    (missing : server.inBuffer.length < request.body.length)
    (arrived : server.inBuffer = request.body.take server.inBuffer.length) :
    readAddress platform server = server.consume (maxDomainLen * 2 + 4) := by
  rw [readAddress_eq platform request header]
  obtain ⟨destination, high, low⟩ := request
  cases destination with
  | ipv4 address => exact absurd domain (by simp only [Destination.IsDomain, Destination.atype]; decide)
  | ipv6 address => exact absurd domain (by simp only [Destination.IsDomain, Destination.atype]; decide)
  | domain name =>
    cases buffer : server.inBuffer with
    | nil => simp only [readDomain, Server.read, buffer, List.take_nil]
    | cons first rest =>
      rw [buffer] at arrived missing
      simp only [ConnectRequest.body, Destination.bytes, List.cons_append, List.length_cons,
        List.take_succ_cons, List.cons.injEq] at arrived missing
      obtain ⟨rfl, -⟩ := arrived
      have short := name.property.2
      have nonempty := name.property.1
      simp only [maxDomainLen] at short
      have domainLen : (UInt8.ofNat name.val.length).toNat = name.val.length := by
        simp only [UInt8.toNat_ofNat']
        omega
      have bounded : ¬(name.val.length = 0 ∨ maxDomainLen < name.val.length) := by
        simp only [maxDomainLen]
        omega
      have incomplete : rest.length + 1 < 1 + name.val.length + portLen := by
        simp only [List.length_append, List.length_cons, List.length_nil, portLen] at missing ⊢
        omega
      have some' : (UInt8.ofNat name.val.length :: rest).take (maxDomainLen * 2 + 4) =
          UInt8.ofNat name.val.length :: rest.take (maxDomainLen * 2 + 3) := rfl
      simp only [readDomain, Server.read, buffer, some', domainLen, if_neg bounded, List.length_cons,
        if_pos incomplete]

end Devent.Docks
