import Devent.Dlib.HashMap

/-! The server side of the docks handshake: the read callbacks of method.c, auth.c
and docks_connect.c. The in-buffer is the byte queue that the chunked buffer
refines. While a read callback runs, writing is disabled, so a write only grows the
out-buffer. `log` keeps, in order, what the callbacks do. -/
namespace Devent.Docks

def socks5Version : Byte := 0x05

def methodNoAuthenticationRequired : Byte := 0x00

def methodUsernamePassword : Byte := 0x02

def methodNoAcceptableMethods : Byte := 0xFF

def connHeaderLen : Nat := 4

def ipv4Len : Nat := 4

def ipv6Len : Nat := 16

def portLen : Nat := 2

def maxDomainLen : Nat := 255

def atypeIpv4 : Byte := 0x01

def atypeDomainname : Byte := 0x03

def atypeIpv6 : Byte := 0x04

def cmdConnect : Byte := 0x01

def replySucceeded : Byte := 0x00

def replyCommandNotSupported : Byte := 0x07

def authVersion1 : Byte := 0x01

def authSuccess : Byte := 0x00

def authFailure : Byte := 0xFF

structure ServerConfig where
  users : Option (CHashMap CString)

/-- The password stored for a user. -/
def ServerConfig.password (config : ServerConfig) (username : CString) : Option CString :=
  config.users.bind (·.get username)

/-- What lies outside: `inet_ntop` for IPv6, the `connect_remote` the embedding may
install, and `DocketEvent_connect_hostname`. A connect answers whether its event exists. -/
structure Platform where
  inetNtop : List Byte → Option CString
  connectRemote : Option (CString → Nat → Bool)
  connectHostname : CString → Nat → Bool

inductive ReadCallback where
  | onReadMethods
  | onReadMethodsInner
  | onAuthRead
  | connectRead
  | readAddress
  | serverRead
  deriving DecidableEq

inductive Invalid where
  | useAfterFree
  | stackArray
  | reqAddress
  deriving DecidableEq

inductive Effect where
  | call (cb : ReadCallback)
  | write (bytes : List Byte)
  | auth (username password : CString) (success : Bool)
  | request (host : CString) (port : Nat)
  | connect (host : CString) (port : Nat)
  | relay (bytes : List Byte)
  | freed
  | invalid (what : Invalid)
  deriving DecidableEq

/-- `remote` tells whether a `RemoteContext` was stored. -/
structure ServerContext where
  methodCount : Byte
  method : Byte
  remoteHost : Option CString
  remotePort : Nat
  connectHeader : List Byte
  replyData : List Byte
  remote : Bool

structure Server where
  context : ServerContext
  inBuffer : List Byte
  readCb : ReadCallback
  live : Bool
  log : List Effect

namespace Server

def emit (server : Server) (effect : Effect) : Server := { server with log := server.log ++ [effect] }

/-- `ServerContext_free` and `DocketEvent_free`. -/
def free (server : Server) : Server := emit { server with live := false, inBuffer := [] } .freed

/-- Memory is corrupted beyond what the model follows. -/
def crash (server : Server) (what : Invalid) : Server := emit { server with live := false } (.invalid what)

def setReadCb (server : Server) (cb : ReadCallback) : Server :=
  if server.live then { server with readCb := cb } else server.emit (.invalid .useAfterFree)

def write (server : Server) (bytes : List Byte) : Server := server.emit (.write bytes)

def setContext (server : Server) (context : ServerContext) : Server := { server with context := context }

def consume (server : Server) (len : Nat) : Server := { server with inBuffer := server.inBuffer.drop len }

/-- `DocketEvent_read_full`: `none` for the return of -1. -/
def readFull (server : Server) (len : Nat) : Option (List Byte × Server) :=
  if 0 < len ∧ len ≤ server.inBuffer.length then
    some (server.inBuffer.take len, server.consume len)
  else none

/-- `DocketEvent_read`. -/
def read (server : Server) (len : Nat) : List Byte × Server :=
  (server.inBuffer.take len, server.consume len)

end Server

/-- `docks_negotication`. -/
def negotication (config : ServerConfig) (methods : List Byte) : Byte :=
  if config.users.isNone ∨ CHashMap.getCount config.users = 0 then methodNoAuthenticationRequired
  else if methodUsernamePassword ∈ methods then methodUsernamePassword
  else methodNoAcceptableMethods

def onReadMethodsInner (config : ServerConfig) (server : Server) : Server :=
  let count := server.context.methodCount.toNat
  if server.inBuffer.length < count then server
  else match server.readFull count with
  | none => server.free
  | some (methods, server) =>
    let method := negotication config methods
    let server := server.write [socks5Version, method]
    let server := server.setContext { server.context with method := method }
    if method = methodNoAuthenticationRequired then server.setReadCb .connectRead
    else if method = methodUsernamePassword then server.setReadCb .onAuthRead
    else server.free

def onReadMethods (config : ServerConfig) (server : Server) : Server :=
  match server.readFull 2 with
  | none => server
  | some (versionMethod, server) =>
    if versionMethod[0]? ≠ some socks5Version then server.free
    else
      let count := versionMethod[1]?.getD 0
      let server := server.setContext { server.context with methodCount := count }
      onReadMethodsInner config (server.setReadCb .onReadMethodsInner)

/-- The array `char data[1024]` after the peek; beyond the peeked bytes it holds
whatever the stack held. -/
def authData (buffer : List Byte) (stack : Nat → Byte) (i : Nat) : Byte :=
  ((buffer.take 1024)[i]?).getD (stack i)

def slice (data : Nat → Byte) (i n : Nat) : List Byte := (List.range n).map fun k => data (i + k)

/-- `docks_on_auth_read`. A complete message is judged, and the request is read next
whatever the judgement. -/
def onAuthRead (config : ServerConfig) (stack : Nat → Byte) (server : Server) : Server :=
  if server.inBuffer.length < 2 then server
  else
    let data := authData server.inBuffer stack
    let len := min 1024 server.inBuffer.length
    if data 0 ≠ authVersion1 then server.free
    else
      let usernameLen := sizeT (signedChar (data 1))
      if len - 2 < usernameLen then server
      else
        let pwdLen := sizeT (signedChar (data (2 + usernameLen)))
        -- the subtraction is unsigned: one byte short, it wraps
        if sizeT ((len : Int) - 2 - usernameLen - 1) < pwdLen then server
        else if 1024 < 2 + usernameLen + 1 + pwdLen then server.crash .stackArray
        else
          let u := CString.ofBytes (slice data 2 usernameLen)
          let p := CString.ofBytes (slice data (2 + usernameLen + 1) pwdLen)
          let server := match server.readFull (2 + usernameLen + 1 + pwdLen) with
            | some (_, server) => server
            | none => server
          let success := decide (config.password u = some p)
          let server := server.emit (.auth u p success)
          let server := server.write [authVersion1, if success then authSuccess else authFailure]
          server.setReadCb .connectRead

def portToUint16 (high low : Byte) : Nat := high.toNat * 256 + low.toNat

def decimal (b : Byte) : List Byte := (Nat.toDigits 10 b.toNat).map fun c => UInt8.ofNat c.toNat

/-- `inet_ntoa`, dotted decimal. -/
def inetNtoa (ip : List Byte) : CString := CString.ofBytes (List.intercalate [46] (ip.map decimal))

def getResp (command : Byte) : Byte :=
  if command ≠ cmdConnect then replyCommandNotSupported else replySucceeded

/-- The end of `read_address`, once host and port are known. -/
def startConnect (platform : Platform) (host : CString) (port : Nat) (server : Server) : Server :=
  let resp := getResp (server.context.connectHeader[1]?.getD 0)
  let server := server.setContext { server.context with
    remoteHost := some host, remotePort := port, replyData := [socks5Version, resp, 0] }
  let server := server.emit (.request host port)
  if resp = replySucceeded then
    let server := server.emit (.connect host port)
    match platform.connectRemote with
    | some connectRemote => if connectRemote host port then server else server.free
    | none =>
      if platform.connectHostname host port then
        server.setContext { server.context with remote := true }
      else server.free
  else server

/-- The IP branches of `read_address`, which wait for the whole address and port. -/
def readIp (platform : Platform) (ipLen : Nat) (print : List Byte → Option CString) (server : Server) :
    Server :=
  if server.inBuffer.length < ipLen + portLen then server
  else
    let (ip, server) := server.read ipLen
    match print ip with
    | none => server.free
    | some host =>
      let (port, server) := server.read portLen
      startConnect platform host (portToUint16 (port[0]?.getD 0) (port[1]?.getD 0)) server

/-- The copy into `req_address`: the domain behind its length, taken from the string. -/
def copyReqAddress (host : CString) (domainLen : Nat) (server : Server) : Server :=
  if maxDomainLen < 1 + domainLen ∨ host.strlen + 1 < domainLen then server.emit (.invalid .reqAddress)
  else server

/-- The domain branch of `read_address`, which reads before it checks. -/
def readDomain (platform : Platform) (server : Server) : Server :=
  let len := server.inBuffer.length
  let (buffer, server) := server.read (maxDomainLen * 2 + 4)
  match buffer with
  | [] => server
  | first :: rest =>
    let domainLen := first.toNat
    if domainLen = 0 ∨ maxDomainLen < domainLen then server.free
    else if len < 1 + domainLen + portLen then server
    else
      let host := CString.strndup rest domainLen
      let port := portToUint16 (rest[domainLen]?.getD 0) (rest[domainLen + 1]?.getD 0)
      startConnect platform host port (copyReqAddress host domainLen server)

def readAddress (platform : Platform) (server : Server) : Server :=
  let atype := server.context.connectHeader[3]?.getD 0
  if atype = atypeIpv4 then readIp platform ipv4Len (fun ip => some (inetNtoa ip)) server
  else if atype = atypeIpv6 then readIp platform ipv6Len platform.inetNtop server
  else readDomain platform server

/-- `docks_connect_read`; an unsupported command is only logged here. -/
def connectRead (platform : Platform) (server : Server) : Server :=
  match server.readFull connHeaderLen with
  | none => server
  | some (header, server) =>
    let server := server.setContext { server.context with connectHeader := header }
    let atype := header[3]?.getD 0
    if header[0]? ≠ some socks5Version then server.free
    else if header[2]? ≠ some 0 then server.free
    else if atype ≠ atypeIpv4 ∧ atype ≠ atypeDomainname ∧ atype ≠ atypeIpv6 then server.free
    else (readAddress platform server).setReadCb .readAddress

/-- `docket_server_read` hands everything to the remote event. -/
def serverRead (server : Server) : Server :=
  (server.consume server.inBuffer.length).emit (.relay server.inBuffer)

namespace Server

/-- One call of the read callback. -/
def callRead (platform : Platform) (config : ServerConfig) (stack : Nat → Byte) (server : Server) :
    Server :=
  let called := server.emit (.call server.readCb)
  match server.readCb with
  | .onReadMethods => onReadMethods config called
  | .onReadMethodsInner => onReadMethodsInner config called
  | .onAuthRead => onAuthRead config stack called
  | .connectRead => connectRead platform called
  | .readAddress => readAddress platform called
  | .serverRead => Docks.serverRead called

/-- The remote connects started so far. -/
def connects (server : Server) : List (CString × Nat) :=
  server.log.filterMap fun
    | .connect host port => some (host, port)
    | _ => none

/-- What `docks_on_socks_connect` sets up for a new connection. -/
def start : Server where
  context := ⟨0, 0, none, 0, [0, 0, 0, 0], [0, 0, 0], false⟩
  inBuffer := []
  readCb := .onReadMethods
  live := true
  log := []

end Server

/-- A segment read from the socket, the end of the stream with its final callback,
or the success reply flushed, which starts the relay. -/
inductive Input where
  | segment (bytes : List Byte) (stack : Nat → Byte)
  | finish (stack : Nat → Byte)
  | connected

def Input.bytes : Input → List Byte
  | .segment bytes _ => bytes
  | .finish _ => []
  | .connected => []

def Input.stack : Input → Nat → Byte
  | .segment _ stack => stack
  | .finish stack => stack
  | .connected => fun _ => 0

/-- One event of a live connection. -/
def step (platform : Platform) (config : ServerConfig) (server : Server) : Input → Option (Server × Unit)
  | .segment bytes stack =>
    if server.live ∧ bytes ≠ [] then
      some (Server.callRead platform config stack { server with inBuffer := server.inBuffer ++ bytes }, ())
    else none
  | .finish stack =>
    if server.live then
      let server := if server.inBuffer = [] then server else server.callRead platform config stack
      some (if server.live then server.free else server, ())
    else none
  | .connected =>
    if server.live ∧ server.connects ≠ [] then
      let context := { server.context with remote := true }
      some ({ server with context := context, readCb := .serverRead }, ())
    else none

end Devent.Docks
