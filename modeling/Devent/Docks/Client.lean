import Devent.Docks.Server

/-! The client side of the docks handshake: the messages that method.c, auth.c and
docks_connect.c send. A string is sent with a length held in a plain `char`, which
widens to `size_t`; `none` is a read beyond the string. -/
namespace Devent.Docks

inductive ClientCallback where
  | onReadNegotication
  | onReadUP
  | onReadServerConnect
  deriving DecidableEq

/-- NULL is `none`. -/
structure ClientConfig where
  username : Option CString
  password : Option CString

structure Client where
  config : ClientConfig
  remoteHost : CString
  remotePort : Nat
  inBuffer : List Byte
  outBuffer : List Byte
  readCb : ClientCallback

namespace Client

def write (client : Client) (bytes : List Byte) : Client :=
  { client with outBuffer := client.outBuffer ++ bytes }

/-- `DocketEvent_write` of a string and its terminator, at most as far as they reach. -/
def writeString (client : Client) (s : CString) (len : Byte) : Option Client :=
  let size := sizeT (signedChar len)
  if size ≤ s.strlen + 1 then some (client.write ((s.bytes ++ [0]).take size)) else none

end Client

/-- `n_write_u_short_to_data`. -/
def uShortToData (v : Nat) : List Byte := [UInt8.ofNat (v / 256), UInt8.ofNat v]

theorem portToUint16_uShortToData {port : Nat} (small : port < 65536) :
    portToUint16 (UInt8.ofNat (port / 256)) (UInt8.ofNat port) = port := by
  simp only [portToUint16, UInt8.toNat_ofNat']
  omega

def sendRemoteAddress (client : Client) : Option Client := do
  let client := client.write [socks5Version, cmdConnect, 0x00, atypeDomainname]
  let hostLen := UInt8.ofNat client.remoteHost.strlen
  let client := client.write [hostLen]
  let client ← client.writeString client.remoteHost hostLen
  let client := client.write (uShortToData client.remotePort)
  return { client with readCb := .onReadServerConnect }

/-- The answer to the choice of a method; other answers are left to a TODO. -/
def onReadNegotication (client : Client) : Option Client :=
  match client.inBuffer with
  | version :: method :: rest =>
    let client := { client with inBuffer := rest }
    if version ≠ socks5Version then some client
    else if method = methodUsernamePassword then do
      let username ← client.config.username
      let usernameLen := UInt8.ofNat username.strlen
      let client := client.write [authVersion1, usernameLen]
      let client ← client.writeString username usernameLen
      let password ← client.config.password
      let pwdLen := UInt8.ofNat password.strlen
      let client := client.write [pwdLen]
      let client ← client.writeString password pwdLen
      return { client with readCb := .onReadUP }
    else if method = methodNoAuthenticationRequired then sendRemoteAddress client
    else some client
  | _ => some client

/-- `docks_on_read_UP`. -/
def onReadUP (client : Client) : Option Client :=
  match client.inBuffer with
  | version :: result :: rest =>
    let client := { client with inBuffer := rest }
    if version ≠ authVersion1 then some client
    else if result ≠ authSuccess then some client
    else sendRemoteAddress client
  | _ => some client

end Devent.Docks
