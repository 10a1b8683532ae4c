import Devent.Dns.Message

/-! The codec of dns/c_dns.c: name reading, query packing, response generation
and answer parsing, with every byte they read. A pointer is an index into the
message; strings are their bytes, `none` for NULL. -/
namespace Devent.Dns
open Outcome

abbrev Text := List Byte

def dot : Byte := 46

/-- "(null)", what `%s` prints for NULL. -/
def nullText : Text := [40, 110, 117, 108, 108, 41]

def headerLength : Nat := 12

def typeA : Nat := 1

def typeCname : Nat := 5

def typeAaaa : Nat := 28

def classIn : Nat := 1

/-- What `get_name` returns, leaves in `*result`, and stores through `offset`. -/
structure Name where
  size : Int
  text : Option Text
  offset : Int
  deriving DecidableEq

/-- `strndup` for the first label, `asprintf("%s.%s", ..)` for the others. -/
def gather : Option Text → Text → Text
  | none, label => label
  | some gathered, label => gathered ++ dot :: label

/-- `get_name` from a loop head: `text` and `size` are what the loop has gathered.
Fuel counts loop rounds and nested calls. -/
def getName (data : List Byte) : Nat → Int → Int → Option Text → Int → Access Name
  | 0, _, _, _, _ => .running
  | fuel + 1, offset, start, text, size => do
    let first ← read data start
    if first = 0 then return ⟨size + 1, text, offset⟩
    else if first >>> 6 = 3 then
      let low ← read data (start + 1)
      let target := ((first &&& 3).toNat <<< 4) + low.toNat
      if target > data.length then return ⟨-1, none, offset⟩
      else
        -- the nested result is not checked: a failed call leaves `left_name` NULL
        let left ← getName data fuel target target none 0
        match text with
        | none => return ⟨size + 2, left.text, left.offset⟩
        | some _ => return ⟨size + 2, some (gather text (left.text.getD nullText)), offset⟩
    else
      let label ← strndup data (start + 1) (sizeT (signedChar first))
      getName data fuel offset (start + (signedChar first + 1)) (some (gather text label))
        (size + (signedChar first + 1))

/-- The loop of `domain_to_dns_name_format` over the rest of the domain, at index
`i`; a label's length goes to `pIndex` once the label has ended. -/
def formatLoop : List Byte → Nat → Nat → Nat → List Byte → Access (List Byte)
  | [], i, pIndex, num, dns => do
    let dns ← writeBytes dns pIndex [UInt8.ofNat num]
    writeBytes dns (i + 1) [0]
  | c :: rest, i, pIndex, num, dns =>
    if c = dot then do
      let dns ← writeBytes dns pIndex [UInt8.ofNat num]
      formatLoop rest (i + 1) (i + 1) 0 dns
    else do
      let dns ← writeBytes dns (i + 1) [c]
      formatLoop rest (i + 1) pIndex (num + 1) dns

def domainToDnsNameFormat (malloc : Malloc) (domain : CString) : Access (List Byte) :=
  formatLoop domain.bytes 0 0 0 (malloc (domain.strlen + 2)).val

/-- The header `c_dns_pack` writes; the bits `cd` and `ad` keep what the buffer held. -/
def queryHeader (pid : Nat) (flags : Byte) : List Byte :=
  htons pid ++ ([1, flags &&& 0x30] ++ (htons 1 ++ [0, 0, 0, 0, 0, 0]))

/-- `c_dns_pack`; the inner `none` is the return of -1. -/
def pack (malloc : Malloc) (pid : Nat) (domain : CString) (buf : List Byte) (type : Nat) :
    Access (Option (Nat × List Byte)) :=
  if buf.length < headerLength then .value none
  else do
    let flags ← read buf 3
    let buf ← writeBytes buf 0 (queryHeader pid flags)
    let dns ← domainToDnsNameFormat malloc domain
    let name := (CString.ofBytes dns).bytes
    let buf ← writeBytes buf headerLength (name ++ [0])
    let buf ← writeBytes buf (headerLength + name.length + 1) (htons type ++ htons classIn)
    return some (headerLength + name.length + 1 + 4, buf)

/-- The fields of `struct hostent` that are filled in; `slots` is the size of both
tables, allocated for the answer count as the host reads it. -/
structure HostEnt where
  name : Option Text
  aliases : List (Option Text)
  addrList : List (List Byte)
  slots : Nat
  deriving DecidableEq

/-- The question loop of `c_dns_parse_a`; `none` is the return of -1. Type and class
are skipped unread. -/
def skipQuestions (data : List Byte) (fuel : Nat) : Nat → Int → Access (Option Int)
  | 0, qSize => .value (some qSize)
  | count + 1, qSize => do
    let name ← getName data fuel (headerLength + qSize) (headerLength + qSize) none 0
    if name.size = -1 then return none
    else skipQuestions data fuel count (qSize + name.size + 4)

/-- An answer that is neither an IN address nor an IN CNAME has its RDATA read as a
name; any answer but an IN address is then dumped. -/
def parseOther (data : List Byte) (fuel : Nat) (rdata : Int) (type cls dataLen : Nat) (host : HostEnt) :
    Access (Option HostEnt) :=
  if type ≠ typeCname ∨ cls ≠ classIn then do
    let alia ← getName data fuel rdata rdata none 0
    if alia.size = -1 then return none
    else
      hexDump data rdata dataLen
      return some { host with aliases := host.aliases ++ [alia.text] }
  else do
    hexDump data rdata dataLen
    return some host

def parseRdata (data : List Byte) (fuel : Nat) (rr : Int) (type cls dataLen : Nat) (host : HostEnt) :
    Access (Option HostEnt) :=
  if type ≠ typeA ∨ cls ≠ classIn then parseOther data fuel (rr + 10) type cls dataLen host
  else do
    hexDump data rr 10
    let rdata ← readBytes data (rr + 10) dataLen
    return some { host with addrList := host.addrList ++ [rdata] }

/-- One round of the answer loop: the host so far and the bytes the answer takes. -/
def parseAnswer (data : List Byte) (fuel : Nat) (start : Int) (host : HostEnt) :
    Access (Option (HostEnt × Int)) := do
  hexDump data start 2
  let name ← getName data fuel start start none 0
  if name.size = -1 then return none
  else
    let rr := start + name.size
    let type ← readNtohs data rr
    let cls ← readNtohs data (rr + 2)
    let _ ← readBytes data (rr + 4) 4
    let dataLen ← readNtohs data (rr + 8)
    let host := if host.name = none then { host with name := name.text } else host
    let parsed ← parseRdata data fuel rr type cls dataLen host
    return parsed.map fun host => (host, name.size + 10 + dataLen)

def parseAnswers (data : List Byte) (fuel : Nat) : Nat → Int → HostEnt → Access (Option HostEnt)
  | 0, _, host => .value (some host)
  | count + 1, start, host => do
    match ← parseAnswer data fuel start host with
    | none => return none
    | some (host, size) => parseAnswers data fuel count (start + size) host

/-- `c_dns_parse_a`; `none` is the return of -1, with `*host` untouched. -/
def parseA (data : List Byte) (fuel : Nat) : Access (Option HostEnt) := do
  hexDump data 0 data.length
  let flags ← read data 2
  if flags < 0x80 then return none
  else
    let flags ← read data 3
    if flags &&& 15 ≠ 0 then
      -- the log line prints the answer count
      let _ ← readNtohs data 6
      return none
    else
      let questions ← readNtohs data 4
      match ← skipQuestions data fuel questions 0 with
      | none => return none
      | some qSize =>
        let answers ← readNtohs data 6
        if answers = 0 then return none
        else
          let slots := (answers % 256) * 256 + answers / 256 + 1
          parseAnswers data fuel answers (headerLength + qSize) ⟨none, [], [], slots⟩

structure DomainOffset where
  domain : Option Text
  offset : Nat
  type : Nat

/-- The address callbacks; `none` is the return of -1. -/
structure Callbacks where
  ipv4 : Option Text → Option (Block 4)
  ipv6 : Option Text → Option (Block 16)

/-- The question loop of `c_dns_gen_inet_response`. -/
def collectQuestions (data : List Byte) (fuel : Nat) :
    Nat → Int → Nat → List DomainOffset → Access (Option (Int × Nat × List DomainOffset))
  | 0, qSize, respLen, domains => .value (some (qSize, respLen, domains))
  | count + 1, qSize, respLen, domains =>
    let start := headerLength + qSize
    if start > data.length then .value none
    else do
      let name ← getName data fuel start start none 0
      if name.size = -1 then return none
      else
        let type ← readNtohs data (start + name.size)
        let cls ← readNtohs data (start + name.size + 2)
        let qSize := qSize + name.size + 4
        if cls ≠ classIn ∨ (type ≠ typeA ∧ type ≠ typeAaaa) then
          collectQuestions data fuel count qSize respLen domains
        else
          collectQuestions data fuel count qSize
            (respLen + (2 + 10 + if type = typeA then 4 else 16))
            (domains ++ [⟨name.text, sizeT name.offset % 2 ^ 16, type⟩])

/-- A name pointer and the fixed header. The type written is A for both families;
`0xC0 | htons(offset)` sets the bits of the first byte in memory. -/
def answerHeader (offset dataLen : Nat) : List Byte :=
  [0xC0 ||| UInt8.ofNat (offset / 256), UInt8.ofNat offset] ++
    (htons typeA ++ (htons classIn ++ ([0, 0, 0, 0] ++ htons dataLen)))

def DomainOffset.address (callbacks : Callbacks) (d : DomainOffset) : Option (List Byte) :=
  if d.type = typeA then (callbacks.ipv4 d.domain).map Subtype.val
  else (callbacks.ipv6 d.domain).map Subtype.val

/-- The answer loop, with the domains the callbacks are asked for. -/
def writeAnswers (callbacks : Callbacks) :
    List DomainOffset → Int → List Byte → Access (List (Option Text) × Option (List Byte))
  | [], _, rdata => .value ([], some rdata)
  | d :: rest, start, rdata => do
    let rdata ← writeBytes rdata start (answerHeader d.offset (if d.type = typeA then 4 else 16))
    match d.address callbacks with
    | none => return ([d.domain], none)
    | some address =>
      let rdata ← writeBytes rdata (start + (2 + 10)) address
      let (asked, rdata) ← writeAnswers callbacks rest (start + (2 + 10 + address.length)) rdata
      return (d.domain :: asked, rdata)

/-- `c_dns_gen_inet_response`: the domains asked for and the response; `none` is
the return of -1. -/
def genInetResponse (malloc : Malloc) (callbacks : Callbacks) (data : List Byte) (fuel : Nat) :
    Access (List (Option Text) × Option (List Byte)) :=
  if data.length < headerLength then .value ([], none)
  else do
    hexDump data 0 data.length
    let flags ← read data 2
    if 0x80 ≤ flags then return ([], none)
    else
      let questions ← readNtohs data 4
      if questions = 0 then return ([], none)
      else
        match ← collectQuestions data fuel questions 0 data.length [] with
        | none => return ([], none)
        | some (qSize, respLen, domains) =>
          let rdata := data ++ (malloc respLen).val.drop data.length
          let rdata ← writeBytes rdata 2 [flags ||| 0x80]
          let rdata ← writeBytes rdata 6 (htons domains.length)
          writeAnswers callbacks domains (headerLength + qSize) rdata

end Devent.Dns
