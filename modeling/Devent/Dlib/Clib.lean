import Devent.Library.Bytes
import Devent.Library.Fuel

/-! The address texts of clib.c, over what the C library reads in them. An overrun is a fault
with the size that would have been needed. -/
namespace Devent

def isSpace (b : Byte) : Bool := b == 32 || (9 ≤ b && b ≤ 13)

/-- The value of a digit below the given one. -/
def digitValue (limit : Nat) (b : Byte) : Option Nat :=
  let value := if 48 ≤ b ∧ b ≤ 57 then b.toNat - 48
    else if 97 ≤ b ∧ b ≤ 102 then b.toNat - 87
    else if 65 ≤ b ∧ b ≤ 70 then b.toNat - 55
    else 16
  if value < limit then some value else none

/-- The digits at the front, and what is behind them. -/
def scanDigits (base limit : Nat) : Nat → List Byte → Nat × List Byte
  | value, [] => (value, [])
  | value, b :: rest =>
    match digitValue limit b with
    | some digit => scanDigits base limit (base * value + digit) rest
    | none => (value, b :: rest)

/-- What `strtol` returns and where it stops; `errno` is whether it sets errno. -/
structure Conversion where
  value : Int
  errno : Bool
  rest : List Byte

/-- `strtol` with base 10. Whether it sets errno where there is no digit is left to the system. -/
def strtol (einval : Bool) (s : List Byte) : Conversion :=
  let body := s.dropWhile isSpace
  let negative := body.head? == some 45
  let digits := if negative || body.head? == some 43 then body.tail else body
  let (n, rest) := scanDigits 10 10 0 digits
  if rest.length = digits.length then ⟨0, einval, s⟩
  else if negative then if n ≤ 2 ^ 63 then ⟨-n, false, rest⟩ else ⟨-2 ^ 63, true, rest⟩
  else if n < 2 ^ 63 then ⟨n, false, rest⟩ else ⟨2 ^ 63 - 1, true, rest⟩

def atoi (s : List Byte) : Int := intT (sizeT (strtol false s).value)

/-- `strstr`: what is before the first occurrence, and the text from there. -/
def strstr (sep : List Byte) : List Byte → Option (List Byte × List Byte)
  | [] => if sep = [] then some ([], []) else none
  | b :: rest =>
    if sep.isPrefixOf (b :: rest) then some ([], b :: rest)
    else (strstr sep rest).map fun (before, found) => (b :: before, found)

/-- One number of `inet_addr`: decimal, octal behind "0", hexadecimal behind "0x". -/
def inetNumber (s : List Byte) : Option (Nat × List Byte) :=
  if (s.head?.bind (digitValue 10)).isNone then none
  else if s.head? ≠ some 48 then some (scanDigits 10 10 0 s)
  else if (s[1]? = some 120 ∨ s[1]? = some 88) ∧ (s[2]?.bind (digitValue 16)).isSome then
    some (scanDigits 16 16 0 (s.drop 2))
  else some (scanDigits 8 8 0 s)

/-- So many numbers at most, with dots between them; all but the last are bytes. -/
def inetNumbers : Nat → List Byte → Option (List Nat × List Byte)
  | 0, _ => none
  | count + 1, s => do
    let (value, rest) ← inetNumber s
    if rest.head? = some 46 then
      if value < 256 then
        let (values, rest) ← inetNumbers count rest.tail
        return (value :: values, rest)
      else none
    else return ([value], rest)

/-- The address of the numbers; the last fills the bytes that are left. -/
def inetJoin : Nat → List Nat → Option Nat
  | _, [] => none
  | width, [last] => if last < 256 ^ width then some last else none
  | width, value :: rest => (inetJoin (width - 1) rest).map fun low => value * 256 ^ (width - 1) + low

/-- `inet_addr`, in host order; `none` is INADDR_NONE. -/
def inetAddr (s : List Byte) : Option Nat := do
  let (values, rest) ← inetNumbers 4 s
  let address ← inetJoin 4 values
  if (rest = [] ∨ (rest.head?.map isSpace) = some true) ∧ address ≠ 2 ^ 32 - 1 then return address else none

/-- What "%d" prints. -/
def printNumber (n : Nat) : List Byte := (Nat.toDigits 10 n).map fun c => UInt8.ofNat c.toNat

/-- `stoi`; the digit 9 ends the number. -/
def stoi (s : List Byte) : Option Int :=
  let negative := s.head? == some 45
  let (n, rest) := scanDigits 10 9 0 (if negative then s.tail else s)
  if rest = [] then some (intT (sizeT (if negative then -(n : Int) else n))) else none

inductive SockAddr where
  | inet (address port : Nat)
  | inet6 (address : List Byte) (port : Nat)
  deriving DecidableEq

namespace SockAddr

def sizeIn : Nat := 16

/-- Where `sin6_addr` ends. -/
def endAddr6 : Nat := 24

end SockAddr

/-- `parse_address` for a buffer of the given size; `none` is the return of -1. -/
def parseAddress (inetPton : List Byte → Option (List Byte)) (len : Nat) (addrStr : List Byte) :
    Outcome Nat (Option SockAddr) :=
  if len < SockAddr.sizeIn then .value none
  else if addrStr.head? = some 91 then
    match strstr [93, 58] addrStr.tail with
    | none => .value none
    | some (domain, portStr) =>
      match inetPton domain with
      | none => .value none
      | some address =>
        if len < SockAddr.endAddr6 then .fault SockAddr.endAddr6
        else
          match stoi (portStr.drop 2) with
          | none => .value none
          | some port => .value (if port ≤ 0 ∨ port > 65535 then none else some (.inet6 address port.toNat))
  else
    match strstr [58] addrStr with
    | none => .value none
    | some (domain, portStr) =>
      match inetAddr domain with
      | none => .value none
      | some ipv4 =>
        let port := atoi portStr.tail
        .value (if port > 0 ∧ port ≤ 65535 then some (.inet ipv4 port.toNat) else none)

variable {inetPton : List Byte → Option (List Byte)} {len : Nat} {sep s before found : List Byte}

theorem strstr_append (cut : strstr sep s = some (before, found)) : s = before ++ found ∧ sep <+: found := by
  induction s generalizing before with
  | nil =>
    rw [strstr] at cut
    split at cut
    · rename_i empty
      cases cut
      exact ⟨rfl, empty ▸ List.nil_prefix⟩
    · cases cut
  | cons b rest ih =>
    rw [strstr] at cut
    split at cut
    · rename_i here
      cases cut
      exact ⟨rfl, List.isPrefixOf_iff_prefix.mp here⟩
    · obtain ⟨⟨later, _⟩, cut, same⟩ := Option.map_eq_some_iff.mp cut
      cases same
      obtain ⟨whole, here⟩ := ih cut
      exact ⟨congrArg (b :: ·) whole, here⟩

end Devent
