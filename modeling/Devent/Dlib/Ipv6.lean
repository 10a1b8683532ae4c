import Devent.Dlib.Clib
import Devent.Library.LongestRun
import Mathlib.Data.List.Basic

/-! `ipv6_to_string` of dlib/clib.c, and the text of an IPv6 address that RFC 5952 asks for, with a
parser of such texts. A read outside the address and a store outside the block are undefined;
allocation succeeds. -/
namespace Devent.Ipv6

def ipv6Len : Nat := 16

/-- The length of "ffff:ffff:ffff:ffff:ffff:ffff:ffff:ffff". -/
def maxLen : Nat := 39

def colon : Byte := 58

/-- "0123456789abcdef" -/
def hexDigit : List Byte := [48, 49, 50, 51, 52, 53, 54, 55, 56, 57, 97, 98, 99, 100, 101, 102]

/-- `dst[*index] = c; (*index)++` -/
def appendByte (dst : List Byte) (index : Nat) (c : Byte) : Option (List Byte × Nat) :=
  if index < dst.length then some (dst.set index c, index + 1) else none

/-- The loop of `append_hex` over the digits below `j`. -/
def appendDigits (i : Int) : Nat → List Byte → Nat → Option (List Byte × Nat)
  | 0, dst, index => some (dst, index)
  | j + 1, dst, index =>
    let v := i >>> (j * 4)
    if v > 0 then do
      let c ← hexDigit[v.toNat &&& 0xf]?
      let (dst, index) ← appendByte dst index c
      appendDigits i j dst index
    else appendDigits i j dst index

def appendHex (dst : List Byte) (index : Nat) (i : Int) : Option (List Byte × Nat) :=
  if i = 0 then appendByte dst index 48 else appendDigits i 8 dst index

/-- `while (j < IPV6_LEN && ip[j] == 0 && ip[j + 1] == 0)` -/
def skipZeros (ip : List Byte) : Nat → Nat → Option Nat
  | 0, _ => none
  | rounds + 1, j =>
    if j < ipv6Len then do
      let high ← ip[j]?
      if high = 0 then do
        let low ← ip[j + 1]?
        if low = 0 then skipZeros ip rounds (j + 2) else some j
      else some j
    else some j

/-- The search for the bytes `e0` to `e1` that "::" stands for. -/
def findZeros (ip : List Byte) : Nat → Nat → Int → Int → Option (Int × Int)
  | 0, i, e0, e1 => if i < ipv6Len then none else some (e0, e1)
  | rounds + 1, i, e0, e1 =>
    if i < ipv6Len then do
      let j ← skipZeros ip ipv6Len i
      if j > i ∧ ((j - i : Nat) : Int) > e1 - e0 then findZeros ip rounds (j + 2) i j
      else findZeros ip rounds (i + 2) e0 e1
    else some (e0, e1)

/-- `(((uint) ip[i]) << 8) | (uint) ip[i + 1]`, as the `int` it is passed as. -/
def groupArgument (high low : Byte) : Int :=
  intT ((uint32T (signedChar high) <<< 8) % 2 ^ 32 ||| uint32T (signedChar low))

def appendGroup (ip : List Byte) (i : Nat) (dst : List Byte) (index : Nat) : Option (List Byte × Nat) := do
  let high ← ip[i]?
  let low ← ip[i + 1]?
  appendHex dst index (groupArgument high low)

/-- The output loop; `e0` is widened to be compared with `i`. -/
def printGroups (ip : List Byte) (e0 e1 : Int) : Nat → Nat → List Byte → Nat → Option (List Byte)
  | 0, i, dst, _ => if i < ipv6Len then none else some dst
  | rounds + 1, i, dst, index =>
    if i < ipv6Len then
      if i = sizeT e0 then do
        let (dst, index) ← appendByte dst index colon
        let (dst, index) ← appendByte dst index colon
        let i := sizeT e1
        if i ≥ ipv6Len then return dst
        else
          let (dst, index) ← appendGroup ip i dst index
          printGroups ip e0 e1 rounds (i + 2) dst index
      else do
        let (dst, index) ← if i > 0 then appendByte dst index colon else some (dst, index)
        let (dst, index) ← appendGroup ip i dst index
        printGroups ip e0 e1 rounds (i + 2) dst index
    else some dst

/-- The block that is returned. -/
def ipv6ToString (ip : List Byte) : Option (List Byte) := do
  let (e0, e1) ← findZeros ip ipv6Len 0 (-1) (-1)
  let (e0, e1) := if e1 - e0 ≤ 2 then (-1, -1) else (e0, e1)
  printGroups ip e0 e1 ipv6Len 0 (List.replicate maxLen 0) 0

/-- The groups of two bytes. -/
def groups : List Byte → List Nat
  | high :: low :: rest => (high.toNat * 256 + low.toNat) :: groups rest
  | _ => []

/-- Lowercase digits without leading zeros. -/
def hexText (n : Nat) : List Byte := (Nat.toDigits 16 n).map fun c => UInt8.ofNat c.toNat

def joined (texts : List (List Byte)) : List Byte := [colon].intercalate texts

def isZero (group : Nat) : Bool := group = 0

/-- "::" stands for the first of the longest runs of zero groups, if that has two or more. -/
inductive Rfc5952 (groups : List Nat) : List Byte → Prop where
  | whole (short : ∀ k, LongestRun.runAt isZero groups k < 2) : Rfc5952 groups (joined (groups.map hexText))
  | shortened (start : Nat) (first : LongestRun.FirstLongest isZero groups start)
      (long : 2 ≤ LongestRun.runAt isZero groups start) :
      Rfc5952 groups (joined ((groups.take start).map hexText) ++ [colon, colon] ++
        joined ((groups.drop (start + LongestRun.runAt isZero groups start)).map hexText))

/-- What is before the first "::", and what is behind it. -/
def cutDouble : List Byte → Option (List Byte × List Byte)
  | [] => none
  | [_] => none
  | a :: b :: rest =>
    if a = colon ∧ b = colon then some ([], rest)
    else (cutDouble (b :: rest)).map fun (before, behind) => (a :: before, behind)

/-- One to four hexadecimal digits. -/
def parseGroup (text : List Byte) : Option Nat :=
  let (value, rest) := scanDigits 16 16 0 text
  if text ≠ [] ∧ text.length ≤ 4 ∧ rest = [] then some value else none

def parseGroups (text : List Byte) : Option (List Nat) :=
  if text = [] then some [] else (text.splitOn colon).mapM parseGroup

def bytesOf (groups : List Nat) : List Byte :=
  groups.flatMap fun group => [UInt8.ofNat (group / 256), UInt8.ofNat group]

/-- Eight groups, or fewer around "::". -/
def parse (text : List Byte) : Option (List Byte) :=
  match cutDouble text with
  | none => do
    let groups ← parseGroups text
    if groups.length = 8 then some (bytesOf groups) else none
  | some (before, behind) => do
    let first ← parseGroups before
    let last ← parseGroups behind
    if first.length + last.length < 8 then
      some (bytesOf (first ++ List.replicate (8 - first.length - last.length) 0 ++ last))
    else none

end Devent.Ipv6
