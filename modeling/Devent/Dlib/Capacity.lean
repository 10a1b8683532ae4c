import Devent.Dlib.Ports
import Devent.Library.Region

/-! The caller's buffer of parse_address. The capacity is compared with the size of an IPv4
address before the family is known, and inet_pton stores before the port has been read. -/
namespace Devent

namespace SockAddr

def sizeIn6 : Nat := 28

def afInet : Int := 2

def afInet6 : Int := 30

def family : SockAddr → Int
  | .inet _ _ => afInet
  | .inet6 _ _ => afInet6

end SockAddr

/-- `ntohs`, in memory. -/
def portBytes (port : Nat) : List Byte := [UInt8.ofNat (port / 256), UInt8.ofNat port]

/-- `s_addr`, in memory. -/
def addressBytes (address : Nat) : List Byte :=
  [UInt8.ofNat (address / 2 ^ 24), UInt8.ofNat (address / 2 ^ 16), UInt8.ofNat (address / 2 ^ 8), UInt8.ofNat address]

/-- What `parse_address` returns, the bytes at `addr`, and `*len`. -/
structure ParsedAddress where
  ret : Int
  memory : Region Byte
  len : Nat
  deriving DecidableEq

/-- The family is the second byte of the structure, the port comes next, an IPv6 address at 8;
inet_pton has stored it before the port is read. -/
def storeInet6 (memory : Region Byte) (len : Nat) (address portStr : List Byte) : Except Overrun ParsedAddress := do
  let memory ← memory.store 8 address
  match stoi portStr with
  | none => return ⟨-1, memory, len⟩
  | some port =>
    if port ≤ 0 ∨ port > 65535 then
      let memory ← memory.store 8 (List.replicate 16 0)
      return ⟨-1, memory, len⟩
    else
      let memory ← memory.store 1 [30]
      let memory ← memory.store 2 (portBytes port.toNat)
      return ⟨SockAddr.afInet6, memory, SockAddr.sizeIn6⟩

/-- An IPv4 address stands at 4. -/
def storeInet (memory : Region Byte) (len ipv4 : Nat) (portStr : List Byte) : Except Overrun ParsedAddress :=
  let port := atoi portStr
  if port > 0 ∧ port ≤ 65535 then do
    let memory ← memory.store 1 [2]
    let memory ← memory.store 2 (portBytes port.toNat)
    let memory ← memory.store 4 (addressBytes ipv4)
    return ⟨SockAddr.afInet, memory, SockAddr.sizeIn⟩
  else .ok ⟨-1, memory, len⟩

/-- `parse_address` with its stores. -/
def parseAddressInto (inetPton : List Byte → Option (List Byte)) (memory : Region Byte) (len : Nat)
    (addrStr : List Byte) : Except Overrun ParsedAddress :=
  if len < SockAddr.sizeIn then .ok ⟨-1, memory, len⟩
  else if addrStr.head? = some 91 then
    match strstr [93, 58] addrStr.tail with
    | none => .ok ⟨-1, memory, len⟩
    | some (domain, portStr) =>
      match inetPton domain with
      | none => .ok ⟨-1, memory, len⟩
      | some address => storeInet6 memory len address (portStr.drop 2)
  else
    match strstr [58] addrStr with
    | none => .ok ⟨-1, memory, len⟩
    | some (domain, portStr) =>
      match inetAddr domain with
      | none => .ok ⟨-1, memory, len⟩
      | some ipv4 => storeInet memory len ipv4 portStr.tail

/-- The text is "[domain]:" with an IPv6 address, and a port or anything else behind it. -/
def IsInet6 (inetPton : List Byte → Option (List Byte)) (addrStr : List Byte) : Prop :=
  addrStr.head? = some 91 ∧ ∃ domain portStr address,
    strstr [93, 58] addrStr.tail = some (domain, portStr) ∧ inetPton domain = some address

/-- The text is "domain:" with an IPv4 address. -/
def IsInet (addrStr : List Byte) : Prop :=
  addrStr.head? ≠ some 91 ∧ ∃ domain portStr address,
    strstr [58] addrStr = some (domain, portStr) ∧ inetAddr domain = some address

/-- The capacity is too small for the family of the text. -/
def TooSmall (inetPton : List Byte → Option (List Byte)) (len : Nat) (addrStr : List Byte) : Prop :=
  IsInet6 inetPton addrStr ∧ len < SockAddr.sizeIn6 ∨ IsInet addrStr ∧ len < SockAddr.sizeIn

/-- The stores stay inside the capacity and so does the stored length, and where the capacity
is too small for the family nothing is stored and -1 returned. -/
def RespectsCapacity (inetPton : List Byte → Option (List Byte)) (len : Nat) (addrStr : List Byte) : Prop :=
  ∃ parsed, parseAddressInto inetPton (.uninit len) len addrStr = .ok parsed ∧
    (parsed.ret ≠ -1 → parsed.len ≤ len) ∧
    (TooSmall inetPton len addrStr → parsed = ⟨-1, .uninit len, len⟩)

variable {inetPton : List Byte → Option (List Byte)} {memory : Region Byte} {len : Nat}
  {addrStr address portStr : List Byte}

theorem ok_bind {α β : Type} (a : α) (f : α → Except Overrun β) : (Except.ok a >>= f) = f a := rfl

/-- The stores of an IPv4 address stay inside every capacity that passes the check. -/
theorem storeInet_spec (len ipv4 : Nat) (portStr : List Byte) (room : SockAddr.sizeIn ≤ memory.length) :
    ∃ memory', storeInet memory len ipv4 portStr = .ok ((inRange (atoi portStr)).elim ⟨-1, memory', len⟩
      fun _ => ⟨SockAddr.afInet, memory', SockAddr.sizeIn⟩) := by
  rw [storeInet, inRange]
  by_cases inside : 0 < atoi portStr ∧ atoi portStr ≤ 65535
  · simp only [SockAddr.sizeIn] at room
    obtain ⟨first, stored, width, -⟩ := Region.store_inside memory 1 [2] (by simp; omega)
    obtain ⟨second, stored', width', -⟩ := Region.store_inside first 2 (portBytes (atoi portStr).toNat)
      (by simp [portBytes]; omega)
    obtain ⟨third, stored'', -, -⟩ := Region.store_inside second 4 (addressBytes ipv4)
      (by simp [addressBytes]; omega)
    refine ⟨third, ?_⟩
    simp only [gt_iff_lt, if_pos inside, stored, ok_bind, stored', stored'', Option.elim_some]
    rfl
  · exact ⟨memory, by simp only [gt_iff_lt, if_neg inside, Option.elim_none]⟩

/-- The stores of an IPv6 address where they stay inside; they leave a trace even where the
port is refused. -/
theorem storeInet6_spec (len : Nat) (sixteen : address.length = 16) (portStr : List Byte)
    (room : SockAddr.endAddr6 ≤ memory.length) : ∃ memory',
    storeInet6 memory len address portStr = .ok (((stoi portStr).bind inRange).elim ⟨-1, memory', len⟩
      fun _ => ⟨SockAddr.afInet6, memory', SockAddr.sizeIn6⟩) ∧
    ((stoi portStr).bind inRange = none → ∃ value, memory'[8]? = some (some value)) := by
  simp only [SockAddr.endAddr6] at room
  obtain ⟨value, rest, rfl⟩ := List.exists_cons_of_ne_nil (List.ne_nil_of_length_pos (by rw [sixteen]; decide))
  obtain ⟨first, stored, width, there⟩ := Region.store_inside memory 8 (value :: rest) (by omega)
  rw [storeInet6, stored, ok_bind]
  cases stoi portStr with
  | none => exact ⟨first, rfl, fun _ => ⟨value, there value rfl⟩⟩
  | some port =>
    simp only [Option.bind_some, inRange]
    by_cases inside : 0 < port ∧ port ≤ 65535
    · have accepted : ¬(port ≤ 0 ∨ port > 65535) := by omega
      obtain ⟨second, stored', width', -⟩ := Region.store_inside first 1 [30] (by simp; omega)
      obtain ⟨third, stored'', -, -⟩ := Region.store_inside second 2 (portBytes port.toNat)
        (by simp [portBytes]; omega)
      rw [if_pos inside, if_neg accepted, stored', ok_bind, stored'', ok_bind]
      exact ⟨third, rfl, fun refused => absurd refused (Option.some_ne_none _)⟩
    · have refused : port ≤ 0 ∨ port > 65535 := by omega
      obtain ⟨cleared, stored', -, there'⟩ := Region.store_inside first 8 (List.replicate 16 0) (by simp; omega)
      rw [if_neg inside, if_pos refused, stored', ok_bind]
      exact ⟨cleared, rfl, fun _ => ⟨0, there' 0 rfl⟩⟩

/-- Whatever the port, an IPv6 address leaves its trace, overruns or is told to be there. -/
theorem storeInet6_traced (sixteen : address.length = 16) (portStr : List Byte) :
    storeInet6 (.uninit len) len address portStr ≠ .ok ⟨-1, .uninit len, len⟩ := by
  intro done
  obtain beyond | room := Nat.lt_or_ge len SockAddr.endAddr6
  · simp only [SockAddr.endAddr6] at beyond
    rw [storeInet6, Region.store_overruns (by rw [Region.length_uninit, sixteen]; omega)] at done
    cases done
  have width : (Region.uninit len : Region Byte).length = len := Region.length_uninit len
  obtain ⟨memory, stores, traced⟩ := storeInet6_spec len sixteen portStr (width.symm ▸ room)
  rw [stores] at done
  cases port : (stoi portStr).bind inRange with
  | none =>
    obtain ⟨value, there⟩ := traced port
    have same : memory = .uninit len := by
      rw [port] at done
      exact congrArg ParsedAddress.memory (Except.ok.inj done)
    have empty : (Region.uninit len : Region Byte)[8]? = some none :=
      List.getElem?_replicate_of_lt (Nat.lt_of_lt_of_le (by decide) room)
    rw [same, empty] at there
    cases there
  | some port' =>
    rw [port] at done
    have same : SockAddr.afInet6 = -1 := congrArg ParsedAddress.ret (Except.ok.inj done)
    exact absurd same (by decide)

/-- parse_address refuses the text before it stores anything, or stores what its family does. -/
theorem parseAddressInto_cases (inetPton : List Byte → Option (List Byte)) (memory : Region Byte) (len : Nat)
    (addrStr : List Byte) :
    (parseAddressInto inetPton memory len addrStr = .ok ⟨-1, memory, len⟩ ∧
      parseAddress inetPton len addrStr = .value none ∧ (len < SockAddr.sizeIn ∨ ¬IsInet6 inetPton addrStr)) ∨
    (∃ domain address portStr, SockAddr.sizeIn ≤ len ∧ IsInet6 inetPton addrStr ∧ inetPton domain = some address ∧
      parseAddressInto inetPton memory len addrStr = storeInet6 memory len address portStr ∧
      (SockAddr.endAddr6 ≤ len → parseAddress inetPton len addrStr =
        .value (((stoi portStr).bind inRange).map fun port => .inet6 address port))) ∨
    ∃ ipv4 portStr, SockAddr.sizeIn ≤ len ∧ ¬IsInet6 inetPton addrStr ∧
      parseAddressInto inetPton memory len addrStr = storeInet memory len ipv4 portStr ∧
      parseAddress inetPton len addrStr = .value ((inRange (atoi portStr)).map fun port => .inet ipv4 port) := by
  by_cases small : len < SockAddr.sizeIn
  · exact .inl ⟨by rw [parseAddressInto, if_pos small], by rw [parseAddress, if_pos small], .inl small⟩
  have large := Nat.not_lt.mp small
  by_cases bracket : addrStr.head? = some 91
  · cases cut : strstr [93, 58] addrStr.tail with
    | none =>
      refine .inl ⟨?_, ?_, .inr ?_⟩
      · simp only [parseAddressInto, if_neg small, if_pos bracket, cut]
      · simp only [parseAddress, if_neg small, if_pos bracket, cut]
      · rintro ⟨-, domain, portStr, address, cut', -⟩
        cases cut.symm.trans cut'
    | some parts =>
      obtain ⟨domain, portStr⟩ := parts
      cases accepted : inetPton domain with
      | none =>
        refine .inl ⟨?_, ?_, .inr ?_⟩
        · simp only [parseAddressInto, if_neg small, if_pos bracket, cut, accepted]
        · simp only [parseAddress, if_neg small, if_pos bracket, cut, accepted]
        · rintro ⟨-, domain', portStr', address, cut', accepted'⟩
          cases cut.symm.trans cut'
          cases accepted.symm.trans accepted'
      | some address =>
        have is6 : IsInet6 inetPton addrStr := ⟨bracket, domain, portStr, address, cut, accepted⟩
        refine .inr (.inl ⟨domain, address, portStr.drop 2, large, is6, accepted, ?_, fun room => ?_⟩)
        · simp only [parseAddressInto, if_neg small, if_pos bracket, cut, accepted]
        · exact parseAddress_bracketed room bracket cut accepted
  · have other : ¬IsInet6 inetPton addrStr := fun is6 => bracket is6.1
    cases cut : strstr [58] addrStr with
    | none =>
      refine .inl ⟨?_, ?_, .inr other⟩
      · simp only [parseAddressInto, if_neg small, if_neg bracket, cut]
      · simp only [parseAddress, if_neg small, if_neg bracket, cut]
    | some parts =>
      obtain ⟨domain, portStr⟩ := parts
      cases accepted : inetAddr domain with
      | none =>
        refine .inl ⟨?_, ?_, .inr other⟩
        · simp only [parseAddressInto, if_neg small, if_neg bracket, cut, accepted]
        · simp only [parseAddress, if_neg small, if_neg bracket, cut, accepted]
      | some ipv4 =>
        refine .inr (.inr ⟨ipv4, portStr.tail, large, other, ?_, ?_⟩)
        · simp only [parseAddressInto, if_neg small, if_neg bracket, cut, accepted]
        · exact parseAddress_plain large bracket cut accepted

/-- parse_address respects its buffer exactly where the check comes first, where there is room
for an IPv6 address, or where there is none. -/
theorem capacity_respected_iff (inetPton : List Byte → Option (List Byte))
    (sixteen : ∀ domain address, inetPton domain = some address → address.length = 16) (len : Nat)
    (addrStr : CString) : RespectsCapacity inetPton len addrStr.bytes ↔
      len < SockAddr.sizeIn ∨ SockAddr.sizeIn6 ≤ len ∨ ¬IsInet6 inetPton addrStr.bytes := by
  have width : (Region.uninit len : Region Byte).length = len := Region.length_uninit len
  obtain ⟨refused, -, before⟩ | ⟨domain, address, portStr, large, is6, accepted, stores, -⟩ |
    ⟨ipv4, portStr, large, other, stores, -⟩ := parseAddressInto_cases inetPton (.uninit len) len addrStr.bytes
  · refine iff_of_true ⟨_, refused, fun succeeded => absurd rfl succeeded, fun _ => rfl⟩ ?_
    exact before.imp_right .inr
  · have sixteen := sixteen domain address accepted
    by_cases room : SockAddr.sizeIn6 ≤ len
    · have inside : SockAddr.endAddr6 ≤ (Region.uninit len : Region Byte).length := by
        rw [width]
        exact Nat.le_trans (by decide) room
      obtain ⟨memory', done, -⟩ := storeInet6_spec len sixteen portStr inside
      refine iff_of_true ⟨_, stores.trans done, ?_, fun tooSmall => ?_⟩ (.inr (.inl room))
      · cases (stoi portStr).bind inRange with
        | none => exact fun succeeded => absurd rfl succeeded
        | some port => exact fun _ => room
      · obtain ⟨-, short⟩ | ⟨-, short⟩ := tooSmall
        · exact absurd short (Nat.not_lt.mpr room)
        · exact absurd short (Nat.not_lt.mpr large)
    · refine iff_of_false ?_ ?_
      · rintro ⟨parsed, done, -, untouched⟩
        rw [untouched (.inl ⟨is6, Nat.not_le.mp room⟩), stores] at done
        exact storeInet6_traced sixteen portStr done
      · rintro (small | larger | other)
        · exact absurd small (Nat.not_lt.mpr large)
        · exact room larger
        · exact other is6
  · obtain ⟨memory', done⟩ := storeInet_spec len ipv4 portStr (width.symm ▸ large)
    refine iff_of_true ⟨_, stores.trans done, ?_, fun tooSmall => ?_⟩ (.inr (.inr other))
    · cases inRange (atoi portStr) with
      | none => exact fun succeeded => absurd rfl succeeded
      | some port => exact fun _ => large
    · obtain ⟨is6, -⟩ | ⟨-, short⟩ := tooSmall
      · exact absurd is6 other
      · exact absurd short (Nat.not_lt.mpr large)

/-- The stores are those of `parseAddress`: where they stay inside, it returns the family. -/
theorem parseAddressInto_ret {parsed : ParsedAddress}
    (sixteen : ∀ domain address, inetPton domain = some address → address.length = 16)
    (done : parseAddressInto inetPton (.uninit len) len addrStr = .ok parsed) :
    ∃ result, parseAddress inetPton len addrStr = .value result ∧
      parsed.ret = result.elim (-1) SockAddr.family := by
  have width : (Region.uninit len : Region Byte).length = len := Region.length_uninit len
  obtain ⟨refused, read, -⟩ | ⟨domain, address, portStr, -, -, accepted, stores, read⟩ |
    ⟨ipv4, portStr, large, -, stores, read⟩ := parseAddressInto_cases inetPton (.uninit len) len addrStr
  · rw [refused] at done
    cases done
    exact ⟨none, read, rfl⟩
  · rw [stores] at done
    have sixteen := sixteen domain address accepted
    obtain beyond | room := Nat.lt_or_ge len SockAddr.endAddr6
    · simp only [SockAddr.endAddr6] at beyond
      rw [storeInet6, Region.store_overruns (by rw [width, sixteen]; omega)] at done
      cases done
    obtain ⟨memory, stored, -⟩ := storeInet6_spec len sixteen portStr (width.symm ▸ room)
    rw [stored] at done
    refine ⟨_, read room, ?_⟩
    rw [← Except.ok.inj done]
    cases (stoi portStr).bind inRange <;> rfl
  · obtain ⟨memory, stored⟩ := storeInet_spec len ipv4 portStr (width.symm ▸ large)
    rw [stores, stored] at done
    refine ⟨_, read, ?_⟩
    rw [← Except.ok.inj done]
    cases inRange (atoi portStr) <;> rfl

/-- "[::1]:80". -/
def loopbackText : CString := ⟨91 :: (loopback6 ++ [93, 58, 56, 48]), by decide⟩

theorem loopbackPton_sixteen (domain address : List Byte) (read : loopbackPton domain = some address) :
    address.length = 16 := by
  rw [loopbackPton] at read
  split at read
  · cases read
    rfl
  · cases read

theorem sockaddr_storage_respected : RespectsCapacity loopbackPton 128 loopbackText.bytes :=
  (capacity_respected_iff loopbackPton loopbackPton_sixteen 128 loopbackText).mpr (.inr (.inl (by decide)))

/-- A `struct sockaddr` has 16 bytes. -/
theorem sockaddr_overrun : ¬RespectsCapacity loopbackPton 16 loopbackText.bytes := by
  rintro ⟨parsed, done, -⟩
  have overrun : parseAddressInto loopbackPton (.uninit 16) 16 loopbackText.bytes = .error .store := by decide
  rw [overrun] at done
  cases done

end Devent
