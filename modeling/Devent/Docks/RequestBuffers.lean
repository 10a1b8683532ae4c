import Devent.Docks.OneRequest
import Devent.Library.Region

/-! The arrays of `read_address` and the copies between them: those on its stack, the
in-buffer it reads from and the string that strndup allocates. -/
namespace Devent.Docks

/-- The block of a string, with its terminator. -/
def stringBlock (s : CString) : Region Byte := Region.full (s.bytes ++ [0])

/-- What the copies leave for the connect. -/
structure RequestCopies where
  reqAddress : Region Byte
  port : Region Byte
  host : CString

/-- The IP branches; `none` where they return early. -/
def readIpCopies (ipLen : Nat) (print : List Byte → Option CString) (received : List Byte) :
    Except Overrun (Option RequestCopies) :=
  if received.length < ipLen + portLen then .ok none
  else do
    let ip ← (Region.uninit ipLen).store 0 (received.take ipLen)
    let address ← ip.load 0 ipLen
    match print address with
    | none => return none
    | some host =>
      let portData ← (Region.uninit portLen).store 0 ((received.drop ipLen).take portLen)
      let reqAddress ← (Region.uninit maxDomainLen).copy 0 ip 0 ipLen
      let port ← (Region.uninit portLen).copy 0 portData 0 portLen
      return some ⟨reqAddress, port, host⟩

/-- The end of the domain branch: `req_address` gets the length and the bytes of the string. -/
def copyDomain (host : CString) (domainLen : Nat) (port : Region Byte) :
    Except Overrun (Option RequestCopies) := do
  let reqAddress ← (Region.uninit maxDomainLen).store 0 [UInt8.ofNat domainLen]
  let reqAddress ← reqAddress.copy 1 (stringBlock host) 0 domainLen
  return some ⟨reqAddress, port, host⟩

def readDomainCopies (received : List Byte) : Except Overrun (Option RequestCopies) :=
  match received.take (maxDomainLen * 2 + 4) with
  | [] => .ok none
  | first :: rest => do
    let buffer ← (Region.uninit (maxDomainLen * 2 + 4)).store 0 (first :: rest)
    let domainLen := first.toNat
    if domainLen = 0 ∨ maxDomainLen < domainLen then return none
    else if received.length < 1 + domainLen + portLen then return none
    else
      let name ← buffer.loadUntil (· = 0) 1 domainLen
      let port ← (Region.uninit portLen).copy 0 buffer (1 + domainLen) portLen
      copyDomain (CString.ofBytes name) domainLen port

/-- The copies of `read_address` for a stored header and what was received behind it. -/
def readAddressCopies (platform : Platform) (header received : List Byte) :
    Except Overrun (Option RequestCopies) :=
  let atype := header[3]?.getD 0
  if atype = atypeIpv4 then readIpCopies ipv4Len (fun ip => some (inetNtoa ip)) received
  else if atype = atypeIpv6 then readIpCopies ipv6Len platform.inetNtop received
  else readDomainCopies received

/-- A domain that is still incomplete, or that leaves room for its length byte and has no
zero byte before its last. -/
def DomainFits : List Byte → Prop
  | [] => True
  | first :: rest => rest.length < first.toNat + portLen ∨
      first.toNat < maxDomainLen ∧ 0 ∉ rest.take (first.toNat - 1)

instance : (received : List Byte) → Decidable (DomainFits received)
  | [] => .isTrue trivial
  | _ :: _ => inferInstanceAs (Decidable (_ ∨ _ ∧ _))

variable {platform : Platform} {header received name tail : List Byte} {high low : Byte}

open Region

theorem readIpCopies_complete {ipLen : Nat} (print : List Byte → Option CString) {address : List Byte}
    (fits : ipLen ≤ maxDomainLen) (width : address.length = ipLen) :
    readIpCopies ipLen print (address ++ high :: low :: tail) = .ok ((print address).map fun host =>
      ⟨full address ++ uninit (maxDomainLen - ipLen), full [high, low], host⟩) := by
  have long : ¬(address ++ high :: low :: tail).length < ipLen + portLen := by
    rw [List.length_append, width]
    exact Nat.not_lt.mpr (Nat.add_le_add_left (Nat.le_add_left ..) _)
  have ip : (address ++ high :: low :: tail).take ipLen = address := by rw [← width, List.take_left]
  have port : ((address ++ high :: low :: tail).drop ipLen).take portLen = [high, low] := by
    rw [← width, List.drop_left]
    rfl
  have loaded : load (full address) 0 ipLen = .ok address := by
    rw [load_take (Nat.le_of_eq width.symm), ← width, List.take_length]
  have portLoaded : load (full [high, low]) 0 portLen = .ok [high, low] := load_take (Nat.le_refl _)
  have portStored : store (uninit portLen) 0 [high, low] = .ok (full [high, low]) := store_whole rfl
  have stored : store (uninit maxDomainLen) 0 address =
      .ok (full address ++ uninit (maxDomainLen - ipLen)) := by
    rw [← width] at fits ⊢
    exact store_uninit fits
  simp only [readIpCopies, if_neg long, ip, port, store_whole width, copy, bind, Except.bind, loaded,
    portStored, portLoaded, stored]
  cases print address <;> rfl

/-- `req_address` must hold the bytes behind their length, and the string must have that many. -/
theorem copyDomain_ok_iff (host : CString) (domainLen : Nat) (port : Region Byte) :
    (∃ copies, copyDomain host domainLen port = .ok copies) ↔
      1 + domainLen ≤ maxDomainLen ∧ domainLen ≤ host.strlen + 1 := by
  have one : [UInt8.ofNat domainLen].length ≤ maxDomainLen := Nat.succ_le_succ (Nat.zero_le _)
  have room : (full [UInt8.ofNat domainLen] ++ uninit (maxDomainLen - 1) : Region Byte).length =
      maxDomainLen := by
    rw [List.length_append, length_full, length_uninit]
    rfl
  have block : (host.bytes ++ [0]).length = host.strlen + 1 := List.length_append
  simp only [copyDomain, store_uninit one, copy, bind, Except.bind, stringBlock]
  obtain short | long := Nat.lt_or_ge (host.strlen + 1) domainLen
  · rw [load_short 0 (by rw [block]; omega) (Nat.zero_le _)]
    simp only [reduceCtorEq, exists_false, false_iff]
    omega
  · have width : ((host.bytes ++ [0]).take domainLen).length = domainLen := by
      rw [List.length_take, block]
      exact Nat.min_eq_left long
    rw [load_take (by rw [block]; exact long)]
    generalize (host.bytes ++ [0]).take domainLen = bytes at width
    subst width
    obtain beyond | fits := Nat.lt_or_ge maxDomainLen (1 + bytes.length)
    · have overrun : store (full [UInt8.ofNat bytes.length] ++ uninit (maxDomainLen - 1)) 1 bytes =
          .error .store := store_overruns (by rw [room]; exact beyond)
      simp only [List.length_singleton, overrun, reduceCtorEq, exists_false, false_iff]
      omega
    · have stored : store (full [UInt8.ofNat bytes.length] ++ uninit (maxDomainLen - 1)) 1 bytes = .ok _ :=
        store_fits (by rw [room]; exact fits)
      simp only [List.length_singleton, stored, pure, Except.pure, Except.ok.injEq, exists_eq', true_iff]
      exact ⟨fits, long⟩

/-- The string and the port of a complete domain, as they are copied out of `buffer`. -/
theorem readDomainCopies_complete (nonempty : 1 ≤ name.length) (short : name.length ≤ maxDomainLen) :
    readDomainCopies (UInt8.ofNat name.length :: (name ++ high :: low :: tail)) =
      copyDomain (CString.ofBytes name) name.length (full [high, low]) := by
  have domainLen : (UInt8.ofNat name.length).toNat = name.length := by
    simp only [UInt8.toNat_ofNat', maxDomainLen] at short ⊢
    omega
  have bounded : ¬(name.length = 0 ∨ maxDomainLen < name.length) := by omega
  have complete : ¬(UInt8.ofNat name.length :: (name ++ high :: low :: tail)).length <
      1 + name.length + portLen := by
    simp only [List.length_cons, List.length_append, portLen]
    omega
  have filled : (UInt8.ofNat name.length :: (name ++ high :: low ::
      tail.take (maxDomainLen * 2 + 1 - name.length))).length ≤ maxDomainLen * 2 + 4 := by
    rw [← take_domain short]
    exact List.length_take_le ..
  have nameLoaded (more : List Byte) (rest : Region Byte) :
      loadUntil (· = 0) (full (UInt8.ofNat name.length :: (name ++ high :: low :: more)) ++ rest) 1
        name.length = .ok (name.takeWhile (· ≠ 0)) := by
    have loaded := loadUntil_full (· = 0) [UInt8.ofNat name.length] name (full (high :: low :: more) ++ rest)
    simpa [full] using loaded
  have portLoaded (more : List Byte) (rest : Region Byte) :
      load (full (UInt8.ofNat name.length :: (name ++ high :: low :: more)) ++ rest) (1 + name.length)
        portLen = .ok [high, low] := by
    have loaded := load_full (UInt8.ofNat name.length :: name) [high, low] (full more ++ rest)
    simpa [full, portLen, Nat.add_comm] using loaded
  have portStored : store (uninit portLen) 0 [high, low] = .ok (full [high, low]) := store_whole rfl
  simp only [readDomainCopies, take_domain short, store_uninit filled, domainLen, if_neg bounded,
    if_neg complete, bind, Except.bind, nameLoaded, copy, portLoaded, portStored]
  rw [← CString.ofBytes_bytes (CString.ofBytes name)]
  rfl

/-- An address with the port behind it, and what follows. -/
theorem address_split {bytes : List Byte} {len : Nat} (complete : len + portLen ≤ bytes.length) :
    ∃ address high low tail, address.length = len ∧ bytes = address ++ high :: low :: tail := by
  simp only [portLen] at complete
  have width : (bytes.take len).length = len := by
    rw [List.length_take]
    omega
  have two : 2 ≤ (bytes.drop len).length := by
    rw [List.length_drop]
    omega
  cases behind : bytes.drop len with
  | nil =>
    rw [behind] at two
    exact absurd two (Nat.not_lt_zero 1)
  | cons high rest =>
    cases rest with
    | nil =>
      rw [behind] at two
      exact absurd two (Nat.lt_irrefl 1)
    | cons low tail =>
      exact ⟨bytes.take len, high, low, tail, width, by rw [← behind, List.take_append_drop]⟩

/-- A complete domain behind its length. -/
theorem domain_split {first : Byte} {rest : List Byte} (nonzero : first.toNat ≠ 0)
    (complete : first.toNat + portLen ≤ rest.length) : ∃ name high low tail,
      1 ≤ name.length ∧ name.length ≤ maxDomainLen ∧ name.length = first.toNat ∧
        UInt8.ofNat name.length = first ∧ rest = name ++ high :: low :: tail := by
  obtain ⟨name, high, low, tail, width, split⟩ := address_split complete
  have bound := first.toNat_lt
  refine ⟨name, high, low, tail, ?_, ?_, width, ?_, split⟩
  · omega
  · simp only [maxDomainLen]
    omega
  · rw [width, UInt8.ofNat_toNat]

/-- Nothing is copied while the domain is incomplete, or when it is empty. -/
theorem readDomainCopies_returns {first : Byte} {rest : List Byte}
    (incomplete : first.toNat = 0 ∨ rest.length < first.toNat + portLen) :
    readDomainCopies (first :: rest) = .ok none := by
  have filled : (first :: rest.take (maxDomainLen * 2 + 3)).length ≤ maxDomainLen * 2 + 4 :=
    Nat.succ_le_succ (List.length_take_le ..)
  simp only [readDomainCopies, List.take_succ_cons, store_uninit filled, bind, Except.bind]
  by_cases zero : first.toNat = 0
  · rw [if_pos (.inl zero)]
    rfl
  · have short := incomplete.resolve_left zero
    have bounded : ¬(first.toNat = 0 ∨ maxDomainLen < first.toNat) := by
      have bound := first.toNat_lt
      simp only [maxDomainLen]
      omega
    rw [if_neg bounded, if_pos (by simp only [List.length_cons]; omega)]
    rfl

theorem readDomainCopies_ok_iff (received : List Byte) :
    (∃ copies, readDomainCopies received = .ok copies) ↔ DomainFits received := by
  cases received with
  | nil => exact iff_of_true ⟨none, rfl⟩ trivial
  | cons first rest =>
    by_cases incomplete : first.toNat = 0 ∨ rest.length < first.toNat + portLen
    · refine iff_of_true ⟨none, readDomainCopies_returns incomplete⟩ ?_
      obtain zero | short := incomplete
      · right
        rw [zero]
        exact ⟨by decide, List.not_mem_nil⟩
      · exact .inl short
    · obtain ⟨nonzero, complete⟩ := not_or.mp incomplete
      obtain ⟨name, high, low, tail, nonempty, short, width, rfl, rfl⟩ :=
        domain_split nonzero (Nat.le_of_not_lt complete)
      have front : 1 + name.length ≤ maxDomainLen ↔ name.length < maxDomainLen := by omega
      have reaches : name.length ≤ (CString.ofBytes name).strlen + 1 ↔ 0 ∉ name.take (name.length - 1) := by
        rw [← CString.le_strlen_ofBytes_iff (Nat.sub_le ..)]
        omega
      rw [← width] at complete
      rw [readDomainCopies_complete nonempty short, copyDomain_ok_iff, front, reaches, DomainFits,
        ← width, List.take_append_of_le_length (Nat.sub_le ..)]
      simp only [complete, false_or]

theorem readIpCopies_ok {ipLen : Nat} (print : List Byte → Option CString) (fits : ipLen ≤ maxDomainLen)
    (received : List Byte) : ∃ copies, readIpCopies ipLen print received = .ok copies := by
  obtain short | long := Nat.lt_or_ge received.length (ipLen + portLen)
  · exact ⟨none, if_pos short⟩
  · obtain ⟨address, high, low, tail, width, rfl⟩ := address_split long
    exact ⟨_, readIpCopies_complete print fits width⟩

/-- Every copy of `read_address` stays inside its arrays exactly for the IP types and for
domains that fit. -/
theorem read_address_copies_inside_iff (platform : Platform) (header received : List Byte) :
    (∃ copies, readAddressCopies platform header received = .ok copies) ↔
      IsIp header ∨ DomainFits received := by
  simp only [readAddressCopies, IsIp]
  split
  · rename_i ipv4
    exact iff_of_true (readIpCopies_ok _ (by decide) received) (.inl (.inl ipv4))
  · split
    · rename_i ipv6
      exact iff_of_true (readIpCopies_ok _ (by decide) received) (.inl (.inr ipv6))
    · rename_i ipv4 ipv6
      rw [readDomainCopies_ok_iff]
      simp only [ipv4, ipv6, false_or]

/-- The longest domain is stored past `req_address`; behind a zero byte, a domain is
copied from past the end of its string. -/
theorem domains_overrun :
    (¬∃ copies, readAddressCopies resolving [5, 1, 0, 3]
      (255 :: (List.replicate 255 97 ++ [0, 80])) = .ok copies) ∧
    ¬∃ copies, readAddressCopies resolving [5, 1, 0, 3] [3, 97, 0, 98, 0, 80] = .ok copies := by
  have domain (received : List Byte) :
      readAddressCopies resolving [5, 1, 0, 3] received = readDomainCopies received := rfl
  rw [domain, domain, readDomainCopies_ok_iff, readDomainCopies_ok_iff]
  constructor
  · rintro (short | ⟨shorter, -⟩)
    · rw [List.length_append, List.length_replicate] at short
      exact absurd short (by decide)
    · exact absurd shorter (by decide)
  · decide

/-- The server model reports the copy into `req_address` exactly when it leaves its arrays. -/
theorem copyReqAddress_keeps_iff (host : CString) (domainLen : Nat) (port : Region Byte) (server : Server) :
    copyReqAddress host domainLen server = server ↔ ∃ copies, copyDomain host domainLen port = .ok copies := by
  have grown : server.emit (.invalid .reqAddress) ≠ server := by
    intro same
    have lengths := congrArg (fun s : Server => s.log.length) same
    simp only [Server.emit, List.length_append, List.length_singleton] at lengths
    omega
  rw [copyDomain_ok_iff]
  simp only [copyReqAddress]
  split
  · rename_i beyond
    refine iff_of_false grown ?_
    omega
  · rename_i fits
    refine iff_of_true rfl ?_
    omega

theorem copyDomain_copies {host : CString} {domainLen : Nat} {port : Region Byte} {copies : RequestCopies}
    (done : copyDomain host domainLen port = .ok (some copies)) :
    copies.host = host ∧ copies.port = port := by
  simp only [copyDomain, bind, Except.bind] at done
  split at done
  · cases done
  · split at done
    · cases done
    · cases done
      exact ⟨rfl, rfl⟩

theorem readIp_of_copies {ipLen : Nat} {print : List Byte → Option CString} {server : Server}
    {copies : RequestCopies} (fits : ipLen ≤ maxDomainLen)
    (done : readIpCopies ipLen print server.inBuffer = .ok (some copies)) :
    ∃ len high low, copies.port = full [high, low] ∧ readIp platform ipLen print server =
      startConnect platform copies.host (portToUint16 high low) (server.consume len) := by
  obtain short | long := Nat.lt_or_ge server.inBuffer.length (ipLen + portLen)
  · rw [readIpCopies, if_pos short] at done
    cases done
  · obtain ⟨address, high, low, tail, width, arrived⟩ := address_split long
    rw [arrived, readIpCopies_complete print fits width, Except.ok.injEq, Option.map_eq_some_iff] at done
    obtain ⟨host, printed, rfl⟩ := done
    refine ⟨ipLen + portLen, high, low, rfl, ?_⟩
    rw [readIp_complete print width printed arrived]
    simp only [Server.consume, List.drop_drop]

theorem readDomain_of_copies {server : Server} {copies : RequestCopies}
    (done : readDomainCopies server.inBuffer = .ok (some copies)) :
    ∃ len high low, copies.port = full [high, low] ∧ readDomain platform server =
      startConnect platform copies.host (portToUint16 high low) (server.consume len) := by
  cases arrived : server.inBuffer with
  | nil =>
    rw [arrived] at done
    cases done
  | cons first rest =>
    rw [arrived] at done
    by_cases incomplete : first.toNat = 0 ∨ rest.length < first.toNat + portLen
    · rw [readDomainCopies_returns incomplete] at done
      cases done
    · obtain ⟨nonzero, complete⟩ := not_or.mp incomplete
      obtain ⟨name, high, low, tail, nonempty, short, -, rfl, rfl⟩ :=
        domain_split nonzero (Nat.le_of_not_lt complete)
      rw [readDomainCopies_complete nonempty short] at done
      obtain ⟨host, port⟩ := copyDomain_copies done
      have kept := (copyReqAddress_keeps_iff (CString.ofBytes name) name.length (full [high, low])
        (server.consume (maxDomainLen * 2 + 4))).mpr ⟨_, done⟩
      refine ⟨maxDomainLen * 2 + 4, high, low, port, ?_⟩
      rw [readDomain_complete nonempty short arrived, kept, host]

/-- What the copies leave is what the server connects to. -/
theorem readAddress_of_copies {server : Server} {copies : RequestCopies}
    (done : readAddressCopies platform server.context.connectHeader server.inBuffer = .ok (some copies)) :
    ∃ len high low, copies.port = full [high, low] ∧ readAddress platform server =
      startConnect platform copies.host (portToUint16 high low) (server.consume len) := by
  simp only [readAddressCopies] at done
  simp only [readAddress]
  split at done
  · rename_i ipv4
    rw [if_pos ipv4]
    exact readIp_of_copies (by decide) done
  · rename_i other
    rw [if_neg other]
    split at done
    · rename_i ipv6
      rw [if_pos ipv6]
      exact readIp_of_copies (by decide) done
    · rename_i domain
      rw [if_neg domain]
      exact readDomain_of_copies done

end Devent.Docks
