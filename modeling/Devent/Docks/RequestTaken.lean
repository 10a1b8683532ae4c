import Devent.Docks.Segmentation
import Devent.Docks.Authentication

/-! What of the buffer a callback takes for a request. `read_address` stays installed until the reply
has been written, with the header of the request still in the context. -/
namespace Devent.Docks

variable {server next : Server} {platform : Platform} {config : ServerConfig} {header buffer : List Byte}

/-- The header announces an address of a fixed width. -/
def IsIp (header : List Byte) : Prop := header[3]?.getD 0 = atypeIpv4 ∨ header[3]?.getD 0 = atypeIpv6

instance (header : List Byte) : Decidable (IsIp header) := inferInstanceAs (Decidable (_ ∨ _))

/-- The bytes of the address and port at the front of the buffer. -/
def addressLen (header buffer : List Byte) : Nat :=
  if header[3]?.getD 0 = atypeIpv4 then ipv4Len + portLen
  else if header[3]?.getD 0 = atypeIpv6 then ipv6Len + portLen
  else 1 + (buffer[0]?.getD 0).toNat + portLen

/-- A header that `docks_connect_read` accepts. -/
structure ValidHeader (header : List Byte) : Prop where
  version : header[0]? = some socks5Version
  reserved : header[2]? = some 0
  atype : IsIp header ∨ header[3]?.getD 0 = atypeDomainname

instance (header : List Byte) : Decidable (ValidHeader header) :=
  decidable_of_iff (header[0]? = some socks5Version ∧ header[2]? = some 0 ∧
      (IsIp header ∨ header[3]?.getD 0 = atypeDomainname))
    ⟨fun ⟨version, reserved, atype⟩ => ⟨version, reserved, atype⟩,
      fun valid => ⟨valid.version, valid.reserved, valid.atype⟩⟩

/-- Nothing follows a CONNECT request for a domain. -/
def DomainAlone (header buffer : List Byte) : Prop :=
  header[1]?.getD 0 = cmdConnect → ¬IsIp header → buffer[0]?.getD 0 ≠ 0 →
    buffer.length ≤ addressLen header buffer

instance (header buffer : List Byte) : Decidable (DomainAlone header buffer) :=
  inferInstanceAs (Decidable (_ → _ → _ → _ ≤ _))

/-- What `read_address` takes nothing from. -/
def Waits (header buffer : List Byte) : Prop :=
  (IsIp header → buffer.length < addressLen header buffer) ∧ (¬IsIp header → buffer = [])

instance (header buffer : List Byte) : Decidable (Waits header buffer) := inferInstanceAs (Decidable (_ ∧ _))

/-- The domain request that the buffer completes, if it does, ends with it. -/
def ReadCallback.RequestAlone (header buffer : List Byte) : ReadCallback → Prop
  | .connectRead => ValidHeader (buffer.take connHeaderLen) →
      DomainAlone (buffer.take connHeaderLen) (buffer.drop connHeaderLen)
  | .readAddress => DomainAlone header buffer
  | .onReadMethods | .onReadMethodsInner | .onAuthRead | .serverRead => True

instance (header buffer : List Byte) : (cb : ReadCallback) → Decidable (cb.RequestAlone header buffer)
  | .connectRead => inferInstanceAs (Decidable (_ → DomainAlone _ _))
  | .readAddress => inferInstanceAs (Decidable (DomainAlone _ _))
  | .onReadMethods | .onReadMethodsInner | .onAuthRead | .serverRead => inferInstanceAs (Decidable True)

def RequestAlone (server : Server) : Prop :=
  server.readCb.RequestAlone server.context.connectHeader server.inBuffer

/-- What is left of the buffer behind the request that it completes. -/
def behindRequest (server : Server) : List Byte :=
  match server.readCb with
  | .connectRead => (server.inBuffer.drop connHeaderLen).drop
      (addressLen (server.inBuffer.take connHeaderLen) (server.inBuffer.drop connHeaderLen))
  | .readAddress | .onReadMethods | .onReadMethodsInner | .onAuthRead | .serverRead =>
    server.inBuffer.drop (addressLen server.context.connectHeader server.inBuffer)

/-- Data sent before the reply is no second address. -/
def EarlyDataWaits (server : Server) : Prop :=
  server.connects ≠ [] → server.readCb = .readAddress → Waits server.context.connectHeader server.inBuffer

def Server.arrive (server : Server) (bytes : List Byte) : Server :=
  { server with inBuffer := server.inBuffer ++ bytes }

/-- The client sends nothing along with or behind a domain request before the reply, and less
than an address behind another one. -/
def NoEarlyData (server : Server) : Input → Prop
  | .segment bytes _ => (server.connects = [] → RequestAlone (server.arrive bytes)) ∧
      EarlyDataWaits (server.arrive bytes)
  | .finish _ => EarlyDataWaits server
  | .connected => True

instance (server : Server) : Decidable (RequestAlone server) :=
  inferInstanceAs (Decidable (ReadCallback.RequestAlone _ _ _))

instance (server : Server) : Decidable (EarlyDataWaits server) := inferInstanceAs (Decidable (_ → _ → _))

instance (server : Server) : (input : Input) → Decidable (NoEarlyData server input)
  | .segment _ _ => inferInstanceAs (Decidable (_ ∧ _))
  | .finish _ => inferInstanceAs (Decidable (EarlyDataWaits server))
  | .connected => inferInstanceAs (Decidable True)

theorem Acts.connects_eq {q : ReadCallback → Prop} (acts : Acts Effect.IsNeutral q server next) :
    next.connects = server.connects := by
  obtain ⟨effects, grown, neutral⟩ := acts.logs
  rw [Server.connects, grown, List.filterMap_append]
  refine List.append_right_eq_self.mpr (List.filterMap_eq_nil_iff.mpr ?_)
  intro e member
  have quiet := neutral e member
  cases e with
  | connect host port => exact quiet.elim
  | _ => rfl

theorem onAuthRead_connects (config : ServerConfig) (stack : Nat → Byte) (server : Server) :
    (onAuthRead config stack server).connects = server.connects := by
  obtain acts | ⟨username, password, success, before, -, -, -, -, acts, result⟩ :=
    onAuthRead_cases config stack server
  · exact acts.connects_eq
  · rw [result, connects_setReadCb, Server.write, connects_emit, connects_emit, acts.connects_eq]
    exact (List.append_nil _).trans (List.append_nil _)

/-- A request is taken from the buffer: one more connect, and what is behind it stays. -/
structure Takes (header buffer : List Byte) (server next : Server) : Prop where
  started : ∃ host port, Started server.connects host port next
  rest : next.live = true → DomainAlone header buffer → next.inBuffer = buffer.drop (addressLen header buffer)

theorem getResp_succeeded_iff {command : Byte} : getResp command = replySucceeded ↔ command = cmdConnect := by
  simp only [getResp]
  split
  · rename_i other
    exact iff_of_false (by decide) other
  · rename_i same
    exact iff_of_true rfl (Decidable.not_not.mp same)

theorem startConnect_connects (platform : Platform) (host : CString) (port : Nat) (server : Server) :
    (startConnect platform host port server).connects = server.connects ∨
      server.context.connectHeader[1]?.getD 0 = cmdConnect ∧
        Started server.connects host port (startConnect platform host port server) := by
  by_cases command : server.context.connectHeader[1]?.getD 0 = cmdConnect
  · have connect : server.context.connectHeader[1]? = some cmdConnect := by
      cases stored : server.context.connectHeader[1]? with
      | none =>
        rw [stored] at command
        cases command
      | some b =>
        rw [stored] at command
        exact congrArg some command
    exact .inr ⟨command, startConnect_started platform host port server connect⟩
  · left
    simp only [startConnect, if_neg (getResp_succeeded_iff.not.mpr command), connects_emit, List.filterMap_cons,
      List.filterMap_nil, List.append_nil]
    rfl

theorem startConnect_inBuffer {host : CString} {port : Nat}
    (live : (startConnect platform host port server).live = true) :
    (startConnect platform host port server).inBuffer = server.inBuffer := by
  simp only [startConnect] at live ⊢
  split at live
  · rename_i succeeds
    rw [if_pos succeeds]
    split at live
    · split at live
      · rename_i connects
        simp only [connects, if_true]
        rfl
      · cases live
    · split at live
      · rename_i connects
        simp only [connects, if_true]
        rfl
      · cases live
  · rename_i fails
    rw [if_neg fails]
    rfl

/-- An address that is there is taken, with its port. -/
theorem readIp_takes {ipLen : Nat} {print : List Byte → Option CString}
    (width : addressLen server.context.connectHeader server.inBuffer = ipLen + portLen) :
    (readIp platform ipLen print server).connects = server.connects ∨
      Takes server.context.connectHeader server.inBuffer server (readIp platform ipLen print server) := by
  simp only [readIp, Server.read]
  split
  · exact .inl rfl
  · split
    · refine .inl ?_
      rw [Server.free, connects_emit]
      exact List.append_nil _
    · rename_i host printed
      obtain same | ⟨-, started⟩ :=
        startConnect_connects platform host _ ((server.consume ipLen).consume portLen)
      · exact .inl same
      · refine .inr ⟨⟨host, _, started⟩, fun live _ => ?_⟩
        rw [startConnect_inBuffer live, width]
        exact List.drop_drop

/-- A domain that is there is taken with all that is behind it, so nothing may be. -/
theorem readDomain_takes (domain : ¬IsIp server.context.connectHeader) :
    (readDomain platform server).connects = server.connects ∨
      Takes server.context.connectHeader server.inBuffer server (readDomain platform server) := by
  have width : addressLen server.context.connectHeader server.inBuffer =
      1 + (server.inBuffer[0]?.getD 0).toNat + portLen := by
    rw [addressLen, if_neg fun ipv4 => domain (.inl ipv4), if_neg fun ipv6 => domain (.inr ipv6)]
  simp only [readDomain, Server.read]
  cases buffer : server.inBuffer with
  | nil => exact .inl rfl
  | cons first rest =>
    have front : (first :: rest).take (maxDomainLen * 2 + 4) = first :: rest.take (maxDomainLen * 2 + 3) := rfl
    rw [front]
    simp only
    split
    · refine .inl ?_
      rw [Server.free, connects_emit]
      exact List.append_nil _
    · rename_i bounded
      split
      · exact .inl rfl
      · generalize CString.strndup (rest.take (maxDomainLen * 2 + 3)) first.toNat = host
        obtain ⟨context, connects⟩ :=
          copyReqAddress_frame host first.toNat (server.consume (maxDomainLen * 2 + 4))
        obtain same | ⟨command, started⟩ := startConnect_connects platform host _
          (copyReqAddress host first.toNat (server.consume (maxDomainLen * 2 + 4)))
        · exact .inl (same.trans connects)
        · rw [connects] at started
          rw [context] at command
          refine .inr ⟨⟨host, _, started⟩, fun live alone => ?_⟩
          have nonzero : (first :: rest)[0]?.getD 0 ≠ 0 := by
            intro zero
            have equal : first = 0 := zero
            exact bounded (.inl (congrArg UInt8.toNat equal))
          have short := alone command domain nonzero
          have all : (first :: rest).length ≤ maxDomainLen * 2 + 4 := by
            have byte := UInt8.toNat_lt first
            rw [buffer] at width
            have len : addressLen _ (first :: rest) = 1 + first.toNat + portLen := width
            rw [len] at short
            simp only [maxDomainLen, portLen] at short ⊢
            omega
          have kept : (copyReqAddress host first.toNat (server.consume (maxDomainLen * 2 + 4))).inBuffer =
              server.inBuffer.drop (maxDomainLen * 2 + 4) := by
            rw [copyReqAddress]
            split <;> rfl
          rw [startConnect_inBuffer live, kept, buffer, List.drop_eq_nil_of_le all,
            List.drop_eq_nil_of_le short]

/-- `read_address` takes at most one request. -/
theorem readAddress_takes (platform : Platform) (server : Server) :
    (readAddress platform server).connects = server.connects ∨
      Takes server.context.connectHeader server.inBuffer server (readAddress platform server) := by
  simp only [readAddress]
  split
  · rename_i ipv4
    apply readIp_takes
    rw [addressLen, if_pos ipv4]
  · rename_i other
    split
    · rename_i ipv6
      apply readIp_takes
      rw [addressLen, if_neg other, if_pos ipv6]
    · rename_i neither
      exact readDomain_takes fun ip => ip.elim other neither

theorem readAddress_readCb (platform : Platform) (server : Server) :
    (readAddress platform server).readCb = server.readCb := by
  have acts : Acts Effect.IsUnjudged (fun _ => False) server (readAddress platform server) :=
    readAddress_acts platform server
  obtain kept | replaced := acts.installs
  · exact kept
  · exact replaced.elim

/-- While it waits it does nothing. -/
theorem readAddress_of_waits (waits : Waits server.context.connectHeader server.inBuffer) :
    readAddress platform server = server := by
  obtain ⟨short, drained⟩ := waits
  simp only [readAddress]
  split
  · rename_i ipv4
    have missing := short (.inl ipv4)
    rw [addressLen, if_pos ipv4] at missing
    rw [readIp, if_pos missing]
  · rename_i other
    split
    · rename_i ipv6
      have missing := short (.inr ipv6)
      rw [addressLen, if_neg other, if_pos ipv6] at missing
      rw [readIp, if_pos missing]
    · rename_i neither
      have empty := drained fun ip => ip.elim other neither
      simp only [readDomain, Server.read, empty, List.take_nil]
      exact consume_empty empty _

theorem live_setReadCb (server : Server) (cb : ReadCallback) : (server.setReadCb cb).live = server.live := by
  simp only [Server.setReadCb]
  split <;> rfl

theorem readCb_setReadCb {cb : ReadCallback} (live : (server.setReadCb cb).live = true) :
    (server.setReadCb cb).readCb = cb := by
  rw [live_setReadCb] at live
  rw [Server.setReadCb, if_pos live]

/-- `docks_connect_read` takes at most one request, under the header it has read. -/
theorem connectRead_takes (platform : Platform) (server : Server) :
    (connectRead platform server).connects = server.connects ∨
      ValidHeader (server.inBuffer.take connHeaderLen) ∧
        Takes (server.inBuffer.take connHeaderLen) (server.inBuffer.drop connHeaderLen) server
          (connectRead platform server) ∧
        ((connectRead platform server).live = true → (connectRead platform server).readCb = .readAddress) := by
  simp only [connectRead]
  split
  · exact .inl rfl
  · rename_i header next read
    obtain ⟨-, rfl, rfl⟩ := Server.readFull_eq_some_iff.mp read
    have freed : ∀ context, (((server.consume connHeaderLen).setContext context).free).connects =
        server.connects := by
      intro context
      rw [Server.free, connects_emit]
      exact List.append_nil _
    split
    · exact .inl (freed _)
    · rename_i version
      split
      · exact .inl (freed _)
      · rename_i reserved
        split
        · exact .inl (freed _)
        · rename_i atype
          rw [connects_setReadCb]
          obtain same | ⟨started, rest⟩ := readAddress_takes platform
            ((server.consume connHeaderLen).setContext
              { server.context with connectHeader := server.inBuffer.take connHeaderLen })
          · exact .inl same
          · refine .inr ⟨⟨Decidable.not_not.mp version, Decidable.not_not.mp reserved, ?_⟩, ⟨?_, ?_⟩,
              readCb_setReadCb⟩
            · by_contra none
              exact atype ⟨fun ipv4 => none (.inl (.inl ipv4)), fun domain => none (.inr domain),
                fun ipv6 => none (.inl (.inr ipv6))⟩
            · obtain ⟨host, port, started⟩ := started
              exact ⟨host, port, started.setReadCb _⟩
            · intro live alone
              rw [live_setReadCb] at live
              rw [inBuffer_setReadCb]
              exact rest live alone

end Devent.Docks
