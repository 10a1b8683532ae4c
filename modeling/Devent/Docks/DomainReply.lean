import Devent.Docks.Reply

/-! A reply whose bound address is a domain. Its length sizes an array through a plain `char`,
and the host is kept as a string. -/
namespace Devent.Docks

/-- The address field: type, length and name. -/
def domainField (domain : List Byte) : List Byte := atypeDomainname :: UInt8.ofNat domain.length :: domain

/-- A success reply, bound to a domain. -/
def domainReply (domain : List Byte) (port : UInt16) : List Byte :=
  ReplyReader.replyHeader ++ (domainField domain ++ uShortToData port.toNat)

namespace ReplyReader

/-- Where the address field begins, the port, and what is behind the reply. -/
def fieldStart : Nat := replyHeader.length

def portStart (domain : List Byte) : Nat := fieldStart + (2 + domain.length)

def replyEnd (domain : List Byte) : Nat := portStart domain + portLen

/-- The client once part of the stream has arrived: an incomplete field is left in the
in-buffer, a complete one is taken off it as a whole and its name is the host. -/
structure DomainFramed (domain : List Byte) (port : UInt16) (arrived : List Byte) (reader : ReplyReader) :
    Prop where
  header : arrived.length < fieldStart → reader.inBuffer = arrived ∧ reader.connected = []
  waits : fieldStart ≤ arrived.length → arrived.length < portStart domain →
    reader.inBuffer = arrived.drop fieldStart ∧ reader.connected = []
  named : portStart domain ≤ arrived.length → arrived.length < replyEnd domain →
    reader.inBuffer = arrived.drop (portStart domain) ∧ reader.connected = [] ∧
      ∃ host, reader.bindHost = some host ∧ host.bytes = domain
  connects : replyEnd domain ≤ arrived.length →
    reader.inBuffer ++ reader.unread = arrived.drop (replyEnd domain) ∧
      ∃ host, reader.connected = [(some host, port.toNat)] ∧ host.bytes = domain

variable {platform : Platform} {domain payload arrived rest : List Byte} {port : UInt16}
  {reader : ReplyReader} {host : CString}

theorem length_domainField (domain : List Byte) : (domainField domain).length = 2 + domain.length := by
  simp only [domainField, List.length_cons]
  omega

theorem Framing.domainFramed (named : host.bytes = domain)
    (framing : Framing (domainField domain) host port.toNat arrived reader) :
    DomainFramed domain port arrived reader := by
  have width := length_domainField domain
  have front : replyHeader.length = fieldStart := rfl
  have two : (uShortToData port.toNat).length = portLen := rfl
  have portAt : (replyHeader ++ domainField domain).length = portStart domain := by
    rw [List.length_append, width, front, portStart]
  have endAt : (replyHeader ++ domainField domain ++ uShortToData port.toNat).length = replyEnd domain := by
    rw [List.length_append, portAt, two, replyEnd]
  cases framing with
  | header short waiting =>
    have short' : arrived.length < fieldStart := short
    refine ⟨fun _ => ⟨waiting.inBuffer, waiting.connected⟩, ?_, ?_, ?_⟩
    · omega
    · simp only [portStart]
      omega
    · simp only [replyEnd, portStart]
      omega
  | bindHost short waiting =>
    rename_i rest
    rw [width] at short
    have size : (replyHeader ++ rest).length = fieldStart + rest.length := by rw [List.length_append, front]
    refine ⟨?_, fun _ _ => ⟨?_, waiting.connected⟩, ?_, ?_⟩
    · omega
    · rw [waiting.inBuffer, ← front, List.drop_left]
    · simp only [portStart]
      omega
    · simp only [replyEnd, portStart]
      omega
  | bindPort short waiting kept =>
    rename_i rest
    rw [← List.append_assoc]
    have size : (replyHeader ++ domainField domain ++ rest).length = portStart domain + rest.length := by
      rw [List.length_append, portAt]
    refine ⟨?_, ?_, fun _ _ => ⟨?_, waiting.connected, host, kept, named⟩, ?_⟩
    · simp only [portStart] at size
      omega
    · omega
    · rw [waiting.inBuffer, ← portAt, List.drop_left]
    · simp only [replyEnd]
      omega
  | connected done =>
    rename_i rest
    rw [← List.append_assoc, ← List.append_assoc]
    have size : (replyHeader ++ domainField domain ++ uShortToData port.toNat ++ rest).length =
        replyEnd domain + rest.length := by
      rw [List.length_append, endAt]
    refine ⟨?_, ?_, ?_, fun _ => ⟨?_, host, done.connected, named⟩⟩
    · simp only [replyEnd, portStart] at size
      omega
    · simp only [replyEnd] at size
      omega
    · omega
    · rw [done.kept, ← endAt, List.drop_left]

/-- What the host callback does once the length has arrived. -/
theorem onReadServerBindHost_domain (waiting : Waiting .onReadServerBindHost rest reader)
    (inside : rest <+: domainField domain ++ payload) (two : 2 ≤ rest.length) :
    reader.onReadServerBindHost platform =
      if 0 ≤ signedChar (UInt8.ofNat domain.length) then
        some (reader.readBindHost 2 (2 + (UInt8.ofNat domain.length).toNat) fun domain =>
          some (CString.ofBytes domain))
      else none := by
  obtain ⟨atype, len, tail, rfl⟩ : ∃ atype len tail, rest = atype :: len :: tail := by
    match rest, two with
    | atype :: len :: tail, _ => exact ⟨atype, len, tail, rfl⟩
  obtain ⟨rfl, behind⟩ := List.cons_prefix_cons.mp inside
  obtain ⟨rfl, -⟩ := List.cons_prefix_cons.mp behind
  rw [onReadServerBindHost, waiting.inBuffer]
  rfl

/-- Before that it waits. -/
theorem onReadServerBindHost_short (waiting : Waiting .onReadServerBindHost rest reader)
    (inside : rest <+: domainField domain ++ payload) (short : rest.length < 2) :
    reader.onReadServerBindHost platform = some reader := by
  match rest, short with
  | [], _ => rw [onReadServerBindHost, waiting.inBuffer]
  | [atype], _ =>
    obtain ⟨rfl, -⟩ := List.cons_prefix_cons.mp inside
    rw [onReadServerBindHost, waiting.inBuffer]
    rfl

/-- A length that a `char` holds is the length of the field. -/
theorem readsField_domain (low : domain.length ≤ 127) :
    ReadsField platform (domainField domain) (CString.ofBytes domain) port.toNat payload := by
  intro rest reader waiting inside
  by_cases two : 2 ≤ rest.length
  · have len : (UInt8.ofNat domain.length).toNat = domain.length := by
      rw [UInt8.toNat_ofNat']
      omega
    have positive : 0 ≤ signedChar (UInt8.ofNat domain.length) := by
      rw [signedChar_low (by omega)]
      omega
    refine ⟨_, ?_, readBindHost_frames 2 (fun domain => some (CString.ofBytes domain)) port.toNat_lt rfl waiting
      inside⟩
    rw [onReadServerBindHost_domain waiting inside two, if_pos positive, len, length_domainField]
  · refine ⟨reader, onReadServerBindHost_short waiting inside (by omega), .bindHost ?_ waiting⟩
    rw [length_domainField]
    omega

/-- A length of 128 or more gives the array no size. -/
theorem onReadServerBindHost_high (high : 128 ≤ domain.length) (byte : domain.length ≤ 255)
    (waiting : Waiting .onReadServerBindHost rest reader) (inside : rest <+: domainField domain ++ payload)
    (two : 2 ≤ rest.length) : reader.onReadServerBindHost platform = none := by
  have len : (UInt8.ofNat domain.length).toNat = domain.length := by
    rw [UInt8.toNat_ofNat']
    omega
  have negative : ¬0 ≤ signedChar (UInt8.ofNat domain.length) := by
    rw [signedChar_high (by omega)]
    omega
  rw [onReadServerBindHost_domain waiting inside two, if_neg negative]

/-- Before the length has arrived the client waits. -/
inductive Early : List Byte → ReplyReader → Prop
  | header {arrived : List Byte} {reader : ReplyReader} (short : arrived.length < replyHeader.length)
      (waiting : Waiting .onReadServerConnect arrived reader) : Early arrived reader
  | bindHost {rest : List Byte} {reader : ReplyReader} (short : rest.length < 2)
      (waiting : Waiting .onReadServerBindHost rest reader) : Early (replyHeader ++ rest) reader

theorem onReadServerBindHost_early (high : 128 ≤ domain.length) (byte : domain.length ≤ 255)
    (waiting : Waiting .onReadServerBindHost rest reader) (inside : rest <+: domainField domain ++ payload)
    {next : ReplyReader} (taken : reader.onReadServerBindHost platform = some next) :
    Early (replyHeader ++ rest) next := by
  by_cases short : rest.length < 2
  · rw [onReadServerBindHost_short waiting inside short] at taken
    cases taken
    exact .bindHost short waiting
  · rw [onReadServerBindHost_high high byte waiting inside (by omega)] at taken
    cases taken

theorem step_early {segment sofar : List Byte} {next : ReplyReader} {out : Unit} (high : 128 ≤ domain.length)
    (byte : domain.length ≤ 255) (early : Early sofar reader)
    (inside : sofar ++ segment <+: replyHeader ++ (domainField domain ++ payload))
    (taken : step platform reader segment = some (next, out)) : Early (sofar ++ segment) next := by
  cases early with
  | header short waiting =>
    have grown := waiting.arrive segment
    rw [waiting.step, callRead, grown.readCb] at taken
    obtain ⟨_, called, same⟩ := Option.map_eq_some_iff.mp taken
    cases same
    obtain few | ⟨rest, whole, onward⟩ := Run.prefix_split inside
    · have idle : (reader.arrive segment).onReadServerConnect platform = some (reader.arrive segment) := by
        rw [onReadServerConnect, grown.inBuffer]
        generalize sofar ++ segment = bytes at few
        rcases bytes with _ | ⟨first, _ | ⟨second, _ | ⟨third, rest⟩⟩⟩
        · rfl
        · rfl
        · rfl
        · have three : replyHeader.length = 3 := rfl
          simp only [List.length_cons] at few
          omega
      cases idle.symm.trans called
      exact .header few grown
    · have bound : Waiting .onReadServerBindHost rest { reader.arrive segment with
          inBuffer := rest, readCb := .onReadServerBindHost } :=
        ⟨waiting.live, waiting.reading, rfl, rfl, waiting.unread, waiting.connected⟩
      have onwards : onReadServerConnect platform (reader.arrive segment) =
          onReadServerBindHost platform { reader.arrive segment with
            inBuffer := rest, readCb := .onReadServerBindHost } := by
        rw [onReadServerConnect, grown.inBuffer, whole]
        rfl
      rw [onwards] at called
      rw [whole]
      exact onReadServerBindHost_early high byte bound onward called
  | bindHost short waiting =>
    rw [List.append_assoc] at inside ⊢
    have grown := waiting.arrive segment
    rw [waiting.step, callRead, grown.readCb] at taken
    obtain ⟨_, called, same⟩ := Option.map_eq_some_iff.mp taken
    cases same
    exact onReadServerBindHost_early high byte grown ((List.prefix_append_right_inj _).mp inside) called

/-- Whatever state a run ends in, the length has not arrived. -/
theorem run_early {segments : List (List Byte)} {sofar : List Byte} {last : ReplyReader} {outs : List Unit}
    (high : 128 ≤ domain.length) (byte : domain.length ≤ 255) (early : Early sofar reader)
    (inside : sofar ++ segments.flatten <+: replyHeader ++ (domainField domain ++ payload))
    (path : Run.run (step platform) reader segments = some (last, outs)) :
    Early (sofar ++ segments.flatten) last := by
  induction segments generalizing reader sofar outs with
  | nil =>
    cases path
    rw [List.flatten_nil, List.append_nil]
    exact early
  | cons segment rest ih =>
    obtain ⟨next, out, tail, taken, onward, -⟩ := Run.run_cons_iff.mp path
    rw [List.flatten_cons, ← List.append_assoc] at inside ⊢
    exact ih (step_early high byte early ((List.prefix_append _ _).trans inside) taken) inside onward

theorem Early.length_lt (early : Early arrived reader) : arrived.length < fieldStart + 2 := by
  cases early with
  | header short =>
    have front : replyHeader.length = fieldStart := rfl
    omega
  | bindHost short =>
    have front : replyHeader.length = fieldStart := rfl
    rw [List.length_append]
    omega

theorem domainReply_append (domain : List Byte) (port : UInt16) (payload : List Byte) :
    domainReply domain port ++ payload =
      replyHeader ++ (domainField domain ++ (uShortToData port.toNat ++ payload)) := by
  simp only [domainReply, List.append_assoc]

theorem replyEnd_le (domain : List Byte) (port : UInt16) (payload : List Byte) :
    replyEnd domain ≤ (domainReply domain port ++ payload).length := by
  simp only [domainReply, List.length_append, length_domainField, replyEnd, portStart, fieldStart, uShortToData,
    List.length_cons, List.length_nil, portLen]
  omega

/-- No run goes on behind the length. -/
theorem run_high (platform : Platform) {segments : List (List Byte)} (high : 128 ≤ domain.length)
    (byte : domain.length ≤ 255) (whole : segments.flatten = domainReply domain port ++ payload) :
    Run.run (step platform) start segments = none := by
  cases path : Run.run (step platform) start segments with
  | none => rfl
  | some result =>
    have early : Early [] start := .header (by decide) ⟨rfl, rfl, rfl, rfl, rfl, rfl⟩
    have stream := whole.trans (domainReply_append domain port payload)
    have inside : [] ++ segments.flatten <+: _ := ⟨[], by rw [List.append_nil, List.nil_append, stream]⟩
    have few := (run_early high byte early inside path).length_lt
    have enough := replyEnd_le domain port payload
    rw [List.nil_append, whole] at few
    simp only [replyEnd, portStart] at enough
    omega

end ReplyReader

/-- The reply is framed at every moment exactly if a `char` holds its length and a string its
name. -/
theorem domain_reply_framed_iff (platform : Platform) (domain : List Byte) (byte : domain.length ≤ 255)
    (port : UInt16) (payload : List Byte) (segments : List (List Byte))
    (whole : segments.flatten = domainReply domain port ++ payload) :
    (∀ sofar later, segments = sofar ++ later → ∃ reader outs,
      Run.run (ReplyReader.step platform) ReplyReader.start sofar = some (reader, outs) ∧
        ReplyReader.DomainFramed domain port sofar.flatten reader) ↔ domain.length ≤ 127 ∧ 0 ∉ domain := by
  have stream := whole.trans (ReplyReader.domainReply_append domain port payload)
  have enough := ReplyReader.replyEnd_le domain port payload
  rw [← whole] at enough
  constructor
  · intro framed
    obtain ⟨last, outs, path, final⟩ := framed segments [] (List.append_nil _).symm
    obtain ⟨-, host, -, named⟩ := final.connects enough
    refine ⟨?_, named ▸ host.terminated⟩
    by_contra long
    cases (ReplyReader.run_high platform (by omega) byte whole).symm.trans path
  · rintro ⟨low, clean⟩ sofar later rfl
    obtain ⟨reader, outs, path, framing⟩ := ReplyReader.run_frames port.toNat_lt
      (ReplyReader.readsField_domain low) sofar
      ⟨later.flatten, by rw [← List.flatten_append, stream]⟩
    have kept : (CString.ofBytes domain).bytes = domain := congrArg CString.bytes
      (CString.ofBytes_bytes ⟨domain, clean⟩)
    exact ⟨reader, outs, path, framing.domainFramed kept⟩

/-- The domain "ab", port 80, cut behind its first letter, with a byte behind the reply. -/
theorem cut_domain_framed : (∀ sofar later, [[5, 0, 0, 3, 2, 97], [98, 0, 80, 1]] = sofar ++ later →
    ∃ reader outs, Run.run (ReplyReader.step loopback) ReplyReader.start sofar = some (reader, outs) ∧
      ReplyReader.DomainFramed [97, 98] 80 sofar.flatten reader) ↔
    ([97, 98] : List Byte).length ≤ 127 ∧ 0 ∉ ([97, 98] : List Byte) :=
  domain_reply_framed_iff loopback [97, 98] (by decide) 80 [1] [[5, 0, 0, 3, 2, 97], [98, 0, 80, 1]] rfl

/-- A domain of 128 letters. -/
def longDomain : List Byte := List.replicate 128 97

theorem long_domain_unframed : ¬∀ (platform : Platform) (domain : List Byte), domain.length ≤ 255 →
    ∀ (port : UInt16) (payload : List Byte) (segments : List (List Byte)),
      segments.flatten = domainReply domain port ++ payload →
        ∀ sofar later, segments = sofar ++ later → ∃ reader outs,
          Run.run (ReplyReader.step platform) ReplyReader.start sofar = some (reader, outs) ∧
            ReplyReader.DomainFramed domain port sofar.flatten reader := by
  intro claim
  have long : longDomain.length = 128 := List.length_replicate
  have whole : [domainReply longDomain 80].flatten = domainReply longDomain 80 ++ [] := List.flatten_cons
  obtain ⟨reader, outs, path, -⟩ :=
    claim loopback longDomain (by omega) 80 [] _ whole _ [] (List.append_nil _).symm
  cases (ReplyReader.run_high loopback (by omega) (by omega) whole).symm.trans path

end Devent.Docks
