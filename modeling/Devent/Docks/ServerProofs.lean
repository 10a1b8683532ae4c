import Devent.Docks.Server
import Devent.Event.Buffer

/-! What each read callback does to the log and to the installed callback. The
in-buffer operations are those of the byte-queue specification. -/
namespace Devent.Docks

variable {server server' server'' : Server} {p : Effect → Prop}

namespace Server

/-- The queue specification of `DocketBuffer_read_full`, on one queue. -/
theorem queues_readFull {queues : Queues} {i len : Nat} (queue : queues.queue i = some server.inBuffer) :
    Queues.step queues (.readFull i true len) = some (match server.readFull len with
      | some (bytes, server) => (queues.set i (some server.inBuffer), .bytes bytes)
      | none => (queues, ⟨-1, []⟩)) := by
  simp only [Queues.step, queue, readFull, Option.bind_eq_bind, Option.bind_some, Option.pure_def,
    true_and, Queues.delivered, Queues.refused]
  split <;> rfl

theorem readFull_eq_some_iff {len : Nat} {bytes : List Byte} : server.readFull len = some (bytes, server') ↔
    (0 < len ∧ len ≤ server.inBuffer.length) ∧ bytes = server.inBuffer.take len ∧
      server' = server.consume len := by
  simp only [readFull]
  split
  case isTrue fits => simp only [fits, Option.some.injEq, Prod.mk.injEq, eq_comm, and_self, true_and]
  case isFalse short => simp only [reduceCtorEq, short, false_and]

end Server

/-- The log grows by effects of one kind, and the callback stays or becomes one of a kind. -/
structure Acts (p : Effect → Prop) (q : ReadCallback → Prop) (server server' : Server) : Prop where
  logs : ∃ effects, server'.log = server.log ++ effects ∧ ∀ e ∈ effects, p e
  installs : server'.readCb = server.readCb ∨ q server'.readCb

variable {q : ReadCallback → Prop}

namespace Acts

theorem of_eq (log : server'.log = server.log) (readCb : server'.readCb = server.readCb) :
    Acts p q server server' := ⟨⟨[], by simp [log], by simp⟩, .inl readCb⟩

theorem refl (server : Server) : Acts p q server server := of_eq rfl rfl

theorem trans (first : Acts p q server server') (second : Acts p q server' server'') :
    Acts p q server server'' := by
  obtain ⟨effects, grown, all⟩ := first.logs
  obtain ⟨effects', grown', all'⟩ := second.logs
  constructor
  · refine ⟨effects ++ effects', by rw [grown', grown, List.append_assoc], ?_⟩
    intro e member
    obtain first | second := List.mem_append.mp member
    · exact all e first
    · exact all' e second
  · obtain kept | installed := second.installs
    · rw [kept]
      exact first.installs
    · exact .inr installed

section Chain

variable (acts : Acts p q server server')
include acts

theorem emit {effect : Effect} (holds : p effect) : Acts p q server (server'.emit effect) :=
  acts.trans ⟨⟨[effect], rfl, by simpa using holds⟩, .inl rfl⟩

theorem free (holds : p .freed) : Acts p q server server'.free :=
  acts.trans ⟨⟨[.freed], rfl, by simpa using holds⟩, .inl rfl⟩

theorem crash {what : Invalid} (holds : p (.invalid what)) : Acts p q server (server'.crash what) :=
  acts.trans ⟨⟨[.invalid what], rfl, by simpa using holds⟩, .inl rfl⟩

theorem setContext {context : ServerContext} : Acts p q server (server'.setContext context) :=
  acts.trans (of_eq rfl rfl)

theorem consume {len : Nat} : Acts p q server (server'.consume len) := acts.trans (of_eq rfl rfl)

theorem setReadCb {cb : ReadCallback} (kind : q cb) (holds : p (.invalid .useAfterFree)) :
    Acts p q server (server'.setReadCb cb) := by
  simp only [Server.setReadCb]
  split
  · exact acts.trans ⟨⟨[], by simp, by simp⟩, .inr kind⟩
  · exact acts.emit holds

end Chain

end Acts

/-- Effects that are neither part of a request nor a judgement. -/
def Effect.IsNeutral : Effect → Prop
  | .write _ | .relay _ | .freed | .invalid _ => True
  | .call cb => cb ≠ .connectRead ∧ cb ≠ .readAddress
  | .auth .. | .request .. | .connect .. => False

/-- Effects that are no judgement. -/
def Effect.IsUnjudged : Effect → Prop
  | .auth .. => False
  | _ => True

/-- There are accounts to check. -/
def ServerConfig.RequiresAuth (config : ServerConfig) : Prop :=
  config.users.isSome ∧ CHashMap.getCount config.users ≠ 0

instance (config : ServerConfig) : Decidable config.RequiresAuth := inferInstanceAs (Decidable (_ ∧ _))

theorem negotication_requires {config : ServerConfig} (required : config.RequiresAuth)
    (methods : List Byte) :
    negotication config methods ≠ methodNoAuthenticationRequired := by
  have accounts : ¬(config.users.isNone = true ∨ CHashMap.getCount config.users = 0) := by
    rintro (isNone | empty)
    · have present := required.1
      rw [Option.isNone_iff_eq_none.mp isNone] at present
      cases present
    · exact required.2 empty
  rw [negotication, if_neg accounts]
  split <;> decide

/-- The callbacks before the request. -/
def ReadCallback.IsEarly : ReadCallback → Prop
  | .onReadMethods | .onReadMethodsInner | .onAuthRead => True
  | .connectRead | .readAddress | .serverRead => False

/-- Where users are required, the methods never install the request callback. -/
theorem required_early {config : ServerConfig} (required : config.RequiresAuth) (methods : List Byte)
    (none : negotication config methods = methodNoAuthenticationRequired) :
    ReadCallback.IsEarly .connectRead := absurd none (negotication_requires required methods)

section Methods

variable {config : ServerConfig} (password : q .onAuthRead)
  (open' : ∀ methods, negotication config methods = methodNoAuthenticationRequired → q .connectRead)
include password open'

theorem onReadMethodsInner_acts (server : Server) :
    Acts Effect.IsNeutral q server (onReadMethodsInner config server) := by
  simp only [onReadMethodsInner]
  split
  · exact .refl server
  · split
    · exact .free (.refl server) trivial
    · rename_i methods next read
      obtain ⟨-, -, rfl⟩ := Server.readFull_eq_some_iff.mp read
      split
      · rename_i none
        exact .setReadCb (.setContext (.emit (.consume (.refl server)) trivial)) (open' methods none) trivial
      · split
        · exact .setReadCb (.setContext (.emit (.consume (.refl server)) trivial)) password trivial
        · exact .free (.setContext (.emit (.consume (.refl server)) trivial)) trivial

theorem onReadMethods_acts (inner : q .onReadMethodsInner) (server : Server) :
    Acts Effect.IsNeutral q server (onReadMethods config server) := by
  simp only [onReadMethods]
  split
  · exact .refl server
  · rename_i versionMethod next read
    obtain ⟨-, -, rfl⟩ := Server.readFull_eq_some_iff.mp read
    split
    · exact .free (.consume (.refl server)) trivial
    · refine .trans ?_ (onReadMethodsInner_acts password open' _)
      exact .setReadCb (.setContext (.consume (.refl server))) inner trivial

end Methods

/-- The callbacks of the request. -/
def ReadCallback.IsRequest : ReadCallback → Prop
  | .connectRead | .readAddress => True
  | .onReadMethods | .onReadMethodsInner | .onAuthRead | .serverRead => False

theorem startConnect_acts (platform : Platform) (host : CString) (port : Nat) (server : Server) :
    Acts Effect.IsUnjudged q server (startConnect platform host port server) := by
  simp only [startConnect]
  split
  · split
    · split
      · exact .emit (.emit (.setContext (.refl server)) trivial) trivial
      · exact .free (.emit (.emit (.setContext (.refl server)) trivial) trivial) trivial
    · split
      · exact .setContext (.emit (.emit (.setContext (.refl server)) trivial) trivial)
      · exact .free (.emit (.emit (.setContext (.refl server)) trivial) trivial) trivial
  · exact .emit (.setContext (.refl server)) trivial

theorem readIp_acts (platform : Platform) (ipLen : Nat) (print : List Byte → Option CString)
    (server : Server) :
    Acts Effect.IsUnjudged q server (readIp platform ipLen print server) := by
  simp only [readIp, Server.read]
  split
  · exact .refl server
  · split
    · exact .free (.consume (.refl server)) trivial
    · exact .trans (.consume (.consume (.refl server))) (startConnect_acts ..)

theorem copyReqAddress_acts (host : CString) (domainLen : Nat) (server : Server) :
    Acts Effect.IsUnjudged q server (copyReqAddress host domainLen server) := by
  simp only [copyReqAddress]
  split
  · exact .emit (.refl server) trivial
  · exact .refl server

theorem readDomain_acts (platform : Platform) (server : Server) :
    Acts Effect.IsUnjudged q server (readDomain platform server) := by
  have consumed : Acts Effect.IsUnjudged q server (server.consume (maxDomainLen * 2 + 4)) :=
    .consume (.refl server)
  simp only [readDomain, Server.read]
  split
  · exact consumed
  · split
    · exact .free consumed trivial
    · split
      · exact consumed
      · exact (consumed.trans (copyReqAddress_acts ..)).trans (startConnect_acts ..)

theorem readAddress_acts (platform : Platform) (server : Server) :
    Acts Effect.IsUnjudged q server (readAddress platform server) := by
  simp only [readAddress]
  split
  · exact readIp_acts ..
  · split
    · exact readIp_acts ..
    · exact readDomain_acts ..

theorem connectRead_acts (platform : Platform) (server : Server) :
    Acts Effect.IsUnjudged ReadCallback.IsRequest server (connectRead platform server) := by
  simp only [connectRead]
  split
  · exact .refl server
  · rename_i header next read
    obtain ⟨-, -, rfl⟩ := Server.readFull_eq_some_iff.mp read
    have read : Acts Effect.IsUnjudged ReadCallback.IsRequest server
        ((server.consume connHeaderLen).setContext { server.context with connectHeader := header }) :=
      .setContext (.consume (.refl server))
    split
    · exact .free read trivial
    · split
      · exact .free read trivial
      · split
        · exact .free read trivial
        · exact .setReadCb (.trans read (readAddress_acts platform _)) trivial trivial

theorem serverRead_acts (server : Server) : Acts Effect.IsNeutral q server (serverRead server) :=
  .emit (.consume (.refl server)) trivial

end Devent.Docks
