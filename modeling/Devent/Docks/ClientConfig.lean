import Devent.Docks.Config
import Devent.Docks.SessionProofs
import Devent.Dlib.Clib

/-! `init_client_config` of docks/client_config.c, on the options that `getopt_long` returns one
by one. An option that it does not know ends it, and the last option of a kind counts. -/
namespace Devent.Docks

def libLogDebug : Int := 0

def libLogInfo : Int := 1

def libLogWarning : Int := 2

def libLogError : Int := 3

/-- The level that is kept; LIB_LOG_ERROR lies above all that are. -/
def setLogLevel (level : Int) : Int :=
  if level > libLogWarning then libLogWarning
  else if level < libLogDebug then libLogDebug
  else level

def toLower (b : Byte) : Byte := if 65 ≤ b ∧ b ≤ 90 then b + 32 else b

/-- `strcasecmp` is 0. -/
def sameText (s t : List Byte) : Bool := s.map toLower == t.map toLower

def textDebug : List Byte := [100, 101, 98, 117, 103]

def textInfo : List Byte := [105, 110, 102, 111]

def textError : List Byte := [101, 114, 114, 111, 114]

def logOption (optarg : CString) : Option Int :=
  if sameText optarg.bytes textDebug then some libLogDebug
  else if sameText optarg.bytes textInfo then some libLogInfo
  else if sameText optarg.bytes textError then some libLogError
  else none

structure ClientSettings extends ClientConfig where
  address : Option CString
  remoteHost : Option CString
  remotePort : UInt16
  ssl : Bool

/-- The configuration with the log level that is set on the way. -/
structure ClientStart where
  config : ClientSettings
  logLevel : Int

/-- What `main` passes: all zero. -/
def ClientStart.zero : ClientStart := ⟨⟨⟨none, none⟩, none, none, 0, false⟩, libLogDebug⟩

/-- A result of `getopt_long`, with its argument. -/
inductive ClientOption where
  | address (optarg : CString)
  | remoteHost (optarg : CString)
  | remotePort (optarg : CString)
  | username (optarg : CString)
  | password (optarg : CString)
  | ssl
  | log (optarg : CString)
  | help
  | other

/-- The value of `strtol` as it is stored in an `unsigned short`. -/
def portArg (optarg : CString) : UInt16 := UInt16.ofNat (sizeT (strtol false optarg.bytes).value)

/-- One turn of the loop; `none` is the return of -1. -/
def ClientStart.apply (start : ClientStart) : ClientOption → Option ClientStart
  | .address optarg => some { start with config := { start.config with address := some optarg } }
  | .remoteHost optarg => some { start with config := { start.config with remoteHost := some optarg } }
  | .remotePort optarg => some { start with config := { start.config with remotePort := portArg optarg } }
  | .username optarg => some { start with config := { start.config with username := some optarg } }
  | .password optarg => some { start with config := { start.config with password := some optarg } }
  | .ssl => some { start with config := { start.config with ssl := true } }
  | .log optarg =>
    match logOption optarg with
    | none => some start
    | some level => some { start with logLevel := setLogLevel level }
  | .help => none
  | .other => none

/-- The checks behind the loop. -/
def ClientSettings.check (config : ClientSettings) : Int :=
  if config.address.isNone then -1
  else
    let usernameIsEmpty := strIsEmpty config.username
    let passwordIsEmpty := strIsEmpty config.password
    if (usernameIsEmpty && !passwordIsEmpty) || (!usernameIsEmpty && passwordIsEmpty) then -1
    else 0

def initClientConfig : List ClientOption → ClientStart → Int × ClientStart
  | [], start => (start.config.check, start)
  | option :: rest, start =>
    match start.apply option with
    | none => (-1, start)
    | some start => initClientConfig rest start

/-- The last value that an option gives. -/
def lastValue {O V : Type} (value : O → Option V) (options : List O) : Option V :=
  (options.filterMap value).getLast?

namespace ClientOption

/-- Neither the help nor an unknown option. -/
def Known : ClientOption → Prop
  | .help | .other => False
  | _ => True

def addressArg : ClientOption → Option CString
  | .address optarg => some optarg
  | _ => none

def remoteHostArg : ClientOption → Option CString
  | .remoteHost optarg => some optarg
  | _ => none

def remotePortArg : ClientOption → Option UInt16
  | .remotePort optarg => some (portArg optarg)
  | _ => none

def usernameArg : ClientOption → Option CString
  | .username optarg => some optarg
  | _ => none

def passwordArg : ClientOption → Option CString
  | .password optarg => some optarg
  | _ => none

def sslArg : ClientOption → Option Bool
  | .ssl => some true
  | _ => none

/-- A level that is not known changes nothing. -/
def logArg : ClientOption → Option Int
  | .log optarg => (logOption optarg).map setLogLevel
  | _ => none

end ClientOption

/-- Every setting is the last of its kind. -/
structure ClientStart.Reads (start before : ClientStart) (options : List ClientOption) : Prop where
  address : start.config.address = (lastValue ClientOption.addressArg options).or before.config.address
  remoteHost : start.config.remoteHost = (lastValue ClientOption.remoteHostArg options).or before.config.remoteHost
  remotePort : start.config.remotePort =
    (lastValue ClientOption.remotePortArg options).getD before.config.remotePort
  username : start.config.username = (lastValue ClientOption.usernameArg options).or before.config.username
  password : start.config.password = (lastValue ClientOption.passwordArg options).or before.config.password
  ssl : start.config.ssl = (lastValue ClientOption.sslArg options).getD before.config.ssl
  logLevel : start.logLevel = (lastValue ClientOption.logArg options).getD before.logLevel

/-- An address is given, and a username where there is a password and nowhere else. -/
structure Startable (options : List ClientOption) : Prop where
  known : ∀ option ∈ options, option.Known
  address : lastValue ClientOption.addressArg options ≠ none
  paired : strIsEmpty (lastValue ClientOption.usernameArg options) =
    strIsEmpty (lastValue ClientOption.passwordArg options)

variable {start before middle : ClientStart} {option : ClientOption} {options rest : List ClientOption}

theorem lastValue_cons {O V : Type} (value : O → Option V) (option : O) (rest : List O) :
    lastValue value (option :: rest) = (lastValue value rest).or (value option) := by
  rw [lastValue, List.filterMap_cons]
  cases value option with
  | none => exact (Option.or_none).symm
  | some first =>
    rw [List.getLast?_cons, ← lastValue]
    cases lastValue value rest <;> rfl

/-- What an option leaves alone stays as it was before the rest of them. -/
theorem getD_lastValue_cons {O V : Type} (value : O → Option V) (option : O) (rest : List O) (default : V) :
    (lastValue value (option :: rest)).getD default = (lastValue value rest).getD ((value option).getD default) := by
  rw [lastValue_cons]
  cases lastValue value rest <;> rfl

theorem ClientStart.Reads.nil (start : ClientStart) : start.Reads start [] := ⟨rfl, rfl, rfl, rfl, rfl, rfl, rfl⟩

/-- One turn of the loop sets what its option says, and no more. -/
theorem ClientStart.apply_reads (turn : before.apply option = some middle) : middle.Reads before [option] := by
  cases option with
  | help | other => cases turn
  | log optarg =>
    have level : lastValue ClientOption.logArg [.log optarg] = (logOption optarg).map setLogLevel := by
      rw [lastValue_cons]
      rfl
    rw [ClientStart.apply] at turn
    cases named : logOption optarg with
    | none =>
      rw [named] at turn level
      cases turn
      refine ⟨rfl, rfl, rfl, rfl, rfl, rfl, ?_⟩
      rw [level]
      rfl
    | some l =>
      rw [named] at turn level
      cases turn
      refine ⟨rfl, rfl, rfl, rfl, rfl, rfl, ?_⟩
      rw [level]
      rfl
  | address | remoteHost | remotePort | username | password | ssl =>
    cases turn
    exact ⟨rfl, rfl, rfl, rfl, rfl, rfl, rfl⟩

theorem ClientStart.Reads.cons (first : middle.Reads before [option]) (later : start.Reads middle rest) :
    start.Reads before (option :: rest) := by
  have single {V : Type} (value : ClientOption → Option V) : lastValue value [option] = value option := by
    rw [lastValue_cons]
    rfl
  constructor
  · rw [later.address, first.address, single, lastValue_cons, Option.or_assoc]
  · rw [later.remoteHost, first.remoteHost, single, lastValue_cons, Option.or_assoc]
  · rw [later.remotePort, first.remotePort, single, getD_lastValue_cons]
  · rw [later.username, first.username, single, lastValue_cons, Option.or_assoc]
  · rw [later.password, first.password, single, lastValue_cons, Option.or_assoc]
  · rw [later.ssl, first.ssl, single, getD_lastValue_cons]
  · rw [later.logLevel, first.logLevel, single, getD_lastValue_cons]

/-- The loop ends at the first option that is not known, or has read them all. -/
theorem initClientConfig_cases (before : ClientStart) (options : List ClientOption) :
    (¬(∀ option ∈ options, option.Known) ∧ ∃ start, initClientConfig options before = (-1, start)) ∨
      (∀ option ∈ options, option.Known) ∧ ∃ start : ClientStart, start.Reads before options ∧
        initClientConfig options before = (start.config.check, start) := by
  induction options generalizing before with
  | nil => exact .inr ⟨fun _ member => absurd member List.not_mem_nil, before, .nil before, rfl⟩
  | cons option rest ih =>
    cases turn : before.apply option with
    | none =>
      have unknown : ¬option.Known := by
        cases option with
        | help | other => exact id
        | log optarg =>
          rw [ClientStart.apply] at turn
          split at turn <;> cases turn
        | address | remoteHost | remotePort | username | password | ssl => cases turn
      refine .inl ⟨fun known => unknown (known option List.mem_cons_self), before, ?_⟩
      rw [initClientConfig, turn]
    | some middle =>
      have reads := ClientStart.apply_reads turn
      have known : option.Known := by
        cases option with
        | help | other => cases turn
        | _ => trivial
      have goes : initClientConfig (option :: rest) before = initClientConfig rest middle := by
        rw [initClientConfig, turn]
      rcases ih middle with ⟨unknown, start, refused⟩ | ⟨all, start, later, ends⟩
      · refine .inl ⟨fun known => unknown fun o member => known o (List.mem_cons_of_mem _ member), start, ?_⟩
        rw [goes, refused]
      · refine .inr ⟨List.forall_mem_cons.mpr ⟨known, all⟩, start, reads.cons later, ?_⟩
        rw [goes, ends]

theorem ClientSettings.check_iff (config : ClientSettings) :
    config.check = 0 ↔ config.address ≠ none ∧ strIsEmpty config.username = strIsEmpty config.password := by
  rw [ClientSettings.check]
  cases config.address with
  | none => exact iff_of_false (fun zero => by cases zero) fun both => both.1 rfl
  | some address =>
    cases strIsEmpty config.username <;> cases strIsEmpty config.password <;> simp

/-- The options leave one configuration. -/
theorem ClientStart.Reads.unique {other : ClientStart} (reads : start.Reads before options)
    (reads' : other.Reads before options) : start = other := by
  obtain ⟨⟨⟨username, password⟩, address, remoteHost, remotePort, ssl⟩, logLevel⟩ := start
  obtain ⟨⟨⟨username', password'⟩, address', remoteHost', remotePort', ssl'⟩, logLevel'⟩ := other
  obtain rfl := reads.address.trans reads'.address.symm
  obtain rfl := reads.remoteHost.trans reads'.remoteHost.symm
  obtain rfl := reads.remotePort.trans reads'.remotePort.symm
  obtain rfl := reads.username.trans reads'.username.symm
  obtain rfl := reads.password.trans reads'.password.symm
  obtain rfl := reads.ssl.trans reads'.ssl.symm
  obtain rfl := reads.logLevel.trans reads'.logLevel.symm
  rfl

theorem startable_iff (known : ∀ option ∈ options, option.Known) (reads : start.Reads .zero options) :
    start.config.check = 0 ↔ Startable options := by
  have address := reads.address
  have username := reads.username
  have password := reads.password
  rw [ClientStart.zero, Option.or_none] at address username password
  rw [ClientSettings.check_iff, address, username, password]
  exact ⟨fun both => ⟨known, both.1, both.2⟩, fun startable => ⟨startable.address, startable.paired⟩⟩

/-- What a client starts with. -/
theorem ClientStart.startable (starts : initClientConfig options .zero = (0, start)) :
    Startable options ∧ start.Reads .zero options := by
  rcases initClientConfig_cases .zero options with ⟨-, last, refused⟩ | ⟨known, last, reads, ends⟩
  · rw [refused] at starts
    cases starts
  · rw [ends] at starts
    obtain ⟨checked, rfl⟩ := Prod.mk.inj starts
    exact ⟨(startable_iff known reads).mp checked, reads⟩

/-- A client starts with a configuration exactly if its options are known, say where to listen,
give a username with its password or neither, and come to that configuration. -/
theorem client_starts_iff (options : List ClientOption) (start : ClientStart) :
    initClientConfig options .zero = (0, start) ↔ Startable options ∧ start.Reads .zero options := by
  refine ⟨ClientStart.startable, ?_⟩
  rintro ⟨startable, reads⟩
  rcases initClientConfig_cases .zero options with ⟨unknown, -⟩ | ⟨known, last, reads', ends⟩
  · exact absurd startable.known unknown
  · obtain rfl := reads.unique reads'
    rw [ends, (startable_iff known reads).mpr startable]

end Devent.Docks
