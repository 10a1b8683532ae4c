import Devent.Docks.ServerProofs
import Devent.Dlib.HashMapProofs

/-! `parse_config` of docks/server_config.c, on the options that `getopt_long` returns one
by one. A users file that cannot be opened leaves the users NULL, whose count is -1 and not
0, and NULL users mean no authentication. -/
namespace Devent.Docks

def maxUserLen : Nat := 256

def maxPwdLen : Nat := 256

def maxLineLen : Nat := 1024

def space : Byte := 32

def lineFeed : Byte := 10

def carriageReturn : Byte := 13

/-- An opened users file: the bytes up to its end or to a read error, and what the stack
holds behind the array `user` when a line is read. -/
structure UsersFile where
  bytes : List Byte
  error : Bool
  stack : Nat → CString

/-- The lines of `fgets`, given what the current one has so far. A read error drops the line
that it interrupts. -/
def fgetsLines (error : Bool) (line : List Byte) : List Byte → List (List Byte)
  | [] => if line = [] ∨ error = true then [] else [line]
  | b :: rest =>
    let line := line ++ [b]
    if b = lineFeed ∨ line.length = maxLineLen - 1 then line :: fgetsLines error [] rest
    else fgetsLines error line rest

/-- The line without its end, `\r\n` or `\n`. -/
def stripEnd (read : List Byte) : List Byte :=
  let len := read.length
  if 2 ≤ len ∧ read[len - 2]? = some carriageReturn ∧ read[len - 1]? = some lineFeed then read.take (len - 2)
  else if 1 ≤ len ∧ read[len - 1]? = some lineFeed then read.take (len - 1)
  else read

/-- The account of a line. A name of `maxUserLen` bytes fills `user` and is read on behind it. -/
def readAccount (stack : CString) (line : List Byte) : Option (CString × CString) :=
  let line := stripEnd (CString.ofBytes line).bytes
  if line = [] then none
  else if space ∉ line then none
  else
    let user := line.takeWhile (· ≠ space)
    if maxUserLen < user.length then none
    else
      let pwd := (line.dropWhile (· ≠ space)).dropWhile (· = space)
      if maxPwdLen < pwd.length then none
      else if space ∈ pwd then none
      else
        let behind := if user.length = maxUserLen then stack.bytes else []
        some (CString.ofBytes (user ++ behind), CString.ofBytes pwd)

def addUser (stack : Nat → CString) (users : CHashMap CString) (line : List Byte × Nat) :
    Option (CHashMap CString) :=
  match readAccount (stack line.2) line.1 with
  | none => some users
  | some (user, pwd) => users.put user pwd

/-- `parse_users`; `none` for a failed `fopen`. -/
def parseUsers (file : Option UsersFile) (users : Option (CHashMap CString)) :
    Option (Option (CHashMap CString)) :=
  match file with
  | none => some users
  | some file => do
    let users ← (fgetsLines file.error [] file.bytes).zipIdx.foldlM (addUser file.stack) CHashMap.new
    return some users

structure StartConfig extends ServerConfig where
  address : Option CString
  ssl : Bool
  sslKeyPath : Option CString
  sslCertPath : Option CString

/-- What `main` passes: all zero. -/
def StartConfig.zero : StartConfig := ⟨⟨none⟩, none, false, none, none⟩

/-- A result of `getopt_long`, with its argument or what comes of opening it. `log` is
declared without an argument, so `optarg` is NULL there. -/
inductive ServerOption where
  | address (optarg : CString)
  | users (file : Option UsersFile)
  | ssl
  | sslKeyPath (optarg : CString)
  | sslCertPath (optarg : CString)
  | log
  | help
  | other

/-- One turn of the loop of `parse_config`; `strcasecmp` of NULL is undefined. -/
def applyOption (config : StartConfig) : ServerOption → Option StartConfig
  | .address optarg => some { config with address := some optarg }
  | .users file => do
    let users ← parseUsers file config.users
    return { config with users := users }
  | .ssl => some { config with ssl := true }
  | .sslKeyPath optarg => some { config with sslKeyPath := some optarg }
  | .sslCertPath optarg => some { config with sslCertPath := some optarg }
  | .log => none
  | .help => some config
  | .other => some config

/-- `STR_IS_EMPTY`. -/
def strIsEmpty : Option CString → Bool
  | none => true
  | some s => s.strlen == 0

def parseConfig (options : List ServerOption) (config : StartConfig) : Option (Int × StartConfig) := do
  let config ← options.foldlM applyOption config
  if config.address.isNone then return (-1, config)
  else if config.ssl && (strIsEmpty config.sslKeyPath || strIsEmpty config.sslCertPath) then
    return (-1, config)
  else if CHashMap.getCount config.users = 0 then return (-1, config)
  else return (0, config)

/-- There is an account, and no list of methods is answered with no authentication. -/
structure Closed (config : ServerConfig) : Prop where
  account : ∃ users username password, config.users = some users ∧ users.get username = some password
  required : ∀ methods, negotication config methods ≠ methodNoAuthenticationRequired

/-- `parse_config` returns, and either refuses or leaves a closed server. -/
def FailsClosed (result : Option (Int × StartConfig)) : Prop :=
  ∃ status config, result = some (status, config) ∧ (status = -1 ∨ Closed config.toServerConfig)

def UsersFile.accounts (file : UsersFile) : List (CString × CString) :=
  (fgetsLines file.error [] file.bytes).zipIdx.filterMap fun line => readAccount (file.stack line.2) line.1

/-- The last argument of a kind. -/
def lastArg (arg : ServerOption → Option CString) (options : List ServerOption) : Option CString :=
  (options.filterMap arg).getLast?

def ServerOption.addressArg : ServerOption → Option CString
  | .address optarg => some optarg
  | _ => none

def ServerOption.keyArg : ServerOption → Option CString
  | .sslKeyPath optarg => some optarg
  | _ => none

def ServerOption.certArg : ServerOption → Option CString
  | .sslCertPath optarg => some optarg
  | _ => none

def ServerOption.isSsl : ServerOption → Bool
  | .ssl => true
  | _ => false

/-- No address, or encryption without its files. -/
def Refused (options : List ServerOption) : Prop :=
  lastArg ServerOption.addressArg options = none ∨
    (options.any ServerOption.isSsl = true ∧
      (strIsEmpty (lastArg ServerOption.keyArg options) = true ∨
        strIsEmpty (lastArg ServerOption.certArg options) = true))

/-- A users file is opened. -/
def Opened (options : List ServerOption) : Prop := ∃ file, .users (some file) ∈ options

/-- No log option, and no file with more accounts than the capacity of the map can grow for. -/
structure Returns (options : List ServerOption) : Prop where
  quiet : .log ∉ options
  fits : ∀ file, .users (some file) ∈ options → (CHashMap.tableCap file.accounts.length).isSome

variable {users next : CHashMap CString}
  {file : UsersFile} {options : List ServerOption} {config last : StartConfig}

theorem tableCap_none {n m : Nat} (none : CHashMap.tableCap n = none) (le : n ≤ m) :
    CHashMap.tableCap m = Option.none := by
  induction le with
  | refl => exact none
  | step _ ih => rw [CHashMap.tableCap, ih, Option.bind_none]

/-- A map after some calls of put: the key put last is found in it. -/
structure Loaded (users : CHashMap CString) (count : Nat) : Prop where
  sized : CHashMap.Sized users
  cap : CHashMap.tableCap count = some users.cap
  counted : users.count = count
  account : count = 0 ∨ ∃ username password, users.get username = some password

theorem loaded_new : Loaded CHashMap.new 0 := ⟨CHashMap.new_sized, rfl, rfl, .inl rfl⟩

theorem Loaded.put {count : Nat} (loaded : Loaded users count) {user pwd : CString}
    (done : users.put user pwd = some next) : Loaded next (count + 1) := by
  obtain ⟨sized, found⟩ := CHashMap.put_sized loaded.sized done
  obtain ⟨cap, counted⟩ := CHashMap.put_cap done
  rw [loaded.counted] at cap counted
  refine ⟨sized, ?_, counted, .inr ⟨user, pwd, found⟩⟩
  rw [CHashMap.tableCap, loaded.cap, Option.bind_some]
  exact cap

theorem Loaded.put_none {count : Nat} (loaded : Loaded users count) {user pwd : CString}
    (fails : users.put user pwd = none) : CHashMap.tableCap (count + 1) = none := by
  have refused : ¬(users.put user pwd).isSome := by
    rw [fails]
    decide
  rw [CHashMap.put_isSome_iff, loaded.counted] at refused
  rw [CHashMap.tableCap, loaded.cap, Option.bind_some]
  exact Option.not_isSome_iff_eq_none.mp refused

/-- The loop of `parse_users` loads every account, or runs out of capacity. -/
theorem addUsers_loaded (stack : Nat → CString) (lines : List (List Byte × Nat)) {count : Nat}
    (loaded : Loaded users count) :
    let total := count + (lines.filterMap fun line => readAccount (stack line.2) line.1).length
    (∃ next, lines.foldlM (addUser stack) users = some next ∧ Loaded next total) ∨
      (lines.foldlM (addUser stack) users = none ∧ CHashMap.tableCap total = none) := by
  induction lines generalizing users count with
  | nil => exact .inl ⟨users, rfl, loaded⟩
  | cons line rest ih =>
    cases read : readAccount (stack line.2) line.1 with
    | none =>
      have skipped : addUser stack users line = some users := by simp only [addUser, read]
      simp only [List.foldlM_cons, skipped, Option.bind_eq_bind, Option.bind_some, List.filterMap_cons, read]
      exact ih loaded
    | some account =>
      obtain ⟨user, pwd⟩ := account
      have added : addUser stack users line = users.put user pwd := by simp only [addUser, read]
      have grown : ∀ n, count + (n + 1) = count + 1 + n := fun n => by omega
      simp only [List.foldlM_cons, added, Option.bind_eq_bind, List.filterMap_cons, read, List.length_cons]
      rw [grown]
      cases done : users.put user pwd with
      | none => exact .inr ⟨rfl, tableCap_none (loaded.put_none done) (Nat.le_add_right ..)⟩
      | some next => exact ih (loaded.put done)

theorem parseUsers_opened (file : UsersFile) (users : Option (CHashMap CString)) :
    (∃ next, parseUsers (some file) users = some (some next) ∧ Loaded next file.accounts.length) ∨
      (parseUsers (some file) users = none ∧ CHashMap.tableCap file.accounts.length = none) := by
  have total : 0 + file.accounts.length = file.accounts.length := Nat.zero_add _
  obtain ⟨next, added, loaded⟩ | ⟨fails, overflows⟩ :=
    addUsers_loaded file.stack (fgetsLines file.error [] file.bytes).zipIdx loaded_new
  · refine .inl ⟨next, ?_, total ▸ loaded⟩
    simp only [parseUsers, added]
    rfl
  · refine .inr ⟨?_, total ▸ overflows⟩
    simp only [parseUsers, fails]
    rfl

theorem lastArg_cons (arg : ServerOption → Option CString) (option : ServerOption) (rest : List ServerOption) :
    lastArg arg (option :: rest) = (lastArg arg rest).or (lastArg arg [option]) := by
  simp only [lastArg, List.filterMap_cons, List.filterMap_nil]
  cases arg option with
  | none => exact (Option.or_none).symm
  | some first =>
    rw [List.getLast?_cons, List.getLast?_singleton]
    cases (rest.filterMap arg).getLast? <;> rfl

theorem opened_cons {option : ServerOption} {rest : List ServerOption} :
    Opened (option :: rest) ↔ Opened [option] ∨ Opened rest := by
  simp only [Opened, List.mem_cons, List.not_mem_nil, or_false, exists_or]

theorem returns_cons {option : ServerOption} {rest : List ServerOption} :
    Returns (option :: rest) ↔ Returns [option] ∧ Returns rest := by
  constructor
  · intro returns
    refine ⟨⟨fun log => returns.quiet ?_, fun file member => returns.fits file ?_⟩,
      ⟨fun log => returns.quiet (List.mem_cons_of_mem _ log),
        fun file member => returns.fits file (List.mem_cons_of_mem _ member)⟩⟩
    · rw [List.mem_singleton.mp log]
      exact List.mem_cons_self
    · rw [List.mem_singleton.mp member]
      exact List.mem_cons_self
  · rintro ⟨first, rest⟩
    constructor
    · rintro (log | ⟨_, log⟩)
      · exact first.quiet List.mem_cons_self
      · exact rest.quiet log
    · intro file member
      obtain rfl | member := List.mem_cons.mp member
      · exact first.fits file List.mem_cons_self
      · exact rest.fits file member

/-- The last argument of each kind counts, and the last users file that was opened. -/
structure Applied (options : List ServerOption) (config next : StartConfig) : Prop where
  address : next.address = (lastArg ServerOption.addressArg options).or config.address
  ssl : next.ssl = (config.ssl || options.any ServerOption.isSsl)
  sslKeyPath : next.sslKeyPath = (lastArg ServerOption.keyArg options).or config.sslKeyPath
  sslCertPath : next.sslCertPath = (lastArg ServerOption.certArg options).or config.sslCertPath
  opened : Opened options → ∃ users count, next.users = some users ∧ Loaded users count
  unopened : ¬Opened options → next.users = config.users

theorem Applied.nil (config : StartConfig) : Applied [] config config where
  address := rfl
  ssl := (Bool.or_false _).symm
  sslKeyPath := rfl
  sslCertPath := rfl
  opened := by rintro ⟨file, ⟨⟩⟩
  unopened _ := rfl

theorem Applied.cons {option : ServerOption} {rest : List ServerOption} {middle : StartConfig}
    (first : Applied [option] config middle) (later : Applied rest middle last) :
    Applied (option :: rest) config last := by
  constructor
  · rw [later.address, first.address, lastArg_cons _ _ rest, Option.or_assoc]
  · rw [later.ssl, first.ssl, List.any_cons, List.any_cons, List.any_nil, Bool.or_false, Bool.or_assoc]
  · rw [later.sslKeyPath, first.sslKeyPath, lastArg_cons _ _ rest, Option.or_assoc]
  · rw [later.sslCertPath, first.sslCertPath, lastArg_cons _ _ rest, Option.or_assoc]
  · intro opened
    by_cases again : Opened rest
    · exact later.opened again
    · obtain ⟨users, count, found, loaded⟩ := first.opened ((opened_cons.mp opened).resolve_right again)
      exact ⟨users, count, (later.unopened again).trans found, loaded⟩
  · intro unopened
    obtain ⟨here, there⟩ := not_or.mp (opened_cons.not.mp unopened)
    exact (later.unopened there).trans (first.unopened here)

theorem not_opened_of_args {option : ServerOption} (other : ∀ file, option ≠ .users (some file)) :
    ¬Opened [option] := by
  rintro ⟨file, member⟩
  exact other file (List.mem_singleton.mp member).symm

/-- One turn of the loop. -/
theorem applyOption_applied (config : StartConfig) {option : ServerOption} (returns : Returns [option]) :
    ∃ next, applyOption config option = some next ∧ Applied [option] config next := by
  cases option with
  | users file =>
    cases file with
    | none =>
      exact ⟨config, rfl, rfl, (Bool.or_false _).symm, rfl, rfl,
        fun opened => absurd opened (not_opened_of_args (by simp)), fun _ => rfl⟩
    | some file =>
      obtain ⟨users, parsed, loaded⟩ | ⟨-, overflows⟩ := parseUsers_opened file config.users
      · refine ⟨{ config with users := some users }, ?_, rfl, (Bool.or_false _).symm, rfl, rfl,
          fun _ => ⟨users, _, rfl, loaded⟩, fun unopened => absurd ⟨file, List.mem_cons_self⟩ unopened⟩
        simp only [applyOption, parsed]
        rfl
      · have fits := returns.fits file List.mem_cons_self
        rw [overflows] at fits
        cases fits
  | log => exact absurd List.mem_cons_self returns.quiet
  | ssl =>
    exact ⟨_, rfl, rfl, (Bool.or_true _).symm, rfl, rfl,
      fun opened => absurd opened (not_opened_of_args (by simp)), fun _ => rfl⟩
  | address optarg | sslKeyPath optarg | sslCertPath optarg =>
    exact ⟨_, rfl, rfl, (Bool.or_false _).symm, rfl, rfl,
      fun opened => absurd opened (not_opened_of_args (by simp)), fun _ => rfl⟩
  | help | other =>
    exact ⟨_, rfl, rfl, (Bool.or_false _).symm, rfl, rfl,
      fun opened => absurd opened (not_opened_of_args (by simp)), fun _ => rfl⟩

theorem applyOption_none (config : StartConfig) {option : ServerOption} (dies : ¬Returns [option]) :
    applyOption config option = none := by
  cases option with
  | users file =>
    cases file with
    | none => exact absurd ⟨by simp, by simp⟩ dies
    | some file =>
      obtain ⟨users, -, loaded⟩ | ⟨fails, -⟩ := parseUsers_opened file config.users
      · refine absurd ⟨by simp, fun other member => ?_⟩ dies
        cases List.mem_singleton.mp member
        rw [loaded.cap]
        rfl
      · simp only [applyOption, fails]
        rfl
  | log => rfl
  | address optarg | sslKeyPath optarg | sslCertPath optarg => exact absurd ⟨by simp, by simp⟩ dies
  | ssl | help | other => exact absurd ⟨by simp, by simp⟩ dies

theorem applyOptions_applied (config : StartConfig) (returns : Returns options) :
    ∃ last, options.foldlM applyOption config = some last ∧ Applied options config last := by
  induction options generalizing config with
  | nil => exact ⟨config, rfl, .nil config⟩
  | cons option rest ih =>
    obtain ⟨first, later⟩ := returns_cons.mp returns
    obtain ⟨middle, turn, applied⟩ := applyOption_applied config first
    obtain ⟨last, turns, rest⟩ := ih middle later
    refine ⟨last, ?_, applied.cons rest⟩
    rw [List.foldlM_cons, turn]
    exact turns

theorem applyOptions_none (config : StartConfig) (dies : ¬Returns options) :
    options.foldlM applyOption config = none := by
  induction options generalizing config with
  | nil => exact absurd ⟨by simp, by simp⟩ dies
  | cons option rest ih =>
    rw [List.foldlM_cons]
    by_cases first : Returns [option]
    · obtain ⟨middle, turn, -⟩ := applyOption_applied config first
      rw [turn]
      exact ih middle fun later => dies (returns_cons.mpr ⟨first, later⟩)
    · rw [applyOption_none config first]
      rfl

/-- The checks behind the loop, on what it leaves. -/
theorem parseConfig_refused (turns : options.foldlM applyOption .zero = some last)
    (applied : Applied options .zero last) (refused : Refused options) :
    parseConfig options .zero = some (-1, last) := by
  simp only [parseConfig, turns, Option.bind_eq_bind, Option.bind_some, Option.pure_def]
  obtain absent | ⟨ssl, missing⟩ := refused
  · have none : last.address.isNone = true := by
      rw [applied.address, absent]
      rfl
    rw [if_pos none]
  · split
    · rfl
    · have incomplete : (last.ssl && (strIsEmpty last.sslKeyPath || strIsEmpty last.sslCertPath)) = true := by
        rw [applied.ssl, applied.sslKeyPath, applied.sslCertPath, ssl, StartConfig.zero, Option.or_none,
          Option.or_none, Bool.or_true, Bool.true_and, Bool.or_eq_true]
        exact missing
      rw [if_pos incomplete]

theorem parseConfig_accepted (turns : options.foldlM applyOption .zero = some last)
    (applied : Applied options .zero last) (accepted : ¬Refused options) :
    parseConfig options .zero = some (if CHashMap.getCount last.users = 0 then -1 else 0, last) := by
  obtain ⟨present, complete⟩ := not_or.mp accepted
  have addressed : ¬last.address.isNone = true := by
    rw [applied.address, StartConfig.zero, Option.or_none, Option.isNone_iff_eq_none]
    exact present
  have encrypted : ¬(last.ssl && (strIsEmpty last.sslKeyPath || strIsEmpty last.sslCertPath)) = true := by
    rw [applied.ssl, applied.sslKeyPath, applied.sslCertPath, StartConfig.zero, Option.or_none, Option.or_none,
      Bool.false_or, Bool.and_eq_true, Bool.or_eq_true]
    exact complete
  simp only [parseConfig, turns, Option.bind_eq_bind, Option.bind_some, Option.pure_def, if_neg addressed,
    if_neg encrypted]
  split <;> rfl

/-- A loaded map is empty, and refused, or closes the server. -/
theorem Loaded.closed {count : Nat} (loaded : Loaded users count) (some' : CHashMap.getCount (some users) ≠ 0) :
    Closed ⟨some users⟩ := by
  have counted := loaded.sized.getCount_eq
  rw [loaded.counted] at counted
  obtain rfl | ⟨username, password, found⟩ := loaded.account
  · exact absurd counted some'
  · exact ⟨⟨users, username, password, rfl, found⟩, negotication_requires ⟨rfl, some'⟩⟩

/-- `parse_config` fails closed exactly when it returns, and is refused anyway or could open
a users file. -/
theorem parseConfig_failsClosed_iff (options : List ServerOption) :
    FailsClosed (parseConfig options .zero) ↔ Returns options ∧ (Refused options ∨ Opened options) := by
  by_cases returns : Returns options
  · rw [and_iff_right returns]
    obtain ⟨last, turns, applied⟩ := applyOptions_applied .zero returns
    by_cases refused : Refused options
    · exact iff_of_true ⟨-1, last, parseConfig_refused turns applied refused, .inl rfl⟩ (.inl refused)
    · have result := parseConfig_accepted turns applied refused
      by_cases opened : Opened options
      · refine iff_of_true ⟨_, last, result, ?_⟩ (.inr opened)
        obtain ⟨users, count, found, loaded⟩ := applied.opened opened
        rw [found]
        by_cases empty : CHashMap.getCount (some users) = 0
        · exact .inl (if_pos empty)
        · right
          have closed := loaded.closed empty
          rw [← found] at closed
          exact closed
      · refine iff_of_false ?_ (not_or.mpr ⟨refused, opened⟩)
        have unset : last.users = none := applied.unopened opened
        rintro ⟨status, config, returned, closed⟩
        rw [result, unset] at returned
        obtain ⟨rfl, rfl⟩ := Prod.mk.inj (Option.some.inj returned)
        obtain fails | closed := closed
        · cases fails
        · obtain ⟨users, -, -, found, -⟩ := closed.account
          rw [unset] at found
          cases found
  · refine iff_of_false ?_ fun both => returns both.1
    rintro ⟨status, config, returned, -⟩
    rw [parseConfig, applyOptions_none .zero returns] at returned
    cases returned

/-- The address 127.0.0.1:1080. -/
def localAddress : CString :=
  ⟨[49, 50, 55, 46, 48, 46, 48, 46, 49, 58, 49, 48, 56, 48], by decide⟩

/-- A users file that is missing opens the server to everybody. -/
theorem missing_users_open : ¬∀ options : List ServerOption, (∃ file, .users file ∈ options) →
    FailsClosed (parseConfig options .zero) := by
  intro claim
  obtain ⟨status, config, returned, closed⟩ := claim [.address localAddress, .users none] ⟨none, by simp⟩
  obtain ⟨rfl, rfl⟩ := Prod.mk.inj (Option.some.inj returned)
  obtain fails | closed := closed
  · exact absurd fails (by decide)
  · exact absurd rfl (closed.required [methodNoAuthenticationRequired])

end Devent.Docks
