import GatewayPoc.Core.Decimal
import Mathlib.Algebra.Group.Int.Defs
import Mathlib.Tactic.SplitIfs

/-!
# Configuration

`common/utils/config.cpp`: the parts of the configuration that both programs have, read from a TOML
document.  A parser of a part looks at one value after the other and stops at the first that it does
not take.

* `Toml`, `NodeView` : a document, and a place in it that may be empty.
* `Common.nonEmptyString`, `Common.anyString`, `Common.requiredInteger`, `Common.optionalInteger` :
  the blocks about one value; what they say is a parameter.
* `Common.parsePostgresConfig_ok_iff` and its siblings : what a parser takes, and what it makes of
  it.
-/

namespace GatewayPoc

/-- `toml::node`.  Nothing looks into numbers with a fraction, dates and times; they are kept as
they are written. -/
inductive Toml where
  | string (s : Bytes)
  | integer (n : Int64)
  | floatingPoint (written : Bytes)
  | boolean (b : Bool)
  | date (written : Bytes)
  | time (written : Bytes)
  | dateTime (written : Bytes)
  | array (items : List Toml)
  | table (members : List (Bytes × Toml))

/-- The value is an integer. -/
def Toml.isInteger : Toml → Bool
  | .integer _ => true
  | _ => false

/-- The value is a string. -/
def Toml.isString : Toml → Bool
  | .string _ => true
  | _ => false

/-- `toml::node_view`; `none` refers to no node. -/
abbrev NodeView := Option Toml

namespace NodeView

/-- `node[key]`: nothing unless the node is a table with this key. -/
def sub (node : NodeView) (key : Bytes) : NodeView :=
  match node with
  | some (.table members) => (members.find? fun m => m.1 = key).map Prod.snd
  | _ => none

/-- `as_string`. -/
def asString : NodeView → Option Bytes
  | some (.string s) => some s
  | _ => none

/-- `as_integer`. -/
def asInteger : NodeView → Option Int64
  | some (.integer n) => some n
  | _ => none

variable {node : NodeView} {s : Bytes} {n : Int64}

theorem asString_eq_some : node.asString = some s ↔ node = some (.string s) := by
  unfold asString
  split
  · simp
  · next h => simpa using h s

theorem asInteger_eq_some : node.asInteger = some n ↔ node = some (.integer n) := by
  unfold asInteger
  split
  · simp
  · next h => simpa using h n

end NodeView

/-- A step after another succeeds if both do. -/
theorem bind_eq_ok {ε α β : Type} {x : Except ε α} {f : α → Except ε β} {b : β} :
    (x >>= f) = .ok b ↔ ∃ a, x = .ok a ∧ f a = .ok b := by
  cases x <;> simp [bind, Except.bind]

theorem pure_eq_ok {ε α : Type} {a b : α} : (pure a : Except ε α) = .ok b ↔ a = b := by
  simp [pure, Except.pure]

theorem map_eq_ok {ε α β : Type} {x : Except ε α} {f : α → β} {b : β} :
    x.map f = .ok b ↔ ∃ a, x = .ok a ∧ b = f a := by
  cases x <;> simp [Except.map, @eq_comm _ b]

/-- `std::to_string`. -/
def stdToString (n : ℤ) : Bytes :=
  if n < 0 then dash :: Decimal.text n.natAbs else Decimal.text n.natAbs

namespace Common

/-! ### One value -/

/-- A string that is not empty. -/
def nonEmptyString (node : NodeView) (key message : Bytes) : Except Bytes Bytes :=
  match (node.sub key).asString with
  | none => .error message
  | some s => if s = [] then .error message else .ok s

/-- A string. -/
def anyString (node : NodeView) (key message : Bytes) : Except Bytes Bytes :=
  match (node.sub key).asString with
  | none => .error message
  | some s => .ok s

/-- The check of an integer against its bounds. -/
def checkRange (min max : ℤ) (message : Bytes) (n : Int64) : Except Bytes Int64 :=
  if n.toInt < min ∨ max < n.toInt then .error (message ++ stdToString n.toInt) else .ok n

/-- An integer within bounds. -/
def requiredInteger (node : NodeView) (key missing : Bytes) (min max : ℤ) (message : Bytes) :
    Except Bytes Int64 :=
  match (node.sub key).asInteger with
  | none => .error missing
  | some n => checkRange min max message n

/-- An integer within bounds, or nothing where no integer is found. -/
def optionalInteger (node : NodeView) (key : Bytes) (min max : ℤ) (message : Bytes) :
    Except Bytes (Option Int64) :=
  match (node.sub key).asInteger with
  | none => .ok none
  | some n => (checkRange min max message n).map some

/-- `static_cast<uint16_t>`. -/
def toUInt16 (n : Int64) : UInt16 := n.toUInt64.toUInt16

/-- `static_cast<uint32_t>`. -/
def toUInt32 (n : Int64) : UInt32 := n.toUInt64.toUInt32

/-! ### Tables of a document -/

/-- `if (node) { field = parse(node); }`, for a field that holds `old`. -/
def ifPresent {α : Type} (node : NodeView) (parse : NodeView → Except Bytes α) (old : α) :
    Except Bytes α :=
  match node with
  | none => .ok old
  | some _ => parse node

/-- `if (!node) { throw missing; } field = parse(node);`. -/
def required {α : Type} (node : NodeView) (missing : Bytes)
    (parse : NodeView → Except Bytes α) : Except Bytes α :=
  match node with
  | none => .error missing
  | some _ => parse node

/-- `if (!ok) { throw message; }`. -/
def check (ok : Bool) (message : Bytes) : Except Bytes Unit :=
  if ok = true then .ok () else .error message

/-! ### The parts -/

/-- `LOG_CONFIG_TABLE`. -/
def logConfigTable : Bytes := ascii "log"

/-- `MESSAGES_CONFIG_TABLE`. -/
def messagesConfigTable : Bytes := ascii "messages"

/-- `POSTGRES_CONFIG_TABLE`. -/
def postgresConfigTable : Bytes := ascii "postgres"

/-- `REDIS_CONFIG_TABLE`. -/
def redisConfigTable : Bytes := ascii "redis"

/-- `DATABASE_PARAMETER`. -/
def databaseParameter : Bytes := ascii "database"

/-- `HOST_PARAMETER`. -/
def hostParameter : Bytes := ascii "host"

/-- `PASSWORD_PARAMETER`. -/
def passwordParameter : Bytes := ascii "password"

/-- `PORT_PARAMETER`. -/
def portParameter : Bytes := ascii "port"

/-- `SEVERITY_PARAMETER`. -/
def severityParameter : Bytes := ascii "severity"

/-- `TYPE_PARAMETER`. -/
def typeParameter : Bytes := ascii "type"

/-- `USER_PARAMETER`. -/
def userParameter : Bytes := ascii "user"

/-- `SEVERITIES`. -/
def severities : List Bytes :=
  [ascii "trace", ascii "debug", ascii "info", ascii "warning", ascii "error", ascii "fatal"]

/-- `MIN_PORT`. -/
def minPort : ℤ := 1

/-- `MAX_PORT`. -/
def maxPort : ℤ := 65535

/-- `common::LogConfig`. -/
structure LogConfig where
  severity : Bytes := ascii "error"
  deriving DecidableEq, Repr

/-- `common::MessagesConfig::Type`. -/
inductive MessagesType where
  | json
  | flatbuffers
  deriving DecidableEq, Repr

/-- `common::MessagesConfig`. -/
structure MessagesConfig where
  type : MessagesType
  deriving DecidableEq, Repr

/-- The port of a `PostgresConfig` that is given none. -/
def postgresPort : UInt16 := 5432

/-- The port of a `RedisConfig` that is given none. -/
def redisPort : UInt16 := 6379

/-- `common::PostgresConfig`. -/
structure PostgresConfig where
  host : Bytes
  port : UInt16 := postgresPort
  database : Bytes
  user : Bytes
  password : Bytes
  deriving DecidableEq, Repr

/-- `common::RedisConfig`. -/
structure RedisConfig where
  host : Bytes
  port : UInt16 := redisPort
  user : Bytes
  password : Bytes
  deriving DecidableEq, Repr

/-- `common::parseLogConfig`. -/
def parseLogConfig (node : NodeView) : Except Bytes LogConfig :=
  match (node.sub severityParameter).asString with
  | none => .ok {}
  | some severity =>
    if severity ∈ severities then .ok ⟨severity⟩
    else .error (ascii "Log config has no proper severity parameter")

/-- `common::parseMessagesConfig`. -/
def parseMessagesConfig (node : NodeView) : Except Bytes MessagesConfig := do
  let typeValue ← nonEmptyString node typeParameter
    (ascii "Messages config has no proper type parameter")
  if typeValue = ascii "json" then return ⟨.json⟩
  else if typeValue = ascii "flatbuffers" then return ⟨.flatbuffers⟩
  else throw (ascii "Messages config has wrong type value: " ++ typeValue)

/-- `common::parsePostgresConfig`. -/
def parsePostgresConfig (node : NodeView) : Except Bytes PostgresConfig := do
  let host ← nonEmptyString node hostParameter
    (ascii "Postgres config has no proper host parameter")
  let port ← optionalInteger node portParameter minPort maxPort
    (ascii "Postgres config has wrong port value: ")
  let database ← nonEmptyString node databaseParameter
    (ascii "Postgres config has no proper database parameter")
  let user ← nonEmptyString node userParameter
    (ascii "Postgres config has no proper user parameter")
  let password ← anyString node passwordParameter
    (ascii "Postgres config has no proper password parameter")
  return ⟨host, (port.map toUInt16).getD postgresPort, database, user, password⟩

/-- `common::parseRedisConfig`. -/
def parseRedisConfig (node : NodeView) : Except Bytes RedisConfig := do
  let host ← nonEmptyString node hostParameter (ascii "Redis config has no proper host parameter")
  let port ← optionalInteger node portParameter minPort maxPort
    (ascii "Redis config has wrong port value: ")
  let user ← nonEmptyString node userParameter (ascii "Redis config has no proper user parameter")
  let password ← anyString node passwordParameter
    (ascii "Redis config has no proper password parameter")
  return ⟨host, (port.map toUInt16).getD redisPort, user, password⟩

/-! ### What is taken of one value -/

/-- The node is a string that is not empty. -/
def IsNonEmptyString (node : NodeView) : Prop := ∃ s, node = some (.string s) ∧ s ≠ []

/-- The node is a string. -/
def IsString (node : NodeView) : Prop := ∃ s, node = some (.string s)

/-- The node is an integer within bounds. -/
def IsWithin (min max : ℤ) (node : NodeView) : Prop :=
  ∃ n, node = some (.integer n) ∧ min ≤ n.toInt ∧ n.toInt ≤ max

/-- The node is not an integer out of bounds; it may be anything else. -/
def NotBeyond (min max : ℤ) (node : NodeView) : Prop :=
  ∀ n, node = some (.integer n) → min ≤ n.toInt ∧ n.toInt ≤ max

variable {node : NodeView} {key message missing s : Bytes} {min max : ℤ} {n k : Int64}

theorem nonEmptyString_ok_iff :
    nonEmptyString node key message = .ok s ↔ node.sub key = some (.string s) ∧ s ≠ [] := by
  unfold nonEmptyString
  cases hs : (node.sub key).asString with
  | none =>
    simp only [reduceCtorEq, ← NodeView.asString_eq_some, hs, false_and]
  | some t =>
    simp only [← NodeView.asString_eq_some, hs, Option.some.injEq]
    split_ifs with hempty
    · simp only [false_iff, not_and, not_not]
      rintro rfl
      exact hempty
    · simp only [Except.ok.injEq, iff_self_and]
      rintro rfl
      exact hempty

theorem anyString_ok_iff :
    anyString node key message = .ok s ↔ node.sub key = some (.string s) := by
  unfold anyString
  cases hs : (node.sub key).asString with
  | none => simp only [reduceCtorEq, ← NodeView.asString_eq_some, hs]
  | some t => simp only [← NodeView.asString_eq_some, hs, Except.ok.injEq, Option.some.injEq]

theorem checkRange_ok_iff :
    checkRange min max message n = .ok k ↔ n = k ∧ min ≤ k.toInt ∧ k.toInt ≤ max := by
  unfold checkRange
  split_ifs with hbounds
  · simp only [false_iff, not_and]
    rintro rfl
    omega
  · simp only [Except.ok.injEq, iff_self_and]
    rintro rfl
    omega

theorem requiredInteger_ok_iff :
    requiredInteger node key missing min max message = .ok n ↔
      node.sub key = some (.integer n) ∧ min ≤ n.toInt ∧ n.toInt ≤ max := by
  unfold requiredInteger
  cases hn : (node.sub key).asInteger with
  | none => simp only [reduceCtorEq, ← NodeView.asInteger_eq_some, hn, false_and]
  | some k => simp only [← NodeView.asInteger_eq_some, hn, checkRange_ok_iff, Option.some.injEq]

theorem optionalInteger_ok_iff {r : Option Int64} :
    optionalInteger node key min max message = .ok r ↔
      (node.sub key).asInteger = r ∧ NotBeyond min max (node.sub key) := by
  unfold optionalInteger NotBeyond
  cases hn : (node.sub key).asInteger with
  | none => simp [← NodeView.asInteger_eq_some, hn]
  | some k =>
    simp only [← NodeView.asInteger_eq_some, hn, Option.some.injEq, forall_eq']
    cases hcheck : checkRange min max message k with
    | error e =>
      have hno : ¬ (min ≤ k.toInt ∧ k.toInt ≤ max) := by
        intro hbounds
        rw [checkRange_ok_iff.2 ⟨rfl, hbounds⟩] at hcheck
        cases hcheck
      simp [Except.map, hno]
    | ok n =>
      obtain ⟨rfl, hbounds⟩ := checkRange_ok_iff.1 hcheck
      simp [Except.map, hbounds]

/-- Within these bounds the cast loses nothing. -/
theorem toUInt16_toNat (h : 0 ≤ n.toInt) (h' : n.toInt < 65536) :
    ((toUInt16 n).toNat : ℤ) = n.toInt := by
  have hnat : n.toUInt64.toNat = n.toInt.toNat :=
    Int64.toNat_toUInt64_of_le (Int64.le_iff_toInt_le.2 h)
  rw [toUInt16, UInt64.toNat_toUInt16, hnat]
  omega

/-- Within these bounds the cast loses nothing. -/
theorem toUInt32_toNat (h : 0 ≤ n.toInt) (h' : n.toInt < 4294967296) :
    ((toUInt32 n).toNat : ℤ) = n.toInt := by
  have hnat : n.toUInt64.toNat = n.toInt.toNat :=
    Int64.toNat_toUInt64_of_le (Int64.le_iff_toInt_le.2 h)
  rw [toUInt32, UInt64.toNat_toUInt32, hnat]
  omega

/-! ### What is taken of the parts -/

theorem parseLogConfig_ok_iff {config : LogConfig} :
    parseLogConfig node = .ok config ↔
      (∀ s, node.sub severityParameter = some (.string s) → s ∈ severities) ∧
      config.severity = (node.sub severityParameter).asString.getD (ascii "error") := by
  obtain ⟨severity⟩ := config
  unfold parseLogConfig
  cases hs : (node.sub severityParameter).asString with
  | none =>
    simp only [← NodeView.asString_eq_some, hs, reduceCtorEq, false_implies, implies_true, true_and,
      Except.ok.injEq, LogConfig.mk.injEq, Option.getD_none]
    exact eq_comm
  | some s =>
    simp only [← NodeView.asString_eq_some, hs, Option.some.injEq, forall_eq', Option.getD_some]
    split_ifs with hmem
    · simp only [Except.ok.injEq, LogConfig.mk.injEq, hmem, true_and]
      exact eq_comm
    · simp only [hmem, false_and]

theorem parseMessagesConfig_ok_iff {config : MessagesConfig} :
    parseMessagesConfig node = .ok config ↔
      (node.sub typeParameter = some (.string (ascii "json")) ∧ config.type = .json) ∨
      (node.sub typeParameter = some (.string (ascii "flatbuffers")) ∧
        config.type = .flatbuffers) := by
  obtain ⟨type⟩ := config
  simp only [parseMessagesConfig, bind_eq_ok, nonEmptyString_ok_iff]
  constructor
  · rintro ⟨typeValue, ⟨hnode, -⟩, hparse⟩
    split_ifs at hparse with hjson hflatbuffers
    · cases hparse
      exact Or.inl ⟨hjson ▸ hnode, rfl⟩
    · cases hparse
      exact Or.inr ⟨hflatbuffers ▸ hnode, rfl⟩
  · rintro (⟨hnode, rfl⟩ | ⟨hnode, rfl⟩)
    · exact ⟨_, ⟨hnode, by decide⟩, rfl⟩
    · exact ⟨_, ⟨hnode, by decide⟩, rfl⟩

theorem parsePostgresConfig_ok_iff {config : PostgresConfig} :
    parsePostgresConfig node = .ok config ↔
      (node.sub hostParameter = some (.string config.host) ∧ config.host ≠ []) ∧
      (NotBeyond minPort maxPort (node.sub portParameter) ∧
        config.port = ((node.sub portParameter).asInteger.map toUInt16).getD postgresPort) ∧
      (node.sub databaseParameter = some (.string config.database) ∧ config.database ≠ []) ∧
      (node.sub userParameter = some (.string config.user) ∧ config.user ≠ []) ∧
      node.sub passwordParameter = some (.string config.password) := by
  simp only [parsePostgresConfig, bind_eq_ok, pure_eq_ok, nonEmptyString_ok_iff,
    optionalInteger_ok_iff, anyString_ok_iff]
  constructor
  · rintro ⟨host, hhost, port, ⟨rfl, hport⟩, database, hdatabase, user, huser, password, hpassword,
      rfl⟩
    exact ⟨hhost, ⟨hport, rfl⟩, hdatabase, huser, hpassword⟩
  · rintro ⟨hhost, ⟨hport, hcast⟩, hdatabase, huser, hpassword⟩
    refine ⟨_, hhost, _, ⟨rfl, hport⟩, _, hdatabase, _, huser, _, hpassword, ?_⟩
    rw [← hcast]

theorem parseRedisConfig_ok_iff {config : RedisConfig} :
    parseRedisConfig node = .ok config ↔
      (node.sub hostParameter = some (.string config.host) ∧ config.host ≠ []) ∧
      (NotBeyond minPort maxPort (node.sub portParameter) ∧
        config.port = ((node.sub portParameter).asInteger.map toUInt16).getD redisPort) ∧
      (node.sub userParameter = some (.string config.user) ∧ config.user ≠ []) ∧
      node.sub passwordParameter = some (.string config.password) := by
  simp only [parseRedisConfig, bind_eq_ok, pure_eq_ok, nonEmptyString_ok_iff,
    optionalInteger_ok_iff, anyString_ok_iff]
  constructor
  · rintro ⟨host, hhost, port, ⟨rfl, hport⟩, user, huser, password, hpassword, rfl⟩
    exact ⟨hhost, ⟨hport, rfl⟩, huser, hpassword⟩
  · rintro ⟨hhost, ⟨hport, hcast⟩, huser, hpassword⟩
    refine ⟨_, hhost, _, ⟨rfl, hport⟩, _, huser, _, hpassword, ?_⟩
    rw [← hcast]

/-- The part is a `LogConfig`: its severity, if it is a string, is one of the known. -/
def TakesLog (node : NodeView) : Prop :=
  ∀ s, node.sub severityParameter = some (.string s) → s ∈ severities

/-- The part is a `MessagesConfig`. -/
def TakesMessages (node : NodeView) : Prop :=
  node.sub typeParameter = some (.string (ascii "json")) ∨
    node.sub typeParameter = some (.string (ascii "flatbuffers"))

/-- The part is a `PostgresConfig`. -/
structure TakesPostgres (node : NodeView) : Prop where
  host : IsNonEmptyString (node.sub hostParameter)
  port : NotBeyond minPort maxPort (node.sub portParameter)
  database : IsNonEmptyString (node.sub databaseParameter)
  user : IsNonEmptyString (node.sub userParameter)
  password : IsString (node.sub passwordParameter)

/-- The part is a `RedisConfig`. -/
structure TakesRedis (node : NodeView) : Prop where
  host : IsNonEmptyString (node.sub hostParameter)
  port : NotBeyond minPort maxPort (node.sub portParameter)
  user : IsNonEmptyString (node.sub userParameter)
  password : IsString (node.sub passwordParameter)

theorem exists_parseLogConfig_iff :
    (∃ config, parseLogConfig node = .ok config) ↔ TakesLog node := by
  simp only [parseLogConfig_ok_iff, TakesLog]
  exact ⟨fun h => h.elim fun _ h => h.1, fun h => ⟨⟨_⟩, h, rfl⟩⟩

theorem exists_parseMessagesConfig_iff :
    (∃ config, parseMessagesConfig node = .ok config) ↔ TakesMessages node := by
  simp only [parseMessagesConfig_ok_iff, TakesMessages]
  constructor
  · rintro ⟨config, ⟨hjson, -⟩ | ⟨hflatbuffers, -⟩⟩
    · exact Or.inl hjson
    · exact Or.inr hflatbuffers
  · rintro (hjson | hflatbuffers)
    · exact ⟨⟨.json⟩, Or.inl ⟨hjson, rfl⟩⟩
    · exact ⟨⟨.flatbuffers⟩, Or.inr ⟨hflatbuffers, rfl⟩⟩

theorem exists_parsePostgresConfig_iff :
    (∃ config, parsePostgresConfig node = .ok config) ↔ TakesPostgres node := by
  simp only [parsePostgresConfig_ok_iff]
  constructor
  · rintro ⟨config, hhost, ⟨hport, -⟩, hdatabase, huser, hpassword⟩
    exact ⟨⟨_, hhost⟩, hport, ⟨_, hdatabase⟩, ⟨_, huser⟩, ⟨_, hpassword⟩⟩
  · rintro ⟨⟨host, hhost⟩, hport, ⟨database, hdatabase⟩, ⟨user, huser⟩, ⟨password, hpassword⟩⟩
    exact ⟨⟨host, _, database, user, password⟩, hhost, ⟨hport, rfl⟩, hdatabase, huser, hpassword⟩

theorem exists_parseRedisConfig_iff :
    (∃ config, parseRedisConfig node = .ok config) ↔ TakesRedis node := by
  simp only [parseRedisConfig_ok_iff]
  constructor
  · rintro ⟨config, hhost, ⟨hport, -⟩, huser, hpassword⟩
    exact ⟨⟨_, hhost⟩, hport, ⟨_, huser⟩, ⟨_, hpassword⟩⟩
  · rintro ⟨⟨host, hhost⟩, hport, ⟨user, huser⟩, ⟨password, hpassword⟩⟩
    exact ⟨⟨host, _, user, password⟩, hhost, ⟨hport, rfl⟩, huser, hpassword⟩

/-! ### What is taken of tables -/

variable {α : Type} {parse : NodeView → Except Bytes α}

/-- What an optional part makes of a field that holds `old`. -/
def Fills (parse : NodeView → Except Bytes α) (node : NodeView) (old field : α) : Prop :=
  (node = none ∧ field = old) ∨ (node ≠ none ∧ parse node = .ok field)

/-- What an optional part makes of a field that holds nothing. -/
def FillsOption (parse : NodeView → Except Bytes α) (node : NodeView) (field : Option α) : Prop :=
  Fills (fun node => (parse node).map some) node none field

theorem ifPresent_ok_iff {old field : α} :
    ifPresent node parse old = .ok field ↔ Fills parse node old field := by
  cases node <;> simp [ifPresent, Fills, @eq_comm _ field]

theorem exists_fills_iff {old : α} :
    (∃ field, Fills parse node old field) ↔ (node ≠ none → ∃ a, parse node = .ok a) := by
  cases node <;> simp [Fills]

theorem FillsOption.isSome_iff {field : Option α} (h : FillsOption parse node field) :
    field.isSome = true ↔ node ≠ none := by
  rcases h with ⟨rfl, rfl⟩ | ⟨hnode, hparse⟩
  · simp
  · obtain ⟨a, -, rfl⟩ := map_eq_ok.1 hparse
    simpa using hnode

theorem exists_fillsOption_iff :
    (∃ field, FillsOption parse node field) ↔ (node ≠ none → ∃ a, parse node = .ok a) := by
  simp only [FillsOption, exists_fills_iff, map_eq_ok]
  exact ⟨fun h hnode => (h hnode).elim fun _ ⟨a, ha, _⟩ => ⟨a, ha⟩,
    fun h hnode => (h hnode).elim fun a ha => ⟨_, a, ha, rfl⟩⟩

/-- A part that is present fills the field. -/
theorem Fills.of_ne_none {old field : α} (h : Fills parse node old field) (hnode : node ≠ none) :
    parse node = .ok field := by
  rcases h with ⟨hnone, -⟩ | ⟨-, hparse⟩
  · exact absurd hnone hnode
  · exact hparse

theorem FillsOption.of_ne_none {field : Option α} (h : FillsOption parse node field)
    (hnode : node ≠ none) : ∃ a, parse node = .ok a ∧ field = some a :=
  map_eq_ok.1 (Fills.of_ne_none h hnode)

theorem required_ok_iff {a : α} :
    required node missing parse = .ok a ↔ node ≠ none ∧ parse node = .ok a := by
  cases node <;> simp [required]

theorem check_ok_iff {ok : Bool} {u : Unit} : check ok message = .ok u ↔ ok = true := by
  cases ok <;> simp [check]

/-! ### What a value that is present does -/

/-- A field for an optional integer holds the value that is present if it is an integer, and the
default if it is not; `cast` loses nothing within the bounds. -/
theorem field_eq_of_integer {cast : Int64 → α} {toNat : α → ℕ} {default : α} {v : Toml}
    (hcast : ∀ n : Int64, min ≤ n.toInt → n.toInt ≤ max → (toNat (cast n) : ℤ) = n.toInt)
    (hbounds : NotBeyond min max (some v)) :
    Toml.integer (Int64.ofNat (toNat (((NodeView.asInteger (some v)).map cast).getD default))) =
      if v.isInteger = true then v else .integer (Int64.ofNat (toNat default)) := by
  cases v with
  | integer n =>
    obtain ⟨hmin, hmax⟩ := hbounds n rfl
    have hvalue := hcast n hmin hmax
    have hlt := n.toInt_lt
    have hcopy : Int64.ofNat (toNat (cast n)) = n := by
      refine Int64.toInt_inj.1 ?_
      rw [Int64.toInt_ofNat_of_lt (by omega), hvalue]
    simp only [NodeView.asInteger, Option.map_some, Option.getD_some, hcopy, Toml.isInteger,
      if_true]
  | _ => rfl

/-- A field of 16 bits for an optional integer. -/
theorem uint16_field_eq {field default : UInt16} {v : Toml} (hmin : 0 ≤ min) (hmax : max < 65536)
    (hv : node = some v) (hbounds : NotBeyond min max node)
    (hfield : field = (node.asInteger.map toUInt16).getD default) :
    Toml.integer (Int64.ofNat field.toNat) =
      if v.isInteger = true then v else .integer (Int64.ofNat default.toNat) := by
  subst hv hfield
  exact field_eq_of_integer (fun n _ _ => toUInt16_toNat (by omega) (by omega)) hbounds

/-- The severity is the value that is present if it is a string. -/
theorem severity_eq {config : LogConfig} {v : Toml} (hv : node.sub severityParameter = some v)
    (h : parseLogConfig node = .ok config) :
    Toml.string config.severity = if v.isString = true then v else .string (ascii "error") := by
  obtain ⟨-, hseverity⟩ := parseLogConfig_ok_iff.1 h
  rw [hv] at hseverity
  rw [hseverity]
  cases v <;> rfl

/-- The port of `postgres` is the value that is present if it is an integer. -/
theorem postgres_port_eq {config : PostgresConfig} {v : Toml}
    (hv : node.sub portParameter = some v) (h : parsePostgresConfig node = .ok config) :
    Toml.integer (Int64.ofNat config.port.toNat) =
      if v.isInteger = true then v else .integer (Int64.ofNat postgresPort.toNat) := by
  obtain ⟨-, ⟨hbounds, hport⟩, -⟩ := parsePostgresConfig_ok_iff.1 h
  exact uint16_field_eq (by decide) (by decide) hv hbounds hport

/-- The port of `redis` is the value that is present if it is an integer. -/
theorem redis_port_eq {config : RedisConfig} {v : Toml}
    (hv : node.sub portParameter = some v) (h : parseRedisConfig node = .ok config) :
    Toml.integer (Int64.ofNat config.port.toNat) =
      if v.isInteger = true then v else .integer (Int64.ofNat redisPort.toNat) := by
  obtain ⟨-, ⟨hbounds, hport⟩, -⟩ := parseRedisConfig_ok_iff.1 h
  exact uint16_field_eq (by decide) (by decide) hv hbounds hport

end Common

end GatewayPoc
