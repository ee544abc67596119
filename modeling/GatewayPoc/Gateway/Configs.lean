import GatewayPoc.GwBack.Config
import GatewayPoc.GwFront.Config
import Mathlib.Tactic.SplitIfs

/-!
# Optional parameters

What becomes of a value that a document gives to an optional parameter of one of the two programs.

* `OptionalParameter` : where the value stands, the kind that is looked for, and the field it goes
  to.  `GwBack.optionalParameters` and `GwFront.optionalParameters` are those of the programs.
* `GwBack.holds_of_given`, `GwFront.holds_of_given` : in a configuration that is taken, the field
  holds the value if the value has this kind, and else the default.
* `used_or_rejected_iff` : **a value is used or rejected exactly if it has the kind that is looked
  for**, or something else in the document is rejected.
-/

namespace GatewayPoc

open Common

/-- An optional parameter of a program with the configuration `C`; the field is given as a value of
a document, and is nothing if its part is absent. -/
structure OptionalParameter (C : Type) where
  table : Bytes
  key : Bytes
  isKind : Toml → Bool
  default : Toml
  /-- The default has the kind that is looked for. -/
  default_isKind : isKind default = true
  field : C → Option Toml

namespace OptionalParameter

variable {C : Type} {document : NodeView} {v : Toml} {p : OptionalParameter C} {config : C}

/-- The value that a document gives to a parameter. -/
def given (p : OptionalParameter C) (document : NodeView) : NodeView :=
  (document.sub p.table).sub p.key

/-- The field of a parameter that was given `v`: this value, or the default. -/
def Holds (p : OptionalParameter C) (v : Toml) (config : C) : Prop :=
  p.field config = some (if p.isKind v = true then v else p.default)

/-- The default takes the place of a value of another kind, and is not this value. -/
theorem Holds.field_eq_iff (h : p.Holds v config) :
    p.field config = some v ↔ p.isKind v = true := by
  rw [h, Option.some_inj]
  split_ifs with hkind
  · simp only [hkind]
  · simp only [hkind, iff_false, Bool.false_eq_true]
    rintro rfl
    exact hkind p.default_isKind

/-- Whoever takes the documents `Takes` uses or rejects the values of the right kind. -/
theorem used_or_rejected {result : Except Bytes C} {Takes : Prop}
    (htakes : (∃ config, result = .ok config) ↔ Takes)
    (hfield : ∀ config, result = .ok config → p.Holds v config) :
    (∀ config, result = .ok config → p.field config = some v) ↔ (Takes → p.isKind v = true) := by
  constructor
  · intro hused h
    obtain ⟨config, hconfig⟩ := htakes.2 h
    exact (hfield config hconfig).field_eq_iff.1 (hused config hconfig)
  · intro hkind config hconfig
    exact (hfield config hconfig).field_eq_iff.2 (hkind (htakes.1 ⟨config, hconfig⟩))

/-! ### The shared parameters -/

/-- `log.severity`. -/
def severity (log : C → LogConfig) : OptionalParameter C where
  table := logConfigTable
  key := severityParameter
  isKind := Toml.isString
  default := .string (ascii "error")
  default_isKind := rfl
  field config := some (.string (log config).severity)

/-- `postgres.port`. -/
def postgresPort (postgres : C → Option PostgresConfig) : OptionalParameter C where
  table := postgresConfigTable
  key := portParameter
  isKind := Toml.isInteger
  default := .integer 5432
  default_isKind := rfl
  field config := (postgres config).map fun part => .integer (Int64.ofNat part.port.toNat)

/-- `redis.port`. -/
def redisPort (redis : C → Option Common.RedisConfig) : OptionalParameter C where
  table := redisConfigTable
  key := portParameter
  isKind := Toml.isInteger
  default := .integer 6379
  default_isKind := rfl
  field config := (redis config).map fun part => .integer (Int64.ofNat part.port.toNat)

/-- A key is present only in a table that is. -/
theorem ne_none_of_given (hv : p.given document = some v) : document.sub p.table ≠ none := by
  intro hnone
  rw [given, hnone] at hv
  cases hv

theorem severity_holds {log : C → LogConfig} (hv : (severity log).given document = some v)
    (hlog : Fills parseLogConfig (document.sub logConfigTable) {} (log config)) :
    (severity log).Holds v config :=
  congrArg some (severity_eq hv (hlog.of_ne_none (ne_none_of_given hv)))

theorem postgresPort_holds {postgres : C → Option PostgresConfig}
    (hv : (postgresPort postgres).given document = some v)
    (hpostgres : FillsOption parsePostgresConfig (document.sub postgresConfigTable)
      (postgres config)) : (postgresPort postgres).Holds v config := by
  obtain ⟨part, hpart, hfield⟩ := hpostgres.of_ne_none (ne_none_of_given hv)
  simp only [Holds, postgresPort, hfield, Option.map_some]
  exact congrArg some (postgres_port_eq hv hpart)

theorem redisPort_holds {redis : C → Option Common.RedisConfig}
    (hv : (redisPort redis).given document = some v)
    (hredis : FillsOption parseRedisConfig (document.sub redisConfigTable) (redis config)) :
    (redisPort redis).Holds v config := by
  obtain ⟨part, hpart, hfield⟩ := hredis.of_ne_none (ne_none_of_given hv)
  simp only [Holds, redisPort, hfield, Option.map_some]
  exact congrArg some (redis_port_eq hv hpart)

end OptionalParameter

/-! ### The two programs -/

/-- `consumer.chunk_size`. -/
def GwBack.consumerChunkSize : OptionalParameter GwBack.Config where
  table := GwBack.consumerConfigTable
  key := GwBack.chunkSizeParameter
  isKind := Toml.isInteger
  default := .integer 1000
  default_isKind := rfl
  field config := some (.integer (Int64.ofNat config.consumer.chunkSize.toNat))

/-- `producer.chunk_size`. -/
def GwBack.producerChunkSize : OptionalParameter GwBack.Config where
  table := GwBack.producerConfigTable
  key := GwBack.chunkSizeParameter
  isKind := Toml.isInteger
  default := .integer 1000
  default_isKind := rfl
  field config := some (.integer (Int64.ofNat config.producer.chunkSize.toNat))

/-- `http.request_timeout`. -/
def GwFront.httpRequestTimeout : OptionalParameter GwFront.Config where
  table := GwFront.httpConfigTable
  key := GwFront.requestTimeoutParameter
  isKind := Toml.isInteger
  default := .integer 10
  default_isKind := rfl
  field config := some (.integer (Int64.ofNat config.http.requestTimeout.toNat))

/-- The optional parameters of the back end. -/
def GwBack.optionalParameters : List (OptionalParameter GwBack.Config) :=
  [.severity Config.log, .postgresPort Config.postgres, .redisPort Config.redis, consumerChunkSize,
    producerChunkSize]

/-- The optional parameters of the front end. -/
def GwFront.optionalParameters : List (OptionalParameter GwFront.Config) :=
  [.severity Config.log, .postgresPort Config.postgres, .redisPort Config.redis, httpRequestTimeout]

variable {document : NodeView} {v : Toml}

/-- What a configuration of the back end holds for a value that is given. -/
theorem GwBack.holds_of_given {config : GwBack.Config}
    (h : GwBack.fillConfig .initial document = .ok config) {p : OptionalParameter GwBack.Config}
    (hp : p ∈ GwBack.optionalParameters) (hv : p.given document = some v) : p.Holds v config := by
  obtain ⟨hlog, hpostgres, hredis, -, ⟨-, hconsumer⟩, -, hproducer⟩ := GwBack.fillConfig_ok_iff.1 h
  simp only [GwBack.optionalParameters, List.mem_cons, List.not_mem_nil, or_false] at hp
  rcases hp with rfl | rfl | rfl | rfl | rfl
  · exact OptionalParameter.severity_holds hv hlog
  · exact OptionalParameter.postgresPort_holds hv hpostgres
  · exact OptionalParameter.redisPort_holds hv hredis
  · obtain ⟨⟨hbounds, hchunk⟩, -⟩ := GwBack.parseConsumerConfig_ok_iff.1 hconsumer
    exact congrArg some (GwBack.chunkSize_eq hv hbounds hchunk)
  · obtain ⟨hbounds, hchunk⟩ := GwBack.parseProducerConfig_ok_iff.1 hproducer
    exact congrArg some (GwBack.chunkSize_eq hv hbounds hchunk)

/-- What a configuration of the front end holds for a value that is given. -/
theorem GwFront.holds_of_given {messages : MessagesConfig} {http : GwFront.HttpServerConfig}
    {config : GwFront.Config}
    (h : GwFront.fillConfig (.initial messages http) document = .ok config)
    {p : OptionalParameter GwFront.Config} (hp : p ∈ GwFront.optionalParameters)
    (hv : p.given document = some v) : p.Holds v config := by
  obtain ⟨hlog, -, ⟨-, hhttp⟩, hpostgres, hredis, -⟩ := GwFront.fillConfig_ok_iff.1 h
  simp only [GwFront.optionalParameters, List.mem_cons, List.not_mem_nil, or_false] at hp
  rcases hp with rfl | rfl | rfl | rfl
  · exact OptionalParameter.severity_holds hv hlog
  · exact OptionalParameter.postgresPort_holds hv hpostgres
  · exact OptionalParameter.redisPort_holds hv hredis
  · exact congrArg some (GwFront.requestTimeout_eq hv hhttp)

variable {parseFile : Bytes → Except Bytes (List (Bytes × Toml))} {filePath : Bytes}
  {tomlTable : List (Bytes × Toml)}

theorem GwBack.parseConfig_of_ok (h : parseFile filePath = .ok tomlTable)
    (config : GwBack.Config) : GwBack.parseConfig parseFile filePath config =
      GwBack.fillConfig config (some (.table tomlTable)) := by
  rw [GwBack.parseConfig, h]
  rfl

theorem GwFront.parseConfig_of_ok (h : parseFile filePath = .ok tomlTable)
    (config : GwFront.Config) : GwFront.parseConfig parseFile filePath config =
      GwFront.fillConfig config (some (.table tomlTable)) := by
  rw [GwFront.parseConfig, h]
  rfl

/-- **A value that is given is used or rejected exactly if it has the kind that is looked for**, or
something else makes the program reject the document. -/
theorem used_or_rejected_iff (h : parseFile filePath = .ok tomlTable) :
    (∀ p ∈ GwBack.optionalParameters, ∀ v, p.given (some (.table tomlTable)) = some v →
      ((∀ config, GwBack.parseConfig parseFile filePath .initial = .ok config →
        p.field config = some v) ↔
      (GwBack.Takes (some (.table tomlTable)) → p.isKind v = true))) ∧
    (∀ p ∈ GwFront.optionalParameters, ∀ v, p.given (some (.table tomlTable)) = some v →
      ∀ messages http, ((∀ config,
        GwFront.parseConfig parseFile filePath (.initial messages http) = .ok config →
        p.field config = some v) ↔
      (GwFront.Takes (some (.table tomlTable)) → p.isKind v = true))) := by
  constructor
  · intro p hp v hv
    rw [GwBack.parseConfig_of_ok h]
    exact OptionalParameter.used_or_rejected GwBack.exists_fillConfig_iff fun config hconfig =>
      GwBack.holds_of_given hconfig hp hv
  · intro p hp v hv messages http
    rw [GwFront.parseConfig_of_ok h]
    exact OptionalParameter.used_or_rejected GwFront.exists_fillConfig_iff fun config hconfig =>
      GwFront.holds_of_given hconfig hp hv

/-- A configuration file of the back end, with a value for `postgres.port`. -/
def sampleTable (port : Toml) : List (Bytes × Toml) :=
  [(postgresConfigTable, .table [(hostParameter, .string (ascii "localhost")),
      (portParameter, port), (databaseParameter, .string (ascii "gateway")),
      (userParameter, .string (ascii "gateway")), (passwordParameter, .string (ascii "secret"))]),
    (GwBack.consumerConfigTable,
      .table [(GwBack.outputFolderParameter, .string (ascii "/var/lib/gateway"))]),
    (GwBack.producerConfigTable, .table [])]

/-- `toml::parse_file` of a file with this document. -/
def sampleFile (port : Toml) : Bytes → Except Bytes (List (Bytes × Toml)) :=
  fun _ => .ok (sampleTable port)

/-- What is read from it. -/
def sampleBackConfig (port : UInt16) : GwBack.Config :=
  ⟨{}, some ⟨ascii "localhost", port, ascii "gateway", ascii "gateway", ascii "secret"⟩, none,
    { outputFolder := ascii "/var/lib/gateway" }, {}⟩

theorem used_or_rejected_sample :
    (OptionalParameter.postgresPort GwBack.Config.postgres).field (sampleBackConfig 5433) =
      some (.integer 5433) := by
  have hfile : sampleFile (.integer 5433) [] = .ok (sampleTable (.integer 5433)) := rfl
  have hmem : .postgresPort GwBack.Config.postgres ∈ GwBack.optionalParameters :=
    List.mem_cons_of_mem _ List.mem_cons_self
  have hused := (used_or_rejected_iff hfile).1 _ hmem (.integer 5433) rfl
  exact hused.2 (fun _ => rfl) (sampleBackConfig 5433) rfl

/-- A port that is written as a string is replaced by the default. -/
theorem string_port_replaced :
    (OptionalParameter.postgresPort GwBack.Config.postgres).given
        (some (.table (sampleTable (.string (ascii "5433"))))) = some (.string (ascii "5433")) ∧
      GwBack.parseConfig (sampleFile (.string (ascii "5433"))) [] .initial =
        .ok (sampleBackConfig 5432) ∧
      (OptionalParameter.postgresPort GwBack.Config.postgres).field (sampleBackConfig 5432) ≠
        some (.string (ascii "5433")) :=
  ⟨rfl, rfl, by rintro ⟨⟩⟩

end GatewayPoc
