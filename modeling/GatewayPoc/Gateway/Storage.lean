import GatewayPoc.Gateway.Configs

/-!
# The storage both programs use

`makeHandler` of `gwfront/src/main.cpp` and `main` of `gwback/src/main.cpp` look at the parts of
their configurations that were filled in.  PostgreSQL goes first, and Redis is taken without asking
whether it is there: an empty optional would be dereferenced.

* `GwFront.makeHandler`, `GwBack.makeProducer` : what is made of a configuration.
* `StorageOf` : the storage of a document.
* **`same_storage`** : documents with the same storage tables make both programs use the same
  storage, and no empty optional is dereferenced.
-/

namespace GatewayPoc

open Common

/-- The storage of a program. -/
inductive Storage where
  | postgres (config : PostgresConfig)
  | redis (config : Common.RedisConfig)
  deriving DecidableEq, Repr

/-- The handlers of the front end: `UniversalHandler` with a checker and a writer. -/
structure Handler where
  checker : MessagesType
  writer : Storage
  deriving DecidableEq, Repr

/-- `makeHandler`; `none` if an empty optional is dereferenced. -/
def GwFront.makeHandler (config : GwFront.Config) : Option Handler :=
  if config.messages.type = .json then
    match config.postgres with
    | some postgres => some ⟨.json, .postgres postgres⟩
    | none => config.redis.map fun redis => ⟨.json, .redis redis⟩
  else
    match config.postgres with
    | some postgres => some ⟨.flatbuffers, .postgres postgres⟩
    | none => config.redis.map fun redis => ⟨.flatbuffers, .redis redis⟩

/-- The producer that `main` of the back end makes; `none` if an empty optional is dereferenced. -/
def GwBack.makeProducer (config : GwBack.Config) : Option Storage :=
  match config.postgres with
  | some postgres => some (.postgres postgres)
  | none => config.redis.map .redis

/-! ### What a document makes of the storage -/

/-- The storage of a document: the first of the two tables that is there. -/
inductive StorageOf (document : NodeView) : Storage → Prop
  | postgres {config : PostgresConfig} (hnode : document.sub postgresConfigTable ≠ none)
      (hparse : parsePostgresConfig (document.sub postgresConfigTable) = .ok config) :
      StorageOf document (.postgres config)
  | redis {config : Common.RedisConfig} (hnone : document.sub postgresConfigTable = none)
      (hparse : parseRedisConfig (document.sub redisConfigTable) = .ok config) :
      StorageOf document (.redis config)

variable {document frontDocument backDocument : NodeView} {storage storage' : Storage}
  {postgres : Option PostgresConfig} {redis : Option Common.RedisConfig}

theorem StorageOf.unique (h : StorageOf document storage) (h' : StorageOf document storage') :
    storage = storage' := by
  cases h with
  | postgres hnode hparse =>
    cases h' with
    | postgres _ hparse' => rw [Except.ok.inj (hparse.symm.trans hparse')]
    | redis hnone _ => exact absurd hnone hnode
  | redis hnone hparse =>
    cases h' with
    | postgres hnode _ => exact absurd hnone hnode
    | redis _ hparse' => rw [Except.ok.inj (hparse.symm.trans hparse')]

/-- The optionals of a configuration that was taken say which storage its document has. -/
theorem storageOf_of_fills (hpostgres : FillsOption parsePostgresConfig
      (document.sub postgresConfigTable) postgres)
    (hredis : FillsOption parseRedisConfig (document.sub redisConfigTable) redis)
    (hstorage : postgres.isSome = true ∨ redis.isSome = true) :
    (∃ config, postgres = some config ∧ StorageOf document (.postgres config)) ∨
      (postgres = none ∧ ∃ config, redis = some config ∧ StorageOf document (.redis config)) := by
  by_cases hnode : document.sub postgresConfigTable = none
  · have hnone : postgres = none := by
      have hsome := hpostgres.isSome_iff
      simpa [hnode] using hsome
    have hnode' := hredis.isSome_iff.1 (by simpa [hnone] using hstorage)
    obtain ⟨config, hparse, rfl⟩ := hredis.of_ne_none hnode'
    exact Or.inr ⟨hnone, config, rfl, .redis hnode hparse⟩
  · obtain ⟨config, hparse, rfl⟩ := hpostgres.of_ne_none hnode
    exact Or.inl ⟨config, rfl, .postgres hnode hparse⟩

/-- The front end stores in the storage of its document, in the format of its configuration. -/
theorem GwFront.makeHandler_of_fillConfig {messages : MessagesConfig}
    {http : GwFront.HttpServerConfig} {config : GwFront.Config}
    (h : GwFront.fillConfig (.initial messages http) document = .ok config) :
    ∃ storage, GwFront.makeHandler config = some ⟨config.messages.type, storage⟩ ∧
      StorageOf document storage := by
  obtain ⟨-, -, -, hpostgres, hredis, hstorage⟩ := GwFront.fillConfig_ok_iff.1 h
  rcases storageOf_of_fills hpostgres hredis hstorage with
    ⟨config', hsome, hof⟩ | ⟨hnone, config', hsome, hof⟩
  · refine ⟨_, ?_, hof⟩
    cases htype : config.messages.type <;> simp [GwFront.makeHandler, htype, hsome]
  · refine ⟨_, ?_, hof⟩
    cases htype : config.messages.type <;> simp [GwFront.makeHandler, htype, hnone, hsome]

/-- The back end takes from the storage of its document. -/
theorem GwBack.makeProducer_of_fillConfig {config : GwBack.Config}
    (h : GwBack.fillConfig .initial document = .ok config) :
    ∃ storage, GwBack.makeProducer config = some storage ∧ StorageOf document storage := by
  obtain ⟨-, hpostgres, hredis, hstorage, -, -⟩ := GwBack.fillConfig_ok_iff.1 h
  rcases storageOf_of_fills hpostgres hredis hstorage with
    ⟨config', hsome, hof⟩ | ⟨hnone, config', hsome, hof⟩
  · exact ⟨_, by simp [GwBack.makeProducer, hsome], hof⟩
  · exact ⟨_, by simp [GwBack.makeProducer, hnone, hsome], hof⟩

/-- Documents with the same storage tables have the same storage. -/
theorem StorageOf.congr (h : StorageOf document storage)
    (hpostgres : document.sub postgresConfigTable = backDocument.sub postgresConfigTable)
    (hredis : document.sub redisConfigTable = backDocument.sub redisConfigTable) :
    StorageOf backDocument storage := by
  cases h with
  | postgres hnode hparse => exact .postgres (hpostgres ▸ hnode) (hpostgres ▸ hparse)
  | redis hnone hparse => exact .redis (hpostgres ▸ hnone) (hredis ▸ hparse)

/-! ### The numbers -/

/-- A chunk size that was taken. -/
theorem GwBack.chunkSize_bounds {node : NodeView} {chunkSize : UInt32}
    (hbounds : NotBeyond GwBack.minChunk GwBack.maxChunk (node.sub GwBack.chunkSizeParameter))
    (hchunk : chunkSize =
      ((node.sub GwBack.chunkSizeParameter).asInteger.map Common.toUInt32).getD 1000) :
    0 < chunkSize.toNat ∧ chunkSize.toNat ≤ 1000000 := by
  cases hnode : (node.sub GwBack.chunkSizeParameter).asInteger with
  | none =>
    rw [hnode] at hchunk
    subst hchunk
    decide
  | some n =>
    obtain ⟨hmin, hmax⟩ := hbounds n (NodeView.asInteger_eq_some.1 hnode)
    simp only [GwBack.minChunk, GwBack.maxChunk] at hmin hmax
    have hcast := toUInt32_toNat (n := n) (by omega) (by omega)
    rw [hnode] at hchunk
    subst hchunk
    simp only [Option.map_some, Option.getD_some]
    omega

/-- There is at least one worker. -/
theorem GwFront.threads_pos {node : NodeView} {http : GwFront.HttpServerConfig}
    (h : GwFront.parseHttpServerConfig node = .ok http) : 0 < http.threads.toNat := by
  obtain ⟨-, ⟨threads, ⟨-, hmin, hmax⟩, hcast⟩, -, -⟩ := GwFront.parseHttpServerConfig_ok_iff.1 h
  simp only [GwFront.minThreads, GwFront.maxThreads] at hmin hmax
  have hthreads := toUInt16_toNat (n := threads) (by omega) (by omega)
  rw [hcast]
  omega

/-- The numbers that both loops rest on. -/
structure Positive (front : GwFront.Config) (back : GwBack.Config) : Prop where
  threads : 0 < front.http.threads.toNat
  consumer : 0 < back.consumer.chunkSize.toNat ∧ back.consumer.chunkSize.toNat ≤ 1000000
  producer : 0 < back.producer.chunkSize.toNat ∧ back.producer.chunkSize.toNat ≤ 1000000

/-! ### Both programs -/

variable {parseFile : Bytes → Except Bytes (List (Bytes × Toml))} {frontPath backPath : Bytes}
  {frontTable backTable : List (Bytes × Toml)} {messages : MessagesConfig}
  {http : GwFront.HttpServerConfig} {front : GwFront.Config} {back : GwBack.Config}

/-- **Both programs use the same storage.**  For all configuration files that the two programs
take, if their documents have the same tables `postgres` and `redis`: the front end makes a handler
for the format of its file and the back end a producer, both of the same storage with the same
parameters, which is PostgreSQL if its table is there; no empty optional is dereferenced; there is a
worker, and the chunk sizes are from 1 to 1000000. -/
theorem same_storage (hfrontFile : parseFile frontPath = .ok frontTable)
    (hbackFile : parseFile backPath = .ok backTable)
    (hfront : GwFront.parseConfig parseFile frontPath (.initial messages http) = .ok front)
    (hback : GwBack.parseConfig parseFile backPath .initial = .ok back)
    (hpostgres : NodeView.sub (some (.table frontTable)) postgresConfigTable =
      NodeView.sub (some (.table backTable)) postgresConfigTable)
    (hredis : NodeView.sub (some (.table frontTable)) redisConfigTable =
      NodeView.sub (some (.table backTable)) redisConfigTable) :
    ∃ storage, GwFront.makeHandler front = some ⟨front.messages.type, storage⟩ ∧
      GwBack.makeProducer back = some storage ∧ StorageOf (some (.table frontTable)) storage ∧
      Positive front back := by
  rw [GwFront.parseConfig_of_ok hfrontFile] at hfront
  rw [GwBack.parseConfig_of_ok hbackFile] at hback
  obtain ⟨storage, hhandler, hof⟩ := GwFront.makeHandler_of_fillConfig hfront
  obtain ⟨storage', hproducer, hof'⟩ := GwBack.makeProducer_of_fillConfig hback
  obtain rfl := (hof.congr hpostgres hredis).unique hof'
  obtain ⟨-, -, ⟨-, hhttp⟩, -⟩ := GwFront.fillConfig_ok_iff.1 hfront
  obtain ⟨-, -, -, -, ⟨-, hconsumer⟩, -, hchunk⟩ := GwBack.fillConfig_ok_iff.1 hback
  obtain ⟨⟨hbounds, hsize⟩, -⟩ := GwBack.parseConsumerConfig_ok_iff.1 hconsumer
  obtain ⟨hbounds', hsize'⟩ := GwBack.parseProducerConfig_ok_iff.1 hchunk
  exact ⟨storage, hhandler, hproducer, hof, GwFront.threads_pos hhttp,
    GwBack.chunkSize_bounds hbounds hsize, GwBack.chunkSize_bounds hbounds' hsize'⟩

/-- The document of the back end: both storage tables. -/
def sampleBackTable : List (Bytes × Toml) :=
  (redisConfigTable, .table [(hostParameter, .string (ascii "cache")),
    (userParameter, .string (ascii "gateway")), (passwordParameter, .string [])]) ::
    sampleTable (.integer 5433)

/-- The document of the front end: the tables of the back end, and its own. -/
def sampleFrontTable : List (Bytes × Toml) :=
  sampleBackTable ++ [(messagesConfigTable, .table [(typeParameter, .string (ascii "json"))]),
    (GwFront.httpConfigTable, .table [(portParameter, .integer 8080),
      (GwFront.threadsParameter, .integer 4)])]

/-- `toml::parse_file` of the two files. -/
def sampleFiles (path : Bytes) : Except Bytes (List (Bytes × Toml)) :=
  if path = [] then .ok sampleBackTable else .ok sampleFrontTable

theorem same_storage_sample : ∃ (front : GwFront.Config) (back : GwBack.Config) (storage : Storage),
    front.http.threads = 4 ∧ GwFront.makeHandler front = some ⟨.json, storage⟩ ∧
      GwBack.makeProducer back = some storage ∧ Positive front back := by
  let postgres : PostgresConfig :=
    ⟨ascii "localhost", 5433, ascii "gateway", ascii "gateway", ascii "secret"⟩
  let redis : Common.RedisConfig := ⟨ascii "cache", 6379, ascii "gateway", []⟩
  let front : GwFront.Config := ⟨{}, ⟨.json⟩, ⟨8080, 4, 10⟩, some postgres, some redis⟩
  let back : GwBack.Config :=
    ⟨{}, some postgres, some redis, { outputFolder := ascii "/var/lib/gateway" }, {}⟩
  have hfront : GwFront.parseConfig sampleFiles [102] (.initial ⟨.flatbuffers⟩ ⟨0, 0, 0⟩) =
      .ok front := rfl
  have hback : GwBack.parseConfig sampleFiles [] .initial = .ok back := rfl
  have hfrontFile : sampleFiles [102] = .ok sampleFrontTable := rfl
  have hbackFile : sampleFiles [] = .ok sampleBackTable := rfl
  obtain ⟨storage, hhandler, hproducer, -, hpositive⟩ :=
    same_storage hfrontFile hbackFile hfront hback rfl rfl
  exact ⟨front, back, storage, rfl, hhandler, hproducer, hpositive⟩

end GatewayPoc
