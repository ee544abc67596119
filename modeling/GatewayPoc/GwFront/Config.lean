import GatewayPoc.Common.Config

/-!
# The configuration of the front end

`gwfront/src/utils/config.cpp`: `parseConfig` reads a file, and `fillConfig` goes through the tables
of the document.  The TOML parser is a parameter.

* `GwFront.fillConfig_ok_iff` : what is taken, part by part.
* `GwFront.exists_fillConfig_iff` : the documents that are taken, as a condition on the document.
-/

namespace GatewayPoc

namespace GwFront

open Common

/-- `HttpServerConfig`. -/
structure HttpServerConfig where
  port : UInt16
  threads : UInt16
  requestTimeout : UInt16 := 10
  deriving DecidableEq, Repr

/-- `Config` of the front end. -/
structure Config where
  log : LogConfig
  messages : MessagesConfig
  http : HttpServerConfig
  postgres : Option PostgresConfig
  redis : Option Common.RedisConfig
  deriving DecidableEq, Repr

/-- A `Config` that nothing was filled in; `messages` and `http` are not initialised. -/
def Config.initial (messages : MessagesConfig) (http : HttpServerConfig) : Config :=
  ⟨{}, messages, http, none, none⟩

/-- `HTTP_CONFIG_TABLE`. -/
def httpConfigTable : Bytes := ascii "http"

/-- `REQUEST_TIMEOUT_PARAMETER`. -/
def requestTimeoutParameter : Bytes := ascii "request_timeout"

/-- `THREADS_PARAMETER`. -/
def threadsParameter : Bytes := ascii "threads"

/-- `MIN_THREADS`. -/
def minThreads : ℤ := 1

/-- `MAX_THREADS`. -/
def maxThreads : ℤ := 16384

/-- `MIN_TIMEOUT`. -/
def minTimeout : ℤ := 1

/-- `MAX_TIMEOUT`. -/
def maxTimeout : ℤ := 600

/-- `parseHttpServerConfig`. -/
def parseHttpServerConfig (node : NodeView) : Except Bytes HttpServerConfig := do
  let port ← requiredInteger node portParameter
    (ascii "Http server config has no proper port parameter") minPort maxPort
    (ascii "Http server config has wrong port value: ")
  let threads ← requiredInteger node threadsParameter
    (ascii "Http server config has no proper threads parameter") minThreads maxThreads
    (ascii "Http server config has wrong threads value: ")
  let timeout ← optionalInteger node requestTimeoutParameter minTimeout maxTimeout
    (ascii "Http server config has wrong request timeout value: ")
  return ⟨Common.toUInt16 port, Common.toUInt16 threads, (timeout.map Common.toUInt16).getD 10⟩

/-- `fillConfig`. -/
def fillConfig (config : Config) (table : NodeView) : Except Bytes Config := do
  let log ← ifPresent (table.sub logConfigTable) parseLogConfig config.log
  let messages ← required (table.sub messagesConfigTable)
    (ascii "Config file has no messages config table") parseMessagesConfig
  let http ← required (table.sub httpConfigTable)
    (ascii "Config file has no http server config table") parseHttpServerConfig
  let postgres ← ifPresent (table.sub postgresConfigTable)
    (fun node => (parsePostgresConfig node).map some) config.postgres
  let redis ← ifPresent (table.sub redisConfigTable)
    (fun node => (parseRedisConfig node).map some) config.redis
  check (postgres.isSome || redis.isSome) (ascii "Config file has no storage config table")
  return ⟨log, messages, http, postgres, redis⟩

/-- `parseConfig`; `parseFile` is `toml::parse_file`, and an error is what goes to `std::cerr`. -/
def parseConfig (parseFile : Bytes → Except Bytes (List (Bytes × Toml))) (filePath : Bytes)
    (config : Config) : Except Bytes Config := do
  let tomlTable ← parseFile filePath
  fillConfig config (some (.table tomlTable))

/-! ### What is taken -/

variable {node table : NodeView} {config : Config} {messages : MessagesConfig}
  {http : HttpServerConfig}

theorem parseHttpServerConfig_ok_iff :
    parseHttpServerConfig node = .ok http ↔
      (∃ port, (node.sub portParameter = some (.integer port) ∧ minPort ≤ port.toInt ∧
        port.toInt ≤ maxPort) ∧ http.port = Common.toUInt16 port) ∧
      (∃ threads, (node.sub threadsParameter = some (.integer threads) ∧
        minThreads ≤ threads.toInt ∧ threads.toInt ≤ maxThreads) ∧
        http.threads = Common.toUInt16 threads) ∧
      NotBeyond minTimeout maxTimeout (node.sub requestTimeoutParameter) ∧
      http.requestTimeout =
        ((node.sub requestTimeoutParameter).asInteger.map Common.toUInt16).getD 10 := by
  simp only [parseHttpServerConfig, bind_eq_ok, pure_eq_ok, requiredInteger_ok_iff,
    optionalInteger_ok_iff]
  constructor
  · rintro ⟨port, hport, threads, hthreads, timeout, ⟨rfl, hbounds⟩, rfl⟩
    exact ⟨⟨port, hport, rfl⟩, ⟨threads, hthreads, rfl⟩, hbounds, rfl⟩
  · rintro ⟨⟨port, hport, hportCast⟩, ⟨threads, hthreads, hthreadsCast⟩, hbounds, htimeout⟩
    refine ⟨port, hport, threads, hthreads, _, ⟨rfl, hbounds⟩, ?_⟩
    rw [← hportCast, ← hthreadsCast, ← htimeout]

/-- What is made of a document, part by part. -/
theorem fillConfig_ok_iff :
    fillConfig (.initial messages http) table = .ok config ↔
      Fills parseLogConfig (table.sub logConfigTable) {} config.log ∧
      (table.sub messagesConfigTable ≠ none ∧
        parseMessagesConfig (table.sub messagesConfigTable) = .ok config.messages) ∧
      (table.sub httpConfigTable ≠ none ∧
        parseHttpServerConfig (table.sub httpConfigTable) = .ok config.http) ∧
      FillsOption parsePostgresConfig (table.sub postgresConfigTable) config.postgres ∧
      FillsOption parseRedisConfig (table.sub redisConfigTable) config.redis ∧
      (config.postgres.isSome = true ∨ config.redis.isSome = true) := by
  simp only [fillConfig, Config.initial, bind_eq_ok, pure_eq_ok, ifPresent_ok_iff, FillsOption,
    required_ok_iff, check_ok_iff, Bool.or_eq_true]
  constructor
  · rintro ⟨log, hlog, messages, hmessages, http, hhttp, postgres, hpostgres, redis, hredis, _,
      hstorage, rfl⟩
    exact ⟨hlog, hmessages, hhttp, hpostgres, hredis, hstorage⟩
  · rintro ⟨hlog, hmessages, hhttp, hpostgres, hredis, hstorage⟩
    exact ⟨_, hlog, _, hmessages, _, hhttp, _, hpostgres, _, hredis, (), hstorage, rfl⟩

/-- The part is an `HttpServerConfig`. -/
structure TakesHttp (node : NodeView) : Prop where
  port : IsWithin minPort maxPort (node.sub portParameter)
  threads : IsWithin minThreads maxThreads (node.sub threadsParameter)
  requestTimeout : NotBeyond minTimeout maxTimeout (node.sub requestTimeoutParameter)

/-- The document is a configuration of the front end.  What is not read may be anything, and so may
an optional value that has not the kind that is looked for. -/
structure Takes (table : NodeView) : Prop where
  log : table.sub logConfigTable ≠ none → TakesLog (table.sub logConfigTable)
  messages : table.sub messagesConfigTable ≠ none ∧
    TakesMessages (table.sub messagesConfigTable)
  http : table.sub httpConfigTable ≠ none ∧ TakesHttp (table.sub httpConfigTable)
  postgres : table.sub postgresConfigTable ≠ none → TakesPostgres (table.sub postgresConfigTable)
  redis : table.sub redisConfigTable ≠ none → TakesRedis (table.sub redisConfigTable)
  storage : table.sub postgresConfigTable ≠ none ∨ table.sub redisConfigTable ≠ none

theorem exists_parseHttpServerConfig_iff :
    (∃ http, parseHttpServerConfig node = .ok http) ↔ TakesHttp node := by
  simp only [parseHttpServerConfig_ok_iff]
  constructor
  · rintro ⟨http, ⟨port, hport, -⟩, ⟨threads, hthreads, -⟩, hbounds, -⟩
    exact ⟨⟨port, hport⟩, ⟨threads, hthreads⟩, hbounds⟩
  · rintro ⟨⟨port, hport⟩, ⟨threads, hthreads⟩, hbounds⟩
    exact ⟨⟨_, _, _⟩, ⟨port, hport, rfl⟩, ⟨threads, hthreads, rfl⟩, hbounds, rfl⟩

/-- **The documents that are taken.** -/
theorem exists_fillConfig_iff :
    (∃ config, fillConfig (.initial messages http) table = .ok config) ↔ Takes table := by
  simp only [fillConfig_ok_iff]
  constructor
  · rintro ⟨config, hlog, ⟨hmessages, hmessagesOk⟩, ⟨hhttp, hhttpOk⟩, hpostgres, hredis, hstorage⟩
    exact {
      log := fun hnode => exists_parseLogConfig_iff.1 (exists_fills_iff.1 ⟨_, hlog⟩ hnode)
      messages := ⟨hmessages, exists_parseMessagesConfig_iff.1 ⟨_, hmessagesOk⟩⟩
      http := ⟨hhttp, exists_parseHttpServerConfig_iff.1 ⟨_, hhttpOk⟩⟩
      postgres := fun hnode =>
        exists_parsePostgresConfig_iff.1 (exists_fillsOption_iff.1 ⟨_, hpostgres⟩ hnode)
      redis := fun hnode =>
        exists_parseRedisConfig_iff.1 (exists_fillsOption_iff.1 ⟨_, hredis⟩ hnode)
      storage := hstorage.imp hpostgres.isSome_iff.1 hredis.isSome_iff.1 }
  · intro h
    obtain ⟨log, hlog⟩ := exists_fills_iff.2 fun hnode => exists_parseLogConfig_iff.2 (h.log hnode)
    obtain ⟨messages, hmessages⟩ := exists_parseMessagesConfig_iff.2 h.messages.2
    obtain ⟨http, hhttp⟩ := exists_parseHttpServerConfig_iff.2 h.http.2
    obtain ⟨postgres, hpostgres⟩ := exists_fillsOption_iff.2 fun hnode =>
      exists_parsePostgresConfig_iff.2 (h.postgres hnode)
    obtain ⟨redis, hredis⟩ := exists_fillsOption_iff.2 fun hnode =>
      exists_parseRedisConfig_iff.2 (h.redis hnode)
    exact ⟨⟨log, messages, http, postgres, redis⟩, hlog, ⟨h.messages.1, hmessages⟩,
      ⟨h.http.1, hhttp⟩, hpostgres, hredis,
      h.storage.imp hpostgres.isSome_iff.2 hredis.isSome_iff.2⟩

/-- The timeout is the value that is present if it is an integer. -/
theorem requestTimeout_eq {v : Toml} (hv : node.sub requestTimeoutParameter = some v)
    (h : parseHttpServerConfig node = .ok http) :
    Toml.integer (Int64.ofNat http.requestTimeout.toNat) =
      if v.isInteger = true then v else .integer 10 := by
  obtain ⟨-, -, hbounds, htimeout⟩ := parseHttpServerConfig_ok_iff.1 h
  exact uint16_field_eq (by decide) (by decide) hv hbounds htimeout

end GwFront

end GatewayPoc
