import GatewayPoc.Common.Config
import GatewayPoc.GwBack.Consumer

/-!
# The configuration of the back end

`gwback/src/utils/config.cpp`: `parseConfig` reads a file, and `fillConfig` goes through the tables
of the document.  The TOML parser is a parameter.

* `GwBack.fillConfig_ok_iff` : what is taken, part by part.
* `GwBack.exists_fillConfig_iff` : the documents that are taken, as a condition on the document.
-/

namespace GatewayPoc

namespace GwBack

open Common

/-- `Config` of the back end. -/
structure Config where
  log : LogConfig
  postgres : Option PostgresConfig
  redis : Option Common.RedisConfig
  consumer : ConsumerConfig
  producer : ProducerConfig
  deriving DecidableEq, Repr

/-- A `Config` that nothing was filled in. -/
def Config.initial : Config := ⟨{}, none, none, { outputFolder := [] }, {}⟩

/-- `CONSUMER_CONFIG_TABLE`. -/
def consumerConfigTable : Bytes := ascii "consumer"

/-- `PRODUCER_CONFIG_TABLE`. -/
def producerConfigTable : Bytes := ascii "producer"

/-- `CHUNK_SIZE_PARAMETER`. -/
def chunkSizeParameter : Bytes := ascii "chunk_size"

/-- `OUTPUT_FOLDER_PARAMETER`. -/
def outputFolderParameter : Bytes := ascii "output_folder"

/-- `MIN_CHUNK`. -/
def minChunk : ℤ := 1

/-- `MAX_CHUNK`. -/
def maxChunk : ℤ := 1000000

/-- The block about the chunk size; both parsers complain of the consumer. -/
def optionalChunkSize (node : NodeView) : Except Bytes (Option Int64) :=
  optionalInteger node chunkSizeParameter minChunk maxChunk
    (ascii "Consumer config has wrong chunk size value: ")

/-- `parseConsumerConfig`. -/
def parseConsumerConfig (node : NodeView) : Except Bytes ConsumerConfig := do
  let chunkSize ← optionalChunkSize node
  let outputFolder ← nonEmptyString node outputFolderParameter
    (ascii "Consumer config has no proper output folder parameter")
  return ⟨(chunkSize.map Common.toUInt32).getD 1000, outputFolder⟩

/-- `parseProducerConfig`. -/
def parseProducerConfig (node : NodeView) : Except Bytes ProducerConfig := do
  let chunkSize ← optionalChunkSize node
  return ⟨(chunkSize.map Common.toUInt32).getD 1000⟩

/-- `fillConfig`. -/
def fillConfig (config : Config) (table : NodeView) : Except Bytes Config := do
  let log ← ifPresent (table.sub logConfigTable) parseLogConfig config.log
  let postgres ← ifPresent (table.sub postgresConfigTable)
    (fun node => (parsePostgresConfig node).map some) config.postgres
  let redis ← ifPresent (table.sub redisConfigTable)
    (fun node => (parseRedisConfig node).map some) config.redis
  check (postgres.isSome || redis.isSome) (ascii "Config file has no storage config table")
  let consumer ← required (table.sub consumerConfigTable)
    (ascii "Config file has no consumer config table") parseConsumerConfig
  let producer ← required (table.sub producerConfigTable)
    (ascii "Config file has no producer config table") parseProducerConfig
  return ⟨log, postgres, redis, consumer, producer⟩

/-- `parseConfig`; `parseFile` is `toml::parse_file`, and an error is what goes to `std::cerr`. -/
def parseConfig (parseFile : Bytes → Except Bytes (List (Bytes × Toml))) (filePath : Bytes)
    (config : Config) : Except Bytes Config := do
  let tomlTable ← parseFile filePath
  fillConfig config (some (.table tomlTable))

/-! ### What is taken -/

variable {node table : NodeView} {config : Config}

theorem parseConsumerConfig_ok_iff {consumer : ConsumerConfig} :
    parseConsumerConfig node = .ok consumer ↔
      (NotBeyond minChunk maxChunk (node.sub chunkSizeParameter) ∧ consumer.chunkSize =
        ((node.sub chunkSizeParameter).asInteger.map Common.toUInt32).getD 1000) ∧
      node.sub outputFolderParameter = some (.string consumer.outputFolder) ∧
      consumer.outputFolder ≠ [] := by
  simp only [parseConsumerConfig, optionalChunkSize, bind_eq_ok, pure_eq_ok, optionalInteger_ok_iff,
    nonEmptyString_ok_iff]
  constructor
  · rintro ⟨chunkSize, ⟨rfl, hbounds⟩, outputFolder, hfolder, rfl⟩
    exact ⟨⟨hbounds, rfl⟩, hfolder⟩
  · rintro ⟨⟨hbounds, hchunk⟩, hfolder⟩
    refine ⟨_, ⟨rfl, hbounds⟩, _, hfolder, ?_⟩
    rw [← hchunk]

theorem parseProducerConfig_ok_iff {producer : ProducerConfig} :
    parseProducerConfig node = .ok producer ↔
      NotBeyond minChunk maxChunk (node.sub chunkSizeParameter) ∧ producer.chunkSize =
        ((node.sub chunkSizeParameter).asInteger.map Common.toUInt32).getD 1000 := by
  simp only [parseProducerConfig, optionalChunkSize, bind_eq_ok, pure_eq_ok, optionalInteger_ok_iff]
  constructor
  · rintro ⟨chunkSize, ⟨rfl, hbounds⟩, rfl⟩
    exact ⟨hbounds, rfl⟩
  · rintro ⟨hbounds, hchunk⟩
    refine ⟨_, ⟨rfl, hbounds⟩, ?_⟩
    rw [← hchunk]

/-- What is made of a document, part by part. -/
theorem fillConfig_ok_iff :
    fillConfig .initial table = .ok config ↔
      Fills parseLogConfig (table.sub logConfigTable) {} config.log ∧
      FillsOption parsePostgresConfig (table.sub postgresConfigTable) config.postgres ∧
      FillsOption parseRedisConfig (table.sub redisConfigTable) config.redis ∧
      (config.postgres.isSome = true ∨ config.redis.isSome = true) ∧
      (table.sub consumerConfigTable ≠ none ∧
        parseConsumerConfig (table.sub consumerConfigTable) = .ok config.consumer) ∧
      (table.sub producerConfigTable ≠ none ∧
        parseProducerConfig (table.sub producerConfigTable) = .ok config.producer) := by
  simp only [fillConfig, Config.initial, bind_eq_ok, pure_eq_ok, ifPresent_ok_iff, FillsOption,
    required_ok_iff, check_ok_iff, Bool.or_eq_true]
  constructor
  · rintro ⟨log, hlog, postgres, hpostgres, redis, hredis, _, hstorage, consumer, hconsumer,
      producer, hproducer, rfl⟩
    exact ⟨hlog, hpostgres, hredis, hstorage, hconsumer, hproducer⟩
  · rintro ⟨hlog, hpostgres, hredis, hstorage, hconsumer, hproducer⟩
    exact ⟨_, hlog, _, hpostgres, _, hredis, (), hstorage, _, hconsumer, _, hproducer, rfl⟩

/-- The part is a `ConsumerConfig`. -/
structure TakesConsumer (node : NodeView) : Prop where
  chunkSize : NotBeyond minChunk maxChunk (node.sub chunkSizeParameter)
  outputFolder : IsNonEmptyString (node.sub outputFolderParameter)

/-- The part is a `ProducerConfig`. -/
def TakesProducer (node : NodeView) : Prop :=
  NotBeyond minChunk maxChunk (node.sub chunkSizeParameter)

/-- The document is a configuration of the back end.  What is not read may be anything, and so may
an optional value that has not the kind that is looked for. -/
structure Takes (table : NodeView) : Prop where
  log : table.sub logConfigTable ≠ none → TakesLog (table.sub logConfigTable)
  postgres : table.sub postgresConfigTable ≠ none → TakesPostgres (table.sub postgresConfigTable)
  redis : table.sub redisConfigTable ≠ none → TakesRedis (table.sub redisConfigTable)
  storage : table.sub postgresConfigTable ≠ none ∨ table.sub redisConfigTable ≠ none
  consumer : table.sub consumerConfigTable ≠ none ∧
    TakesConsumer (table.sub consumerConfigTable)
  producer : table.sub producerConfigTable ≠ none ∧
    TakesProducer (table.sub producerConfigTable)

theorem exists_parseConsumerConfig_iff :
    (∃ consumer, parseConsumerConfig node = .ok consumer) ↔ TakesConsumer node := by
  simp only [parseConsumerConfig_ok_iff]
  constructor
  · rintro ⟨consumer, ⟨hbounds, -⟩, hfolder⟩
    exact ⟨hbounds, ⟨_, hfolder⟩⟩
  · rintro ⟨hbounds, ⟨outputFolder, hfolder⟩⟩
    exact ⟨⟨_, outputFolder⟩, ⟨hbounds, rfl⟩, hfolder⟩

theorem exists_parseProducerConfig_iff :
    (∃ producer, parseProducerConfig node = .ok producer) ↔ TakesProducer node := by
  simp only [parseProducerConfig_ok_iff, TakesProducer]
  exact ⟨fun h => h.elim fun _ h => h.1, fun h => ⟨⟨_⟩, h, rfl⟩⟩

/-- **The documents that are taken.** -/
theorem exists_fillConfig_iff :
    (∃ config, fillConfig .initial table = .ok config) ↔ Takes table := by
  simp only [fillConfig_ok_iff]
  constructor
  · rintro ⟨config, hlog, hpostgres, hredis, hstorage, ⟨hconsumer, hconsumerOk⟩, hproducer,
      hproducerOk⟩
    exact {
      log := fun hnode => exists_parseLogConfig_iff.1 (exists_fills_iff.1 ⟨_, hlog⟩ hnode)
      postgres := fun hnode =>
        exists_parsePostgresConfig_iff.1 (exists_fillsOption_iff.1 ⟨_, hpostgres⟩ hnode)
      redis := fun hnode =>
        exists_parseRedisConfig_iff.1 (exists_fillsOption_iff.1 ⟨_, hredis⟩ hnode)
      storage := hstorage.imp hpostgres.isSome_iff.1 hredis.isSome_iff.1
      consumer := ⟨hconsumer, exists_parseConsumerConfig_iff.1 ⟨_, hconsumerOk⟩⟩
      producer := ⟨hproducer, exists_parseProducerConfig_iff.1 ⟨_, hproducerOk⟩⟩ }
  · intro h
    obtain ⟨log, hlog⟩ := exists_fills_iff.2 fun hnode => exists_parseLogConfig_iff.2 (h.log hnode)
    obtain ⟨postgres, hpostgres⟩ := exists_fillsOption_iff.2 fun hnode =>
      exists_parsePostgresConfig_iff.2 (h.postgres hnode)
    obtain ⟨redis, hredis⟩ := exists_fillsOption_iff.2 fun hnode =>
      exists_parseRedisConfig_iff.2 (h.redis hnode)
    obtain ⟨consumer, hconsumer⟩ := exists_parseConsumerConfig_iff.2 h.consumer.2
    obtain ⟨producer, hproducer⟩ := exists_parseProducerConfig_iff.2 h.producer.2
    exact ⟨⟨log, postgres, redis, consumer, producer⟩, hlog, hpostgres, hredis,
      h.storage.imp hpostgres.isSome_iff.2 hredis.isSome_iff.2, ⟨h.consumer.1, hconsumer⟩,
      h.producer.1, hproducer⟩

/-! ### The chunk sizes -/

/-- The chunk size is the value that is present if it is an integer. -/
theorem chunkSize_eq {chunkSize : UInt32} {v : Toml} (hv : node.sub chunkSizeParameter = some v)
    (hbounds : NotBeyond minChunk maxChunk (node.sub chunkSizeParameter))
    (hchunk : chunkSize =
      ((node.sub chunkSizeParameter).asInteger.map Common.toUInt32).getD 1000) :
    Toml.integer (Int64.ofNat chunkSize.toNat) =
      if v.isInteger = true then v else .integer 1000 := by
  rw [hv] at hbounds hchunk
  rw [hchunk]
  refine field_eq_of_integer (fun n hmin hmax => toUInt32_toNat ?_ ?_) hbounds
  all_goals simp only [minChunk, maxChunk] at hmin hmax; omega

end GwBack

end GatewayPoc
