import SourceIndex.Config.Basic
import SourceIndex.Json.Writing

/-! Configurations written as JSON. -/

namespace SourceIndex

def ChunkingConfig.toJson (config : ChunkingConfig) : Json :=
  .object [("window_lines", .ofNat config.windowLines),
    ("overlap_lines", .ofNat config.overlapLines), ("context_lines", .ofNat config.contextLines)]

def Json.ofStrings (texts : List String) : Json := .array (texts.map .string)

def ScanConfig.toJson (config : ScanConfig) : Json :=
  .object [("max_depth", .ofNat config.maxDepth), ("batch_floor", .ofNat config.batchFloor),
    ("target_batch_count", .ofNat config.targetBatchCount),
    ("batch_ceiling", .ofNat config.batchCeiling),
    ("read_concurrency", .ofNat config.readConcurrency),
    ("hidden_allowlist", .ofStrings config.hiddenAllowlist),
    ("extra_extensions", .ofStrings config.extraExtensions),
    ("special_filenames", .ofStrings config.specialFilenames),
    ("respect_gitignore", .bool config.respectGitignore),
    ("max_file_bytes", .ofNat config.maxFileBytes),
    ("memory_high_water_mb", .ofNat config.memoryHighWaterMb),
    ("prune_missing", .bool config.pruneMissing)]

def EmbeddingConfig.toJson (config : EmbeddingConfig) : Json :=
  .object [("enabled", .bool config.enabled), ("dimensions", .ofNat config.dimensions),
    ("max_chars", .ofNat config.maxChars), ("timeout_secs", .ofNat config.timeoutSecs),
    ("embed_chunks", .bool config.embedChunks)]

def WatchConfig.toJson (config : WatchConfig) : Json :=
  .object [("debounce_ms", .ofNat config.debounceMs),
    ("queue_capacity", .ofNat config.queueCapacity)]

namespace Config

def toJson (config : Config) : Json :=
  .object [("db_path", .string config.dbPath),
    ("exclude_patterns", .ofStrings config.excludePatterns), ("chunking", config.chunking.toJson),
    ("scan", config.scan.toJson), ("embedding", config.embedding.toJson),
    ("watch", config.watch.toJson)]

def save (config : Config) : String := config.toJson.pretty

end Config

end SourceIndex
