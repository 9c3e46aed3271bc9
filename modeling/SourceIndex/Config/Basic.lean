import SourceIndex.Chunk.Basic

/-! What can be configured, with the values used where nothing is said. -/

namespace SourceIndex

structure ScanConfig where
  maxDepth : Nat := 32
  batchFloor : Nat := 10
  targetBatchCount : Nat := 50
  batchCeiling : Nat := 100
  readConcurrency : Nat := 16
  /-- Names with a dot in front that are walked all the same. -/
  hiddenAllowlist : List String := [".github", ".gitlab-ci.yml"]
  /-- Extensions that are indexed besides those of known languages. -/
  extraExtensions : List String :=
    ["md", "json", "yaml", "yml", "toml", "sh", "bash", "sql", "rb", "lua"]
  specialFilenames : List String :=
    ["Dockerfile", "Makefile", "Rakefile", "Gemfile", "Jenkinsfile", "CMakeLists.txt"]
  respectGitignore : Bool := true
  maxFileBytes : Nat := 2 * 1024 * 1024
  memoryHighWaterMb : Nat := 1024
  /-- Whether a full scan deletes what is stored of files that are gone. -/
  pruneMissing : Bool := true
  deriving DecidableEq, Repr

structure EmbeddingConfig where
  enabled : Bool := true
  dimensions : Nat := 384
  /-- Longer texts are cut before they are embedded. -/
  maxChars : Nat := 8000
  timeoutSecs : Nat := 30
  embedChunks : Bool := false
  deriving DecidableEq, Repr

structure WatchConfig where
  debounceMs : Nat := 500
  queueCapacity : Nat := 1024
  deriving DecidableEq, Repr

structure Config where
  dbPath : String := "./codeindex.db"
  excludePatterns : List String :=
    [".git", "node_modules", "target", "dist", "build", "out", "coverage", "__pycache__", ".venv",
      "venv", "vendor", "*.min.js", "*.min.css", "*.map", "*.lock", "package-lock.json"]
  chunking : ChunkingConfig := {}
  scan : ScanConfig := {}
  embedding : EmbeddingConfig := {}
  watch : WatchConfig := {}
  deriving DecidableEq, Repr

/-! ## Validity -/

inductive ConfigFault
  | notPositive (field : String)
  | notSmaller (field bound : String)
  | exceeds (field bound : String)
  deriving DecidableEq, Repr

def ConfigFault.message : ConfigFault → String
  | notPositive field => field ++ " must be positive"
  | notSmaller field bound => field ++ " must be smaller than " ++ bound
  | exceeds field bound => field ++ " must not exceed " ++ bound

namespace Config

/-- Every rule that values have to keep, with the fault of breaking it, in the order in which
faults are told. -/
def rules (config : Config) : List (Bool × ConfigFault) :=
  [(config.chunking.windowLines > 0, .notPositive "chunking.window_lines"),
    (config.chunking.overlapLines < config.chunking.windowLines,
      .notSmaller "chunking.overlap_lines" "chunking.window_lines"),
    (config.scan.maxDepth > 0, .notPositive "scan.max_depth"),
    (config.scan.batchFloor > 0, .notPositive "scan.batch_floor"),
    (config.scan.batchFloor ≤ config.scan.batchCeiling,
      .exceeds "scan.batch_floor" "scan.batch_ceiling"),
    (config.scan.targetBatchCount > 0, .notPositive "scan.target_batch_count"),
    (config.scan.readConcurrency > 0, .notPositive "scan.read_concurrency"),
    (config.embedding.dimensions > 0, .notPositive "embedding.dimensions"),
    (config.embedding.maxChars > 0, .notPositive "embedding.max_chars"),
    (config.embedding.timeoutSecs > 0, .notPositive "embedding.timeout_secs"),
    (config.watch.queueCapacity > 0, .notPositive "watch.queue_capacity")]

def fault? (config : Config) : Option ConfigFault :=
  (config.rules.find? (! ·.1)).map (·.2)

example : ({} : Config).fault? = none := by decide

end Config

end SourceIndex
