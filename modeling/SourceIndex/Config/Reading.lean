import SourceIndex.Config.Writing
import SourceIndex.Json.Reading

/-! Configurations read from JSON text. What is left out has its default, what is unknown is passed
over, and the first fault in the order of the text decides. -/

namespace SourceIndex

/-! ## Values of known types -/

/-- Why a text is no configuration: it breaks the format, ends too soon, or holds a value that
does not fit its place. -/
inductive ReadError
  | malformed
  | truncated
  | mismatch
  deriving DecidableEq, Repr

def ReadError.ofFault : Json.Fault → ReadError
  | .malformed => .malformed
  | .truncated => .truncated

namespace Json.Draft

/-- The error of a value that is not of the type asked for. Faults inside of it that would be met
while telling what it is count first. -/
def misfit : Draft → ReadError
  | .broken fault => .ofFault fault
  | .string none => .malformed
  | .number numeral => if numeral.float?.isNone then .malformed else .mismatch
  | _ => .mismatch

def readNatural (draft : Draft) : Except ReadError Nat :=
  match draft with
  | .number numeral =>
    match numeral.integer? with
    | some whole => if 0 ≤ whole then .ok whole.toNat else .error .mismatch
    | none => .error draft.misfit
  | _ => .error draft.misfit

def readBool (draft : Draft) : Except ReadError Bool :=
  match draft with
  | .bool value => .ok value
  | _ => .error draft.misfit

def readString (draft : Draft) : Except ReadError String :=
  match draft with
  | .string (some text) => .ok text
  | _ => .error draft.misfit

def readStrings (draft : Draft) : Except ReadError (List String) :=
  match draft with
  | .array items => items.mapM readString
  | _ => .error draft.misfit

/-! ## Records -/

/-- A field of a record: its name, and how a value is put into the record. -/
structure Field (α : Type) where
  name : String
  put : α → Draft → Except ReadError α

def Field.of {α β : Type} (name : String) (read : Draft → Except ReadError β) (set : α → β → α) :
    Field α := ⟨name, fun record draft => do return set record (← read draft)⟩

/-- Reads the members of a record, and passes over those of other names. No field may be given
twice. -/
def readMembers {α : Type} (fields : List (Field α)) (seen : List String) (record : α) :
    List (Option String × Draft) → Except ReadError α
  | [] => .ok record
  | (none, _) :: _ => .error .malformed
  | (some name, draft) :: members =>
    match fields.find? (·.name == name) with
    | none => readMembers fields seen record members
    | some field =>
      if seen.contains name then .error .mismatch
      else do readMembers fields (name :: seen) (← field.put record draft) members

/-- Reads the fields of a record in their order, without names. The last ones may be missing. -/
def readInOrder {α : Type} (record : α) : List (Field α) → List Draft → Except ReadError α
  | _, [] => .ok record
  | [], _ :: _ => .error .malformed
  | field :: fields, draft :: drafts => do
    readInOrder (← field.put record draft) fields drafts

def readRecord {α : Type} (fields : List (Field α)) (defaults : α) (draft : Draft) :
    Except ReadError α :=
  match draft with
  | .object members => readMembers fields [] defaults members
  | .array items => readInOrder defaults fields items
  | _ => .error draft.misfit

end Json.Draft

open Json.Draft

/-! ## Sections -/

def ChunkingConfig.read : Json.Draft → Except ReadError ChunkingConfig :=
  readRecord [
    .of "window_lines" readNatural fun config value => { config with windowLines := value },
    .of "overlap_lines" readNatural fun config value => { config with overlapLines := value },
    .of "context_lines" readNatural fun config value => { config with contextLines := value }] {}

def ScanConfig.read : Json.Draft → Except ReadError ScanConfig :=
  readRecord [
    .of "max_depth" readNatural fun config value => { config with maxDepth := value },
    .of "batch_floor" readNatural fun config value => { config with batchFloor := value },
    .of "target_batch_count" readNatural fun config value =>
      { config with targetBatchCount := value },
    .of "batch_ceiling" readNatural fun config value => { config with batchCeiling := value },
    .of "read_concurrency" readNatural fun config value => { config with readConcurrency := value },
    .of "hidden_allowlist" readStrings fun config value => { config with hiddenAllowlist := value },
    .of "extra_extensions" readStrings fun config value => { config with extraExtensions := value },
    .of "special_filenames" readStrings fun config value =>
      { config with specialFilenames := value },
    .of "respect_gitignore" readBool fun config value => { config with respectGitignore := value },
    .of "max_file_bytes" readNatural fun config value => { config with maxFileBytes := value },
    .of "memory_high_water_mb" readNatural fun config value =>
      { config with memoryHighWaterMb := value },
    .of "prune_missing" readBool fun config value => { config with pruneMissing := value }] {}

def EmbeddingConfig.read : Json.Draft → Except ReadError EmbeddingConfig :=
  readRecord [
    .of "enabled" readBool fun config value => { config with enabled := value },
    .of "dimensions" readNatural fun config value => { config with dimensions := value },
    .of "max_chars" readNatural fun config value => { config with maxChars := value },
    .of "timeout_secs" readNatural fun config value => { config with timeoutSecs := value },
    .of "embed_chunks" readBool fun config value => { config with embedChunks := value }] {}

def WatchConfig.read : Json.Draft → Except ReadError WatchConfig :=
  readRecord [
    .of "debounce_ms" readNatural fun config value => { config with debounceMs := value },
    .of "queue_capacity" readNatural fun config value => { config with queueCapacity := value }] {}

namespace Config

def read : Json.Draft → Except ReadError Config :=
  readRecord [
    .of "db_path" readString fun config value => { config with dbPath := value },
    .of "exclude_patterns" readStrings fun config value => { config with excludePatterns := value },
    .of "chunking" ChunkingConfig.read fun config value => { config with chunking := value },
    .of "scan" ScanConfig.read fun config value => { config with scan := value },
    .of "embedding" EmbeddingConfig.read fun config value => { config with embedding := value },
    .of "watch" WatchConfig.read fun config value => { config with watch := value }] {}

def parse (text : String) : Except ReadError Config := do
  let (draft, fault) := Json.draft text.toList
  let config ← read draft
  match fault with
  | some fault => throw (.ofFault fault)
  | none => return config

/-! ## Files -/

/-- A file that holds no text. -/
inductive LoadError
  | unreadable
  deriving DecidableEq, Repr

def LoadError.message : LoadError → String
  | unreadable => "failed to read config"

/-- A configuration that has been loaded, and the text to be written where the file was missing. -/
structure Loaded where
  config : Config
  template : Option String

/-- Loads a configuration from the content of its file, if there is the file. A text that is no
configuration counts as one that says nothing. A file that is missing at the usual place is
written. -/
def load (isUsualPlace : Bool) (content : Option ByteArray) : Except LoadError Loaded :=
  match content with
  | none =>
    let config : Config := {}
    .ok ⟨config, if isUsualPlace then some config.save else none⟩
  | some bytes =>
    match String.fromUTF8? bytes with
    | none => .error .unreadable
    | some text =>
      match parse text with
      | .ok config => .ok ⟨config, none⟩
      | .error _ => .ok ⟨{}, none⟩

end Config

end SourceIndex
