import Mathlib.Algebra.Group.Nat.Defs
import SourceIndex.Config.Reading
import SourceIndex.Proofs.Json.RoundTrip

/-! Configurations that are saved and loaded. Loading gives back what has been saved, and of a text
from which fields have been taken out, what is left and the default of everything that is not. -/

namespace SourceIndex

namespace Json

/-! ## Leaving out fields -/

mutual

/-- A value without the members that are not kept. A member is told by the names that lead to it;
with an object, all its members are left out. -/
def keeping (kept : List String → Bool) : Json → Json
  | .object members => .object (membersKept kept members)
  | value => value

def membersKept (kept : List String → Bool) : List (String × Json) → List (String × Json)
  | [] => []
  | (name, value) :: members =>
    let later := membersKept kept members
    if kept [name] then (name, value.keeping fun names => kept (name :: names)) :: later else later

end

theorem membersKept_eq (kept : List String → Bool) (members : List (String × Json)) :
    membersKept kept members = (members.filter fun member => kept [member.1]).map fun member =>
      (member.1, member.2.keeping fun names => kept (member.1 :: names)) := by
  induction members with
  | nil => rfl
  | cons member members induction =>
      rcases member with ⟨name, value⟩
      rw [membersKept, List.filter_cons, induction]
      split <;> rfl

theorem IsLossless.keeping {value : Json} (lossless : IsLossless value)
    (kept : List String → Bool) : IsLossless (value.keeping kept) := by
  induction lossless generalizing kept with
  | null => exact .null
  | bool value => exact .bool value
  | integer low high => exact .integer low high
  | decimal survives => exact .decimal survives
  | string text => exact .string text
  | array each _ => exact .array each
  | object _ each =>
      refine .object ?_
      rw [membersKept_eq]
      intro member isKept
      rcases List.mem_map.mp isKept with ⟨whole, isWhole, rfl⟩
      exact each whole (List.mem_filter.mp isWhole).1 _

namespace Draft

/-! ## Values of known types -/

/-- Whether a reader gives a value for everything that means its JSON form. -/
def Understands {β : Type} (read : Draft → Except ReadError β) (json : Json) (value : β) : Prop :=
  ∀ draft : Draft, draft.value? = some json → read draft = .ok value

theorem understands_natural (number : Nat) : Understands readNatural (.ofNat number) number := by
  intro draft means
  cases draft with
  | number numeral =>
      rw [value?] at means
      split at means
      · next whole isWhole =>
          cases means
          rw [readNatural, isWhole]
          exact if_pos (Int.natCast_nonneg number)
      · rcases Option.map_eq_some_iff.mp means with ⟨_, _, same⟩
        cases same
  | _ => simp [value?, Json.ofNat] at means

theorem understands_bool (value : Bool) : Understands readBool (.bool value) value := by
  intro draft means
  cases draft with
  | bool read => cases means; rfl
  | number numeral => rw [value?] at means; split at means <;> simp at means
  | _ => simp [value?] at means

theorem understands_string (text : String) : Understands readString (.string text) text := by
  intro draft means
  cases draft with
  | string read =>
      rcases Option.map_eq_some_iff.mp means with ⟨known, rfl, same⟩
      cases same
      rfl
  | number numeral => rw [value?] at means; split at means <;> simp at means
  | _ => simp [value?] at means

theorem values?_strings {texts : List String} {drafts : List Draft}
    (means : values? drafts = some (texts.map .string)) : drafts.mapM readString = .ok texts := by
  induction texts generalizing drafts with
  | nil =>
      cases drafts with
      | nil => rfl
      | cons draft drafts =>
          rcases Option.bind_eq_some_iff.mp means with ⟨first, -, means⟩
          rcases Option.bind_eq_some_iff.mp means with ⟨others, -, same⟩
          cases same
  | cons text texts induction =>
      cases drafts with
      | nil => cases means
      | cons draft drafts =>
          rcases Option.bind_eq_some_iff.mp means with ⟨first, firstMeans, means⟩
          rcases Option.bind_eq_some_iff.mp means with ⟨others, othersMean, same⟩
          cases same
          rw [List.mapM_cons, understands_string text draft firstMeans, induction othersMean]
          rfl

theorem understands_strings (texts : List String) :
    Understands readStrings (.ofStrings texts) texts := by
  intro draft means
  cases draft with
  | array drafts =>
      rcases Option.map_eq_some_iff.mp means with ⟨items, drafted, same⟩
      cases same
      exact values?_strings drafted
  | number numeral => rw [value?] at means; split at means <;> simp [Json.ofStrings] at means
  | _ => simp [value?, Json.ofStrings] at means

/-! ## Records -/

/-- A field of a record and what is written for it. `value` is what its reader makes of the part of
`json` that is kept. -/
structure Entry (α : Type) (kept : List String → Bool) where
  name : String
  {β : Type}
  read : Draft → Except ReadError β
  put : α → β → α
  get : α → β
  put_get : ∀ record, put record (get record) = record
  json : Json
  value : β
  understood : Understands read (json.keeping fun names => kept (name :: names)) value

namespace Entry

variable {α : Type} {kept : List String → Bool}

def field (entry : Entry α kept) : Field α := .of entry.name entry.read entry.put

def member (entry : Entry α kept) : String × Json := (entry.name, entry.json)

/-- Puts the value of a field that is kept into a record. -/
def fill (record : α) (entry : Entry α kept) : α :=
  entry.put record (if kept [entry.name] then entry.value else entry.get record)

theorem fill_eq (record : α) (entry : Entry α kept) :
    entry.fill record = if kept [entry.name] then entry.put record entry.value else record := by
  unfold fill
  split
  · rfl
  · exact entry.put_get record

theorem put_field {entry : Entry α kept} {draft : Draft}
    (means : draft.value? = some (entry.json.keeping fun names => kept (entry.name :: names)))
    (record : α) : entry.field.put record draft = .ok (entry.put record entry.value) := by
  have reads := entry.understood draft means
  change (entry.read draft >>= fun value => pure (entry.put record value)) = _
  rw [reads]
  rfl

theorem find?_field {entries : List (Entry α kept)} (distinct : (entries.map (·.name)).Nodup)
    {entry : Entry α kept} (member : entry ∈ entries) :
    (entries.map field).find? (·.name == entry.name) = some entry.field := by
  induction entries with
  | nil => exact absurd member List.not_mem_nil
  | cons first entries induction =>
      rw [List.map_cons, List.nodup_cons] at distinct
      rw [List.map_cons, List.find?_cons]
      rcases List.mem_cons.mp member with rfl | member
      · have same : (entry.field.name == entry.name) = true := beq_self_eq_true entry.name
        rw [same]
      · have differs : (first.field.name == entry.name) = false := by
          rw [beq_eq_false_iff_ne]
          intro same
          have isName : first.name = entry.name := same
          exact distinct.1 (isName ▸ List.mem_map_of_mem member)
        rw [differs]
        exact induction distinct.2 member

/-- Members that are all of known names, each given once, are put into the record in turn. -/
theorem readMembers_eq {entries : List (Entry α kept)} (distinct : (entries.map (·.name)).Nodup)
    {given : List (Entry α kept)} (known : ∀ entry ∈ given, entry ∈ entries)
    (once : (given.map (·.name)).Nodup) {seen : List String}
    (fresh : ∀ entry ∈ given, entry.name ∉ seen) {drafts : List (Option String × Draft)}
    (means : memberValues? drafts = some (given.map fun entry =>
      (entry.name, entry.json.keeping fun names => kept (entry.name :: names)))) (record : α) :
    readMembers (entries.map field) seen record drafts =
      .ok (given.foldl (fun record entry => entry.put record entry.value) record) := by
  induction given generalizing seen drafts record with
  | nil =>
      cases drafts with
      | nil => rfl
      | cons draft drafts =>
          rcases Option.bind_eq_some_iff.mp means with ⟨_, -, means⟩
          rcases Option.bind_eq_some_iff.mp means with ⟨_, -, means⟩
          rcases Option.bind_eq_some_iff.mp means with ⟨_, -, same⟩
          cases same
  | cons entry given induction =>
      rw [List.forall_mem_cons] at known fresh
      rw [List.map_cons, List.nodup_cons] at once
      cases drafts with
      | nil => cases means
      | cons draft drafts =>
          rcases draft with ⟨name, draft⟩
          rcases Option.bind_eq_some_iff.mp means with ⟨name, rfl, means⟩
          rcases Option.bind_eq_some_iff.mp means with ⟨value, valueMeans, means⟩
          rcases Option.bind_eq_some_iff.mp means with ⟨later, laterMean, same⟩
          cases same
          have unseen : seen.contains entry.name = false := by
            simpa using fresh.1
          have laterFresh : ∀ other ∈ given, other.name ∉ entry.name :: seen := by
            intro other member isSeen
            rcases List.mem_cons.mp isSeen with same | isSeen
            · exact once.1 (same ▸ List.mem_map_of_mem member)
            · exact fresh.2 other member isSeen
          rw [readMembers, find?_field distinct known.1]
          simp only [unseen, Bool.false_eq_true, if_false, put_field valueMeans]
          exact induction known.2 once.2 laterFresh laterMean (entry.put record entry.value)

end Entry

/-- A record is read from the members that are kept; its other fields have their defaults. -/
theorem understands_readRecord {α : Type} {kept : List String → Bool}
    (entries : List (Entry α kept)) (distinct : (entries.map (·.name)).Nodup) (defaults : α) :
    Understands (readRecord (entries.map Entry.field) defaults)
      ((Json.object (entries.map Entry.member)).keeping kept)
      (entries.foldl Entry.fill defaults) := by
  intro draft means
  have given : membersKept kept (entries.map Entry.member) =
      (entries.filter fun entry => kept [entry.name]).map fun entry =>
        (entry.name, entry.json.keeping fun names => kept (entry.name :: names)) := by
    rw [membersKept_eq, List.filter_map, List.map_map]
    rfl
  cases draft with
  | object drafts =>
      rcases Option.map_eq_some_iff.mp means with ⟨members, drafted, same⟩
      cases same
      rw [given] at drafted
      have once : ((entries.filter fun entry => kept [entry.name]).map (·.name)).Nodup :=
        distinct.sublist (List.filter_sublist.map _)
      have reads := Entry.readMembers_eq distinct (fun entry member =>
        (List.mem_filter.mp member).1) once (fun _ _ => List.not_mem_nil) drafted defaults
      rw [readRecord, reads, List.foldl_filter]
      simp only [← Entry.fill_eq]
  | number numeral => rw [value?] at means; split at means <;> simp [Json.keeping] at means
  | _ => simp [value?, Json.keeping] at means

end Draft

end Json

open Json.Draft

/-! ## Sections -/

variable (kept : List String → Bool)

/-- The field for a number, a flag, a text or a list of texts. -/
def Json.Draft.Entry.ofNatural {α : Type} (name : String) (put : α → Nat → α) (get : α → Nat)
    (put_get : ∀ record, put record (get record) = record) (number : Nat) : Entry α kept :=
  ⟨name, readNatural, put, get, put_get, .ofNat number, number, understands_natural number⟩

def Json.Draft.Entry.ofBool {α : Type} (name : String) (put : α → Bool → α) (get : α → Bool)
    (put_get : ∀ record, put record (get record) = record) (value : Bool) : Entry α kept :=
  ⟨name, readBool, put, get, put_get, .bool value, value, understands_bool value⟩

def Json.Draft.Entry.ofString {α : Type} (name : String) (put : α → String → α) (get : α → String)
    (put_get : ∀ record, put record (get record) = record) (text : String) : Entry α kept :=
  ⟨name, readString, put, get, put_get, .string text, text, understands_string text⟩

def Json.Draft.Entry.ofStrings {α : Type} (name : String) (put : α → List String → α)
    (get : α → List String) (put_get : ∀ record, put record (get record) = record)
    (texts : List String) : Entry α kept :=
  ⟨name, readStrings, put, get, put_get, .ofStrings texts, texts, understands_strings texts⟩

namespace ChunkingConfig

/-- A configuration whose fields that are not kept have their defaults. -/
def keeping (config : ChunkingConfig) : ChunkingConfig :=
  let defaults : ChunkingConfig := {}
  { windowLines := if kept ["window_lines"] then config.windowLines else defaults.windowLines
    overlapLines := if kept ["overlap_lines"] then config.overlapLines else defaults.overlapLines
    contextLines := if kept ["context_lines"] then config.contextLines else defaults.contextLines }

def entries (config : ChunkingConfig) : List (Entry ChunkingConfig kept) :=
  [.ofNatural kept "window_lines" (fun record value => { record with windowLines := value })
      (·.windowLines) (fun _ => rfl) config.windowLines,
    .ofNatural kept "overlap_lines" (fun record value => { record with overlapLines := value })
      (·.overlapLines) (fun _ => rfl) config.overlapLines,
    .ofNatural kept "context_lines" (fun record value => { record with contextLines := value })
      (·.contextLines) (fun _ => rfl) config.contextLines]

theorem understands_read (config : ChunkingConfig) :
    Understands ChunkingConfig.read (config.toJson.keeping kept) (config.keeping kept) := by
  have distinct : ["window_lines", "overlap_lines", "context_lines"].Nodup := by decide
  exact understands_readRecord (config.entries kept) distinct {}

end ChunkingConfig

namespace ScanConfig

def keeping (config : ScanConfig) : ScanConfig :=
  let defaults : ScanConfig := {}
  { maxDepth := if kept ["max_depth"] then config.maxDepth else defaults.maxDepth
    batchFloor := if kept ["batch_floor"] then config.batchFloor else defaults.batchFloor
    targetBatchCount :=
      if kept ["target_batch_count"] then config.targetBatchCount else defaults.targetBatchCount
    batchCeiling := if kept ["batch_ceiling"] then config.batchCeiling else defaults.batchCeiling
    readConcurrency :=
      if kept ["read_concurrency"] then config.readConcurrency else defaults.readConcurrency
    hiddenAllowlist :=
      if kept ["hidden_allowlist"] then config.hiddenAllowlist else defaults.hiddenAllowlist
    extraExtensions :=
      if kept ["extra_extensions"] then config.extraExtensions else defaults.extraExtensions
    specialFilenames :=
      if kept ["special_filenames"] then config.specialFilenames else defaults.specialFilenames
    respectGitignore :=
      if kept ["respect_gitignore"] then config.respectGitignore else defaults.respectGitignore
    maxFileBytes := if kept ["max_file_bytes"] then config.maxFileBytes else defaults.maxFileBytes
    memoryHighWaterMb :=
      if kept ["memory_high_water_mb"] then config.memoryHighWaterMb
      else defaults.memoryHighWaterMb
    pruneMissing := if kept ["prune_missing"] then config.pruneMissing else defaults.pruneMissing }

def entries (config : ScanConfig) : List (Entry ScanConfig kept) :=
  [.ofNatural kept "max_depth" (fun record value => { record with maxDepth := value })
      (·.maxDepth) (fun _ => rfl) config.maxDepth,
    .ofNatural kept "batch_floor" (fun record value => { record with batchFloor := value })
      (·.batchFloor) (fun _ => rfl) config.batchFloor,
    .ofNatural kept "target_batch_count"
      (fun record value => { record with targetBatchCount := value })
      (·.targetBatchCount) (fun _ => rfl) config.targetBatchCount,
    .ofNatural kept "batch_ceiling" (fun record value => { record with batchCeiling := value })
      (·.batchCeiling) (fun _ => rfl) config.batchCeiling,
    .ofNatural kept "read_concurrency"
      (fun record value => { record with readConcurrency := value })
      (·.readConcurrency) (fun _ => rfl) config.readConcurrency,
    .ofStrings kept "hidden_allowlist"
      (fun record value => { record with hiddenAllowlist := value })
      (·.hiddenAllowlist) (fun _ => rfl) config.hiddenAllowlist,
    .ofStrings kept "extra_extensions"
      (fun record value => { record with extraExtensions := value })
      (·.extraExtensions) (fun _ => rfl) config.extraExtensions,
    .ofStrings kept "special_filenames"
      (fun record value => { record with specialFilenames := value })
      (·.specialFilenames) (fun _ => rfl) config.specialFilenames,
    .ofBool kept "respect_gitignore"
      (fun record value => { record with respectGitignore := value })
      (·.respectGitignore) (fun _ => rfl) config.respectGitignore,
    .ofNatural kept "max_file_bytes" (fun record value => { record with maxFileBytes := value })
      (·.maxFileBytes) (fun _ => rfl) config.maxFileBytes,
    .ofNatural kept "memory_high_water_mb"
      (fun record value => { record with memoryHighWaterMb := value })
      (·.memoryHighWaterMb) (fun _ => rfl) config.memoryHighWaterMb,
    .ofBool kept "prune_missing" (fun record value => { record with pruneMissing := value })
      (·.pruneMissing) (fun _ => rfl) config.pruneMissing]

theorem understands_read (config : ScanConfig) :
    Understands ScanConfig.read (config.toJson.keeping kept) (config.keeping kept) := by
  have distinct : ["max_depth", "batch_floor", "target_batch_count", "batch_ceiling",
      "read_concurrency", "hidden_allowlist", "extra_extensions", "special_filenames",
      "respect_gitignore", "max_file_bytes", "memory_high_water_mb", "prune_missing"].Nodup := by
    decide
  exact understands_readRecord (config.entries kept) distinct {}

end ScanConfig

namespace EmbeddingConfig

def keeping (config : EmbeddingConfig) : EmbeddingConfig :=
  let defaults : EmbeddingConfig := {}
  { enabled := if kept ["enabled"] then config.enabled else defaults.enabled
    dimensions := if kept ["dimensions"] then config.dimensions else defaults.dimensions
    maxChars := if kept ["max_chars"] then config.maxChars else defaults.maxChars
    timeoutSecs := if kept ["timeout_secs"] then config.timeoutSecs else defaults.timeoutSecs
    embedChunks := if kept ["embed_chunks"] then config.embedChunks else defaults.embedChunks }

def entries (config : EmbeddingConfig) : List (Entry EmbeddingConfig kept) :=
  [.ofBool kept "enabled" (fun record value => { record with enabled := value })
      (·.enabled) (fun _ => rfl) config.enabled,
    .ofNatural kept "dimensions" (fun record value => { record with dimensions := value })
      (·.dimensions) (fun _ => rfl) config.dimensions,
    .ofNatural kept "max_chars" (fun record value => { record with maxChars := value })
      (·.maxChars) (fun _ => rfl) config.maxChars,
    .ofNatural kept "timeout_secs" (fun record value => { record with timeoutSecs := value })
      (·.timeoutSecs) (fun _ => rfl) config.timeoutSecs,
    .ofBool kept "embed_chunks" (fun record value => { record with embedChunks := value })
      (·.embedChunks) (fun _ => rfl) config.embedChunks]

theorem understands_read (config : EmbeddingConfig) :
    Understands EmbeddingConfig.read (config.toJson.keeping kept) (config.keeping kept) := by
  have distinct : ["enabled", "dimensions", "max_chars", "timeout_secs", "embed_chunks"].Nodup := by
    decide
  exact understands_readRecord (config.entries kept) distinct {}

end EmbeddingConfig

namespace WatchConfig

def keeping (config : WatchConfig) : WatchConfig :=
  let defaults : WatchConfig := {}
  { debounceMs := if kept ["debounce_ms"] then config.debounceMs else defaults.debounceMs
    queueCapacity :=
      if kept ["queue_capacity"] then config.queueCapacity else defaults.queueCapacity }

def entries (config : WatchConfig) : List (Entry WatchConfig kept) :=
  [.ofNatural kept "debounce_ms" (fun record value => { record with debounceMs := value })
      (·.debounceMs) (fun _ => rfl) config.debounceMs,
    .ofNatural kept "queue_capacity" (fun record value => { record with queueCapacity := value })
      (·.queueCapacity) (fun _ => rfl) config.queueCapacity]

theorem understands_read (config : WatchConfig) :
    Understands WatchConfig.read (config.toJson.keeping kept) (config.keeping kept) := by
  have distinct : ["debounce_ms", "queue_capacity"].Nodup := by decide
  exact understands_readRecord (config.entries kept) distinct {}

end WatchConfig

namespace Config

/-! ## Whole configurations -/

/-- A configuration whose fields that are not kept have their defaults, be they fields of a section
or whole sections. -/
def keeping (config : Config) : Config :=
  let defaults : Config := {}
  { dbPath := if kept ["db_path"] then config.dbPath else defaults.dbPath
    excludePatterns :=
      if kept ["exclude_patterns"] then config.excludePatterns else defaults.excludePatterns
    chunking :=
      if kept ["chunking"] then config.chunking.keeping fun names => kept ("chunking" :: names)
      else defaults.chunking
    scan :=
      if kept ["scan"] then config.scan.keeping fun names => kept ("scan" :: names)
      else defaults.scan
    embedding :=
      if kept ["embedding"] then config.embedding.keeping fun names => kept ("embedding" :: names)
      else defaults.embedding
    watch :=
      if kept ["watch"] then config.watch.keeping fun names => kept ("watch" :: names)
      else defaults.watch }

def entries (config : Config) : List (Entry Config kept) :=
  [.ofString kept "db_path" (fun record value => { record with dbPath := value })
      (·.dbPath) (fun _ => rfl) config.dbPath,
    .ofStrings kept "exclude_patterns"
      (fun record value => { record with excludePatterns := value })
      (·.excludePatterns) (fun _ => rfl) config.excludePatterns,
    ⟨"chunking", ChunkingConfig.read, fun record value => { record with chunking := value },
      (·.chunking), fun _ => rfl, config.chunking.toJson, _,
      ChunkingConfig.understands_read _ config.chunking⟩,
    ⟨"scan", ScanConfig.read, fun record value => { record with scan := value },
      (·.scan), fun _ => rfl, config.scan.toJson, _, ScanConfig.understands_read _ config.scan⟩,
    ⟨"embedding", EmbeddingConfig.read, fun record value => { record with embedding := value },
      (·.embedding), fun _ => rfl, config.embedding.toJson, _,
      EmbeddingConfig.understands_read _ config.embedding⟩,
    ⟨"watch", WatchConfig.read, fun record value => { record with watch := value },
      (·.watch), fun _ => rfl, config.watch.toJson, _,
      WatchConfig.understands_read _ config.watch⟩]

theorem understands_read (config : Config) :
    Understands Config.read (config.toJson.keeping kept) (config.keeping kept) := by
  have distinct :
      ["db_path", "exclude_patterns", "chunking", "scan", "embedding", "watch"].Nodup := by
    decide
  exact understands_readRecord (config.entries kept) distinct {}

theorem keeping_all (config : Config) : config.keeping (fun _ => true) = config := rfl

theorem toJson_keeping_all (config : Config) :
    config.toJson.keeping (fun _ => true) = config.toJson := rfl

/-- However a value is laid out, it is read as the configuration that it means. -/
theorem parse_of_spells {config : Config} {text : List Char}
    (spelled : Json.Spells (config.toJson.keeping kept) text) :
    parse (String.ofList text) = .ok (config.keeping kept) := by
  rcases Json.draft_of_spells spelled with ⟨found, drafted, means⟩
  have reads := config.understands_read kept found means
  unfold parse
  rw [String.toList_ofList, drafted]
  simp only
  rw [reads]
  rfl

end Config

/-! ## Numbers -/

theorem Json.IsLossless.ofNat {number : Nat} (word : number < 2 ^ 64) :
    (Json.ofNat number).IsLossless := .integer (by omega) (by omega)

theorem Json.IsLossless.ofStrings (texts : List String) : (Json.ofStrings texts).IsLossless := by
  refine .array ?_
  intro item isItem
  rcases List.mem_map.mp isItem with ⟨text, -, rfl⟩
  exact .string text

def ChunkingConfig.numbers (config : ChunkingConfig) : List Nat :=
  [config.windowLines, config.overlapLines, config.contextLines]

def ScanConfig.numbers (config : ScanConfig) : List Nat :=
  [config.maxDepth, config.batchFloor, config.targetBatchCount, config.batchCeiling,
    config.readConcurrency, config.maxFileBytes, config.memoryHighWaterMb]

def EmbeddingConfig.numbers (config : EmbeddingConfig) : List Nat :=
  [config.dimensions, config.maxChars, config.timeoutSecs]

def WatchConfig.numbers (config : WatchConfig) : List Nat :=
  [config.debounceMs, config.queueCapacity]

theorem ChunkingConfig.isLossless_toJson {config : ChunkingConfig}
    (words : ∀ number ∈ config.numbers, number < 2 ^ 64) : config.toJson.IsLossless := by
  simp only [numbers, List.forall_mem_cons] at words
  rcases words with ⟨window, overlap, context, -⟩
  unfold toJson
  refine .object ?_
  simp only [List.forall_mem_cons]
  exact ⟨.ofNat window, .ofNat overlap, .ofNat context, nofun⟩

theorem ScanConfig.isLossless_toJson {config : ScanConfig}
    (words : ∀ number ∈ config.numbers, number < 2 ^ 64) : config.toJson.IsLossless := by
  simp only [numbers, List.forall_mem_cons] at words
  rcases words with ⟨depth, floor, count, ceiling, concurrency, bytes, mark, -⟩
  unfold toJson
  refine .object ?_
  simp only [List.forall_mem_cons]
  exact ⟨.ofNat depth, .ofNat floor, .ofNat count, .ofNat ceiling, .ofNat concurrency,
    .ofStrings _, .ofStrings _, .ofStrings _, .bool _, .ofNat bytes, .ofNat mark, .bool _, nofun⟩

theorem EmbeddingConfig.isLossless_toJson {config : EmbeddingConfig}
    (words : ∀ number ∈ config.numbers, number < 2 ^ 64) : config.toJson.IsLossless := by
  simp only [numbers, List.forall_mem_cons] at words
  rcases words with ⟨dimensions, characters, seconds, -⟩
  unfold toJson
  refine .object ?_
  simp only [List.forall_mem_cons]
  exact ⟨.bool _, .ofNat dimensions, .ofNat characters, .ofNat seconds, .bool _, nofun⟩

theorem WatchConfig.isLossless_toJson {config : WatchConfig}
    (words : ∀ number ∈ config.numbers, number < 2 ^ 64) : config.toJson.IsLossless := by
  simp only [numbers, List.forall_mem_cons] at words
  rcases words with ⟨debounce, capacity, -⟩
  unfold toJson
  refine .object ?_
  simp only [List.forall_mem_cons]
  exact ⟨.ofNat debounce, .ofNat capacity, nofun⟩

namespace Config

def numbers (config : Config) : List Nat :=
  config.chunking.numbers ++ config.scan.numbers ++ config.embedding.numbers
    ++ config.watch.numbers

theorem isLossless_toJson {config : Config}
    (words : ∀ number ∈ config.numbers, number < 2 ^ 64) : config.toJson.IsLossless := by
  simp only [numbers, List.forall_mem_append] at words
  rcases words with ⟨⟨⟨chunking, scan⟩, embedding⟩, watch⟩
  unfold toJson
  refine .object ?_
  simp only [List.forall_mem_cons]
  exact ⟨.string _, .ofStrings _, config.chunking.isLossless_toJson chunking,
    config.scan.isLossless_toJson scan, config.embedding.isLossless_toJson embedding,
    config.watch.isLossless_toJson watch, nofun⟩

/-! ## Saving and loading -/

theorem fromUTF8?_toUTF8 (text : String) : String.fromUTF8? text.toUTF8 = some text :=
  dif_pos text.isValidUTF8

theorem parse_pretty_keeping {config : Config}
    (words : ∀ number ∈ config.numbers, number < 2 ^ 64) :
    parse (config.toJson.keeping kept).pretty = .ok (config.keeping kept) :=
  parse_of_spells kept
    (Json.spells_prettyText ((isLossless_toJson words).keeping kept) 0)

/-- What has been saved is loaded as it was, and what is left of it when any fields are left out, in
any section, is read as such, with the defaults of all that is not there. -/
theorem load_gives_what_was_saved (config : Config)
    (words : ∀ number ∈ config.numbers, number < 2 ^ 64) :
    (∀ isUsualPlace, load isUsualPlace (some config.save.toUTF8) = .ok ⟨config, none⟩) ∧
      ∀ kept : List String → Bool,
        parse (config.toJson.keeping kept).pretty = .ok (config.keeping kept) := by
  constructor
  · intro isUsualPlace
    have saved : parse config.save = .ok config := by
      have whole := parse_pretty_keeping (fun _ => true) words
      rwa [toJson_keeping_all, keeping_all] at whole
    unfold load
    simp only [fromUTF8?_toUTF8, saved]
  · exact fun kept => parse_pretty_keeping kept words

def sampleConfig : Config where
  dbPath := "a\"\\\n\u0001é😀"
  excludePatterns := []
  chunking := { windowLines := 2 ^ 64 - 1 }
  scan := { pruneMissing := false }

/-- The text is read as it was, escapes included, and so is the largest number. With all left out
but one flag of a section, the rest of the section has its defaults. -/
theorem load_sampleConfig :
    (∀ number ∈ sampleConfig.numbers, number < 2 ^ 64) ∧
      load false (some sampleConfig.save.toUTF8) = .ok ⟨sampleConfig, none⟩ ∧
      parse (sampleConfig.toJson.keeping
        (· ∈ [["scan"], ["scan", "prune_missing"], ["watch"]])).pretty =
          .ok { scan := { pruneMissing := false } } := by
  have words : ∀ number ∈ sampleConfig.numbers, number < 2 ^ 64 := by decide
  have loads := load_gives_what_was_saved sampleConfig words
  exact ⟨words, loads.1 false, loads.2 _⟩

end Config

end SourceIndex
