import SourceIndex.Proofs.Analysis.Distinctness
import SourceIndex.Proofs.Analysis.Lossless
import SourceIndex.Proofs.Chunk.Offsets
import SourceIndex.Proofs.Definition.Extents
import SourceIndex.Proofs.Dependency.Starts
import SourceIndex.Proofs.Store.Views

/-! Rows that have been extracted from contents are read from a store as they have been extracted.
What their identifiers are made of tells them apart, and the numbers by which they are put in order
when they are read go up already. -/

namespace SourceIndex

/-! ## Extractions -/

/-- A content from which rows are extracted on behalf of a file. -/
structure Extraction where
  config : ChunkingConfig := {}
  language : Language
  fileId : String
  content : String

namespace Extraction

section

variable (extraction : Extraction)

def lineCount : Nat := (Text.lines extraction.content.toList).length

def definitions : List Definition :=
  extractDefinitions extraction.language extraction.fileId extraction.content

def dependencies : List Dependency :=
  extractDependencies extraction.language extraction.fileId extraction.content

def chunks : List Chunk :=
  splitChunks extraction.config extraction.language extraction.fileId extraction.content

/-- The identifiers of the rows of a kind. -/
def ids : RowKind → List String
  | .definition => extraction.definitions.map (·.id)
  | .dependency => extraction.dependencies.map (·.id)
  | .chunk => extraction.chunks.map (·.id)
  | .file | .complexity => []

/-- What the identifiers of the rows of a kind are made of. For dependencies that depends on their
places in their statements. -/
def identities (numbered : List (Dependency × Nat)) : RowKind → List (List String)
  | .definition => extraction.definitions.map (·.identity)
  | .dependency => numbered.map fun entry => entry.1.identity entry.2
  | .chunk => extraction.chunks.map (·.identity)
  | .file | .complexity => []

/-- Whether rows lie on lines of the content, and follow one another as their lines do. Of the
dependencies of one line, those of later places in the statement come later. -/
structure FollowsLines : Prop where
  definitionsGoUp : StartsGoUp extraction.definitions
  definitionsWithin : ∀ definition ∈ extraction.definitions,
    definition.LiesWithin 1 (extraction.lineCount + 1)
  dependenciesGoUp : ∃ numbered, Dependency.Numbers numbered extraction.dependencies
  dependenciesWithin : ∀ dependency ∈ extraction.dependencies,
    1 ≤ dependency.line ∧ dependency.line ≤ extraction.lineCount

theorem followsLines : extraction.FollowsLines where
  definitionsGoUp := startsGoUp_extractDefinitions _ _ _
  definitionsWithin := liesWithin_extractDefinitions _ _ _
  dependenciesGoUp := Dependency.exists_numbers _ _ _
  dependenciesWithin := Dependency.line_of_mem_extractDependencies _ _ _

end

variable {extraction other : Extraction} {numbered otherNumbered : List (Dependency × Nat)}

/-! ## Identifiers -/

section

variable (numbers : Dependency.Numbers numbered extraction.dependencies)

include numbers

theorem ids_eq (kind : RowKind) :
    extraction.ids kind = (extraction.identities numbered kind).map stableId := by
  cases kind with
  | file | complexity => rfl
  | definition =>
      rw [ids, identities, List.map_map]
      exact List.map_congr_left fun definition member =>
        (isIdentified_extractDefinitions _ _ _ definition member).named
  | dependency =>
      rw [ids, identities, List.map_map, ← numbers.all, List.map_map]
      exact List.map_congr_left numbers.named
  | chunk =>
      rw [ids, identities, List.map_map]
      exact List.map_congr_left fun chunk member =>
        (isIdentified_splitChunks _ _ _ _ chunk member).named

/-- The identifiers of all rows start from that of the file. -/
theorem exists_rest (kind : RowKind) :
    ∀ parts ∈ extraction.identities numbered kind, ∃ rest, parts = extraction.fileId :: rest := by
  intro parts member
  cases kind with
  | file | complexity => exact absurd member List.not_mem_nil
  | definition =>
      rcases List.mem_map.mp member with ⟨definition, inside, rfl⟩
      rw [Definition.identity, (isIdentified_extractDefinitions _ _ _ definition inside).owned]
      exact ⟨_, rfl⟩
  | dependency =>
      rcases List.mem_map.mp member with ⟨entry, inside, rfl⟩
      have isFound : entry.1 ∈ extraction.dependencies := by
        rw [← numbers.all]
        exact List.mem_map_of_mem inside
      rw [Dependency.identity, (isIdentified_extractDependencies _ _ _ entry.1 isFound).owned]
      exact ⟨_, rfl⟩
  | chunk =>
      rcases List.mem_map.mp member with ⟨chunk, inside, rfl⟩
      rw [Chunk.identity, (isIdentified_splitChunks _ _ _ _ chunk inside).owned]
      exact ⟨_, rfl⟩

/-- The identifiers of rows of one kind are made of different bytes. -/
theorem nodup_identityBytes (kind : RowKind) :
    ((extraction.identities numbered kind).map identifierBytes).Nodup := by
  cases kind with
  | file | complexity => exact .nil
  | definition =>
      rw [identities, List.map_map]
      exact nodup_definitionBytes extraction.followsLines.definitionsGoUp
  | dependency =>
      rw [identities, List.map_map]
      exact numbers.nodup_bytes fun dependency member =>
        (isIdentified_extractDependencies _ _ _ dependency member).owned
  | chunk =>
      rw [identities, List.map_map]
      exact nodup_chunkBytes (pairwise_index_splitChunks _ _ _ _) fun chunk member =>
        (isIdentified_splitChunks _ _ _ _ chunk member).owned

/-- So are those of rows of different files, whose identifiers have no zero bytes. -/
theorem identityBytes_ne (otherNumbers : Dependency.Numbers otherNumbered other.dependencies)
    (clean : '\x00' ∉ extraction.fileId.toList) (otherClean : '\x00' ∉ other.fileId.toList)
    (different : extraction.fileId ≠ other.fileId) (kind : RowKind) :
    ∀ parts ∈ extraction.identities numbered kind,
      ∀ otherParts ∈ other.identities otherNumbered kind,
        identifierBytes parts ≠ identifierBytes otherParts := by
  intro parts member otherParts otherMember same
  rcases exists_rest numbers kind parts member with ⟨rest, rfl⟩
  rcases exists_rest otherNumbers kind otherParts otherMember with ⟨otherRest, rfl⟩
  exact different (split_identifierBytes (zero_not_mem_bytesOf clean)
    (zero_not_mem_bytesOf otherClean) same).1

end

/-! ## Files -/

/-- Whether an analysis that a file comes with is what has been extracted for it, vectors aside,
from a content whose lines can be counted in words with a sign, and the identifiers of its rows are
made of known texts. -/
structure Makes (extraction : Extraction) (texts : List (List String)) (file : IndexedFile)
    (analysis : Analysis) : Prop where
  fileId : extraction.fileId = file.id
  small : extraction.lineCount < 2 ^ 63
  definitions : analysis.definitions = extraction.definitions
  dependencies : analysis.dependencies = extraction.dependencies
  chunks : analysis.chunks.map Chunk.bare = extraction.chunks
  known : ∃ numbered, Dependency.Numbers numbered extraction.dependencies ∧
    ∀ kind, ∀ parts ∈ extraction.identities numbered kind, parts ∈ texts

namespace Makes

variable {texts : List (List String)} {file : IndexedFile} {analysis : Analysis}
  (makes : extraction.Makes texts file analysis)

include makes

/-- The identifiers of all rows start from that of the file. -/
theorem exists_text {kind : RowKind} {id : String} (member : id ∈ extraction.ids kind) :
    ∃ rest, file.id :: rest ∈ texts ∧ id = stableId (file.id :: rest) := by
  rcases makes.known with ⟨numbered, numbers, known⟩
  rw [ids_eq numbers] at member
  rcases List.mem_map.mp member with ⟨parts, inside, rfl⟩
  have isKnown := known kind parts inside
  rcases exists_rest numbers kind parts inside with ⟨rest, rfl⟩
  rw [makes.fileId] at isKnown ⊢
  exact ⟨rest, isKnown, rfl⟩

theorem nodup_ids (differ : IdentifiersDiffer texts) (kind : RowKind) :
    (extraction.ids kind).Nodup := by
  rcases makes.known with ⟨numbered, numbers, known⟩
  rw [ids_eq numbers]
  exact differ.nodup_stableId (known kind) (nodup_identityBytes numbers kind)

variable (analysed : file.analysis = some analysis)

include analysed

theorem definitionRows_eq : file.definitionRows = analysis.definitions := by
  rw [IndexedFile.definitionRows, analysed, Option.map_some, Option.getD_some]
  apply map_eq_self
  intro definition member
  rw [makes.definitions] at member
  rw [Definition.stored_eq_inFile (hasLosslessMetadata_extractDefinitions _ _ _ definition member),
    ← makes.fileId, ← (isIdentified_extractDefinitions _ _ _ definition member).owned]
  rfl

theorem dependencyRows_eq : file.dependencyRows = analysis.dependencies := by
  rw [IndexedFile.dependencyRows, analysed, Option.map_some, Option.getD_some]
  apply map_eq_self
  intro dependency member
  rw [makes.dependencies] at member
  rw [← makes.fileId, ← (isIdentified_extractDependencies _ _ _ dependency member).owned]
  rfl

theorem chunkRows_eq : file.chunkRows = analysis.chunks := by
  rw [IndexedFile.chunkRows, analysed, Option.map_some, Option.getD_some]
  apply map_eq_self
  intro chunk member
  have isFound : chunk.bare ∈ extraction.chunks := by
    rw [← makes.chunks]
    exact List.mem_map_of_mem member
  rw [← makes.fileId, ← (isIdentified_splitChunks _ _ _ _ chunk.bare isFound).owned]
  rfl

theorem rowIds_eq {kind : RowKind} (isExtracted : kind ≠ .file ∧ kind ≠ .complexity) :
    file.rowIds kind = extraction.ids kind := by
  cases kind with
  | file => exact absurd rfl isExtracted.1
  | complexity => exact absurd rfl isExtracted.2
  | definition =>
      rw [IndexedFile.rowIds, makes.definitionRows_eq analysed, makes.definitions]
      rfl
  | dependency =>
      rw [IndexedFile.rowIds, makes.dependencyRows_eq analysed, makes.dependencies]
      rfl
  | chunk =>
      rw [IndexedFile.rowIds, makes.chunkRows_eq analysed, ids, ← makes.chunks, List.map_map]
      rfl

/-! ### Reading -/

variable (differ : IdentifiersDiffer texts) {store : Store} {map : FileMap} {project path : String}
  (mirrors : store.Mirrors map) (there : map project path = some file)

include differ mirrors there

theorem definitionsOf_eq : store.definitionsOf file.id = analysis.definitions := by
  have distinct := makes.nodup_ids differ .definition
  rw [ids, ← makes.definitions] at distinct
  have lines := extraction.followsLines
  rw [mirrors.definitionsOf_eq there, makes.definitionRows_eq analysed,
    RowFormat.ofDefinitions.merge_eq_self distinct, makes.definitions]
  apply Store.inOrder_eq_self
  · intro definition member
    have within := lines.definitionsWithin definition member
    have order := within.order
    have above := within.above
    have small := makes.small
    omega
  · exact lines.definitionsGoUp.imp Nat.le_of_lt

theorem dependenciesOf_eq : store.dependenciesOf file.id = analysis.dependencies := by
  have distinct := makes.nodup_ids differ .dependency
  rw [ids, ← makes.dependencies] at distinct
  have lines := extraction.followsLines
  rw [mirrors.dependenciesOf_eq there, makes.dependencyRows_eq analysed,
    RowFormat.ofDependencies.merge_eq_self distinct, makes.dependencies]
  apply Store.inOrder_eq_self
  · intro dependency member
    exact Nat.lt_of_le_of_lt (lines.dependenciesWithin dependency member).2 makes.small
  · rcases lines.dependenciesGoUp with ⟨numbered, numbers⟩
    rw [← numbers.all, List.pairwise_map]
    apply numbers.goUp.imp
    intro entry later goesUp
    omega

theorem chunksOf_eq : store.chunksOf file.id = analysis.chunks := by
  have distinct := makes.nodup_ids differ .chunk
  rw [ids, ← makes.chunks, List.map_map] at distinct
  rw [mirrors.chunksOf_eq there, makes.chunkRows_eq analysed,
    RowFormat.ofChunks.merge_eq_self distinct]
  apply Store.inOrder_eq_self
  · intro chunk member
    have isFound : chunk.bare ∈ extraction.chunks := by
      rw [← makes.chunks]
      exact List.mem_map_of_mem member
    have bound := Chunk.index_lt_of_mem_splitChunks isFound
    have small := makes.small
    rw [lineCount] at small
    have index : chunk.bare.index = chunk.index := rfl
    omega
  · have goUp : extraction.chunks.Pairwise fun chunk later => chunk.index < later.index :=
      pairwise_index_splitChunks _ _ _ _
    rw [← makes.chunks, List.pairwise_map] at goUp
    exact goUp.imp Nat.le_of_lt

end Makes

end Extraction

/-! ## Calls -/

/-- Whether all that calls write has been extracted. Each path of a project has an identifier of its
own, in which there is no character of code zero. -/
structure WritesExtractions (texts : List (List String)) (calls : List StoreCall) : Prop where
  ids : ∀ project file otherProject other, .persist project file ∈ calls →
    .persist otherProject other ∈ calls →
    (file.id = other.id ↔ project = otherProject ∧ file.path = other.path)
  clean : ∀ project file, .persist project file ∈ calls → '\x00' ∉ file.id.toList
  extracted : ∀ project file analysis, .persist project file ∈ calls →
    file.analysis = some analysis → ∃ extraction : Extraction, extraction.Makes texts file analysis

namespace WritesExtractions

variable {texts : List (List String)} {calls : List StoreCall}

/-- The identifiers of all rows of a file start from that of the file. -/
theorem exists_text (writes : WritesExtractions texts calls) {project : String}
    {file : IndexedFile} (called : .persist project file ∈ calls) {kind : RowKind}
    (isExtracted : kind ≠ .file ∧ kind ≠ .complexity) {id : String}
    (member : id ∈ file.rowIds kind) :
    ∃ rest, file.id :: rest ∈ texts ∧ id = stableId (file.id :: rest) := by
  cases analysed : file.analysis with
  | none =>
      have nothing : file.rowIds kind = [] := by
        cases kind with
        | file => exact absurd rfl isExtracted.1
        | complexity => exact absurd rfl isExtracted.2
        | definition => rw [IndexedFile.rowIds, IndexedFile.definitionRows, analysed]; rfl
        | dependency => rw [IndexedFile.rowIds, IndexedFile.dependencyRows, analysed]; rfl
        | chunk => rw [IndexedFile.rowIds, IndexedFile.chunkRows, analysed]; rfl
      rw [nothing] at member
      exact absurd member List.not_mem_nil
  | some analysis =>
      rcases writes.extracted project file analysis called analysed with ⟨extraction, makes⟩
      rw [makes.rowIds_eq analysed isExtracted] at member
      exact makes.exists_text member

/-- Where identifiers do not collide, they tell files apart. -/
theorem isApart (writes : WritesExtractions texts calls) (differ : IdentifiersDiffer texts) :
    (FileSource.ofCalls calls).IsApart := by
  constructor
  · intro project file other called otherCalled samePath
    exact (writes.ids project file project other called otherCalled).mpr ⟨rfl, samePath⟩
  · intro project file otherProject other called otherCalled different kind id member otherMember
    apply different
    rw [← writes.ids project file otherProject other called otherCalled]
    by_cases isExtracted : kind ≠ .file ∧ kind ≠ .complexity
    · rcases writes.exists_text called isExtracted member with ⟨rest, known, rfl⟩
      rcases writes.exists_text otherCalled isExtracted otherMember with
        ⟨otherRest, otherKnown, same⟩
      exact differ.head_eq (zero_not_mem_bytesOf (writes.clean project file called))
        (zero_not_mem_bytesOf (writes.clean otherProject other otherCalled)) known otherKnown same
    · cases kind with
      | file | complexity =>
          exact (List.mem_singleton.mp member).symm.trans (List.mem_singleton.mp otherMember)
      | definition | dependency | chunk => exact absurd ⟨nofun, nofun⟩ isExtracted

end WritesExtractions

/-! ## The result -/

/-- Rows that are extracted lie on lines of their content and follow one another as the lines do,
and rows of one kind have identifiers that are made of different bytes, also when they belong to
different files. So a store into which only such rows are written gives them as they have been
extracted, none of them merged with another one, whichever files are written, touched or removed
before and after, as long as different bytes have different digests. -/
theorem extractions_stay_apart :
    (∀ extraction : Extraction, extraction.FollowsLines) ∧
    (∀ (extraction : Extraction) numbered, Dependency.Numbers numbered extraction.dependencies →
      ∀ kind, extraction.ids kind = (extraction.identities numbered kind).map stableId ∧
        ((extraction.identities numbered kind).map identifierBytes).Nodup) ∧
    (∀ (extraction other : Extraction) numbered otherNumbered,
      Dependency.Numbers numbered extraction.dependencies →
      Dependency.Numbers otherNumbered other.dependencies →
      '\x00' ∉ extraction.fileId.toList → '\x00' ∉ other.fileId.toList →
      extraction.fileId ≠ other.fileId → ∀ kind, ∀ parts ∈ extraction.identities numbered kind,
        ∀ otherParts ∈ other.identities otherNumbered kind,
          identifierBytes parts ≠ identifierBytes otherParts) ∧
    ∀ texts calls, IdentifiersDiffer texts → WritesExtractions texts calls →
      ∃ store, Store.run {} calls = .ok ((FileMap.empty.run calls).1, store) ∧
        ∀ project path file analysis, (FileMap.empty.run calls).2 project path = some file →
          file.analysis = some analysis →
          store.definitionsOf file.id = analysis.definitions ∧
            store.dependenciesOf file.id = analysis.dependencies ∧
            store.chunksOf file.id = analysis.chunks := by
  refine ⟨Extraction.followsLines, ?_, ?_, ?_⟩
  · intro extraction numbered numbers kind
    exact ⟨Extraction.ids_eq numbers kind, Extraction.nodup_identityBytes numbers kind⟩
  · intro extraction other numbered otherNumbered numbers otherNumbers clean otherClean different
    exact Extraction.identityBytes_ne numbers otherNumbers clean otherClean different
  · intro texts calls differ writes
    have comes := FileMap.comesFrom_empty (.ofCalls calls)
    rcases (writes.isApart differ).mirrors_run (fun _ member => member) Store.mirrors_empty comes
      with ⟨store, ran, mirrors, comes⟩
    refine ⟨store, ran, ?_⟩
    intro project path file analysis there analysed
    rcases comes project path file there with ⟨-, given, time, called, rfl⟩
    rcases writes.extracted project given analysis called analysed with ⟨extraction, makes⟩
    have touched : extraction.Makes texts { given with time } analysis :=
      ⟨makes.fileId, makes.small, makes.definitions, makes.dependencies, makes.chunks, makes.known⟩
    exact ⟨touched.definitionsOf_eq analysed differ mirrors there,
      touched.dependenciesOf_eq analysed differ mirrors there,
      touched.chunksOf_eq analysed differ mirrors there⟩

/-- A content with two dependencies on one line. -/
def Extraction.sample : Extraction where
  language := .python
  fileId := "i"
  content := "import a, b"

namespace WritesExtractions

def sampleAnalysis : Analysis where
  definitions := Extraction.sample.definitions
  dependencies := Extraction.sample.dependencies
  chunks := Extraction.sample.chunks
  complexity := ⟨1, 0, 0, 1, 0, 0, 100.0, []⟩

/-- A file of that content and another one, which has not been analysed, are written; then the first
one is touched. -/
def sampleCalls : List StoreCall :=
  [.persist "p" (sampleFile "i" (some sampleAnalysis)),
    .persist "p" { sampleFile "j" none with path := "b.rs" }, .touch "p" "a.rs" ⟨5⟩]

/-- What the identifiers of all their rows are made of. -/
def sampleTexts : List (List String) :=
  [["i", "dependency", "1", "0", "a", "import"], ["i", "dependency", "1", "1", "b", "import"],
    ["i", "chunk", "0", "1", "1"]]

theorem identifiersDiffer_sampleTexts : IdentifiersDiffer sampleTexts := by
  apply IdentifiersDiffer.of_nodup
  decide +kernel

theorem numbers_sample :
    Dependency.Numbers Extraction.sample.dependencies.zipIdx Extraction.sample.dependencies where
  all := List.zipIdx_map_fst 0 _
  named := by
    have ids : Extraction.sample.dependencies.zipIdx.map (fun entry => entry.1.id) =
        Extraction.sample.dependencies.zipIdx.map fun entry =>
          stableId (entry.1.identity entry.2) := rfl
    exact List.map_inj_left.mp ids
  goUp := by decide +kernel

theorem makes_sample :
    Extraction.sample.Makes sampleTexts (sampleFile "i" (some sampleAnalysis)) sampleAnalysis where
  fileId := rfl
  small := by decide
  definitions := rfl
  dependencies := rfl
  chunks := rfl
  known := by
    refine ⟨_, numbers_sample, ?_⟩
    intro kind
    cases kind <;> decide +kernel

theorem writes_sampleCalls : WritesExtractions sampleTexts sampleCalls := by
  have persisted : ∀ {project file}, .persist project file ∈ sampleCalls → project = "p" ∧
      (file = sampleFile "i" (some sampleAnalysis) ∨
        file = { sampleFile "j" none with path := "b.rs" }) := by
    intro project file called
    simp only [sampleCalls, List.mem_cons, StoreCall.persist.injEq, List.not_mem_nil, reduceCtorEq,
      or_false] at called
    rcases called with ⟨rfl, rfl⟩ | ⟨rfl, rfl⟩
    · exact ⟨rfl, .inl rfl⟩
    · exact ⟨rfl, .inr rfl⟩
  constructor
  · intro project file otherProject other called otherCalled
    rcases persisted called with ⟨rfl, rfl | rfl⟩
    all_goals
      rcases persisted otherCalled with ⟨rfl, rfl | rfl⟩
      all_goals simp [sampleFile]
  · intro project file called
    rcases persisted called with ⟨rfl, rfl | rfl⟩
    · simp [sampleFile]
    · simp [sampleFile]
  · intro project file analysis called analysed
    rcases persisted called with ⟨rfl, rfl | rfl⟩
    · cases analysed
      exact ⟨_, makes_sample⟩
    · cases analysed

end WritesExtractions

/-- Two dependencies of one line are read in the order in which they stand on it. -/
theorem extractions_onOneLine :
    ∃ store, Store.run {} WritesExtractions.sampleCalls =
        .ok ((FileMap.empty.run WritesExtractions.sampleCalls).1, store) ∧
      (store.dependenciesOf "i").map (fun dependency => (dependency.target, dependency.line)) =
        [("a", 1), ("b", 1)] ∧
      store.definitionsOf "i" = [] ∧ (store.chunksOf "i").map (·.content) = ["import a, b"] := by
  rcases extractions_stay_apart.2.2.2 _ _ WritesExtractions.identifiersDiffer_sampleTexts
    WritesExtractions.writes_sampleCalls with ⟨store, ran, reads⟩
  rcases reads "p" "a.rs" _ _ rfl rfl with ⟨definitions, dependencies, chunks⟩
  refine ⟨store, ran, ?_⟩
  rw [show store.dependenciesOf "i" = _ from dependencies,
    show store.definitionsOf "i" = _ from definitions, show store.chunksOf "i" = _ from chunks]
  exact ⟨by decide +kernel, rfl, by decide +kernel⟩

end SourceIndex
