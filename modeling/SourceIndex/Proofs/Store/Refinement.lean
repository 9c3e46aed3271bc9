import SourceIndex.Proofs.Json.RoundTrip
import SourceIndex.Proofs.Store.Answers

/-! Every sequence of calls makes a store answer as a map does. -/

namespace SourceIndex

/-! ## Calls -/

inductive StoreCall
  | persist (project : String) (file : IndexedFile)
  | touch (project path : String) (time : FileTime)
  | remove (project path : String)

inductive StoreAnswer
  | written (acks : List WriteAck)
  | found (wasThere : Bool)
  deriving DecidableEq, Repr

namespace Store

def call (store : Store) : StoreCall → Except StoreError (StoreAnswer × Store)
  | .persist project file =>
    (store.persist project file).map fun (acks, written) => (.written acks, written)
  | .touch project path time =>
    .ok (.found (store.touch project path time).1, (store.touch project path time).2)
  | .remove project path =>
    .ok (.found (store.remove project path).1, (store.remove project path).2)

def run (store : Store) : List StoreCall → Except StoreError (List StoreAnswer × Store)
  | [] => .ok ([], store)
  | call :: calls => do
    let (answer, called) ← store.call call
    let (answers, left) ← called.run calls
    return (answer :: answers, left)

end Store

namespace FileMap

/-- A map answers whether there was a file; a file that is written is confirmed with all its rows.
-/
def call (map : FileMap) : StoreCall → StoreAnswer × FileMap
  | .persist project file => (.written (Store.acksOf file), map.persist project file)
  | .touch project path time => (.found (map project path).isSome, map.touch project path time)
  | .remove project path => (.found (map project path).isSome, map.remove project path)

def run (map : FileMap) : List StoreCall → List StoreAnswer × FileMap
  | [] => ([], map)
  | call :: calls =>
    let (answers, left) := (map.call call).2.run calls
    ((map.call call).1 :: answers, left)

end FileMap

/-! ## What is asked of calls -/

/-- Calls that use identifiers as they are meant: each path of a project has one of its own, so
has each row that is extracted from a file, and no two files share any. -/
structure WellIdentified (calls : List StoreCall) : Prop where
  same : ∀ project file otherProject other, .persist project file ∈ calls →
    .persist otherProject other ∈ calls → project = otherProject → file.path = other.path →
    file.id = other.id
  apart : ∀ project file otherProject other, .persist project file ∈ calls →
    .persist otherProject other ∈ calls → ¬ (project = otherProject ∧ file.path = other.path) →
    ∀ kind, ∀ id ∈ file.rowIds kind, id ∉ other.rowIds kind
  distinct : ∀ project file, .persist project file ∈ calls → ∀ kind, (file.rowIds kind).Nodup
  storable : ∀ project file analysis, .persist project file ∈ calls →
    file.analysis = some analysis → analysis.IsStorable

/-- The files that calls write. -/
def FileSource.ofCalls (calls : List StoreCall) : FileSource := fun project file =>
  .persist project file ∈ calls

namespace FileSource.IsApart

variable {calls : List StoreCall} {map : FileMap}

theorem comesFrom_call (comes : map.ComesFrom (.ofCalls calls)) {call : StoreCall}
    (called : call ∈ calls) : (map.call call).2.ComesFrom (.ofCalls calls) := by
  cases call with
  | persist project file => exact comes.persist called
  | touch project path time => exact comes.touch project path time
  | remove project path => exact comes.remove project path

/-- One call answers alike, and keeps store and map alike. -/
theorem mirrors_call (isApart : (ofCalls calls).IsApart) {store : Store}
    (mirrors : store.Mirrors map) (comes : map.ComesFrom (.ofCalls calls)) {call : StoreCall}
    (called : call ∈ calls) :
    ∃ left, store.call call = .ok ((map.call call).1, left) ∧ left.Mirrors (map.call call).2 := by
  cases call with
  | persist project file =>
      rcases mirrors.persist (comes.admits isApart called) with ⟨written, persisted, kept⟩
      refine ⟨written, ?_, kept⟩
      rw [Store.call, persisted]
      rfl
  | touch project path time =>
      rcases mirrors.touch project path time with ⟨touched, answered, kept⟩
      refine ⟨touched, ?_, kept⟩
      rw [Store.call, answered]
      rfl
  | remove project path =>
      rcases mirrors.remove project path with ⟨left, answered, kept⟩
      refine ⟨left, ?_, kept⟩
      rw [Store.call, answered]
      rfl

theorem mirrors_run (isApart : (ofCalls calls).IsApart) {later : List StoreCall}
    (within : ∀ call ∈ later, call ∈ calls) {store : Store} (mirrors : store.Mirrors map)
    (comes : map.ComesFrom (.ofCalls calls)) :
    ∃ left, store.run later = .ok ((map.run later).1, left) ∧ left.Mirrors (map.run later).2 ∧
      (map.run later).2.ComesFrom (.ofCalls calls) := by
  induction later generalizing store map with
  | nil => exact ⟨store, rfl, mirrors, comes⟩
  | cons call later induction =>
      have called := within call List.mem_cons_self
      rcases isApart.mirrors_call mirrors comes called with ⟨after, answered, kept⟩
      rcases induction (fun call member => within call (List.mem_cons_of_mem _ member)) kept
        (comesFrom_call comes called) with ⟨left, ran, leftKept, leftComes⟩
      refine ⟨left, ?_, leftKept, leftComes⟩
      rw [Store.run, answered]
      simp only [bind, Except.bind, ran]
      rfl

end FileSource.IsApart

namespace WellIdentified

variable {calls : List StoreCall} {map : FileMap}

theorem isApart (wellIdentified : WellIdentified calls) : (FileSource.ofCalls calls).IsApart where
  same project file other called otherCalled :=
    wellIdentified.same project file project other called otherCalled rfl
  apart project file otherProject other called otherCalled :=
    wellIdentified.apart project file otherProject other called otherCalled

theorem mirrors_run (wellIdentified : WellIdentified calls) {later : List StoreCall}
    (within : ∀ call ∈ later, call ∈ calls) {store : Store} (mirrors : store.Mirrors map)
    (comes : map.ComesFrom (.ofCalls calls)) :
    ∃ left, store.run later = .ok ((map.run later).1, left) ∧ left.Mirrors (map.run later).2 ∧
      (map.run later).2.ComesFrom (.ofCalls calls) :=
  wellIdentified.isApart.mirrors_run within mirrors comes

end WellIdentified

/-! ## What is lost -/

/-- Whether all values of an analysis that are stored as text can be read back. -/
structure Analysis.IsLossless (analysis : Analysis) : Prop where
  metadata : ∀ definition ∈ analysis.definitions, ∀ member ∈ definition.metadata,
    member.2.IsLossless
  issues : ∀ issue ∈ analysis.complexity.issues,
    (Json.decimal issue.value).IsLossless ∧ (Json.decimal issue.threshold).IsLossless

theorem ofStoredText_eq_self {number : Float} (lossless : (Json.decimal number).IsLossless) :
    ofStoredText number = number := by
  unfold ofStoredText
  rw [Json.read?_compact lossless]

theorem Json.ofStoredText_eq_self {value : Json} (lossless : value.IsLossless) :
    value.ofStoredText = value := by
  unfold Json.ofStoredText
  rw [Json.read?_compact lossless]
  rfl

/-- Whether all that a definition says beyond what every definition has can be read back. -/
def Definition.HasLosslessMetadata (definition : Definition) : Prop :=
  ∀ member ∈ definition.metadata, member.2.IsLossless

theorem Definition.stored_eq_inFile {definition : Definition}
    (lossless : definition.HasLosslessMetadata) (fileId : String) :
    definition.stored fileId = definition.inFile fileId := by
  have metadata : (definition.metadata.map fun entry => (entry.1, entry.2.ofStoredText)) =
      definition.metadata := by
    apply map_eq_self
    intro member inside
    exact congrArg (Prod.mk member.1) (Json.ofStoredText_eq_self (lossless member inside))
  exact congrArg (fun metadata => { definition with fileId, metadata }) metadata

theorem Analysis.reread_eq_self {analysis : Analysis} (lossless : analysis.IsLossless) :
    analysis.reread = analysis := by
  have definitions : analysis.definitions.map Definition.reread = analysis.definitions := by
    apply map_eq_self
    intro definition member
    exact Definition.stored_eq_inFile (lossless.metadata definition member) definition.fileId
  have issues : (analysis.complexity.issues.map fun issue =>
      { issue with
        value := SourceIndex.ofStoredText issue.value
        threshold := SourceIndex.ofStoredText issue.threshold }) = analysis.complexity.issues := by
    apply map_eq_self
    intro issue member
    have both := lossless.issues issue member
    rw [SourceIndex.ofStoredText_eq_self both.1, SourceIndex.ofStoredText_eq_self both.2]
  unfold Analysis.reread ComplexityReport.stored
  rw [definitions, issues]

theorem Analysis.ofStoredText_of_reread_eq {analysis : Analysis}
    (same : analysis.reread = analysis) {issue : ComplexityIssue}
    (member : issue ∈ analysis.complexity.issues) :
    SourceIndex.ofStoredText issue.value = issue.value := by
  have issues := congrArg (fun analysis : Analysis => analysis.complexity.issues) same
  unfold Analysis.reread ComplexityReport.stored at issues
  simp only at issues
  have each := List.map_inj_left.mp (issues.trans (List.map_id _).symm) issue member
  have value := congrArg ComplexityIssue.value each
  simpa only [id_eq] using value

/-! ## The result -/

/-- A store that starts empty answers every sequence of calls, and then every question, as a map
from the paths of projects to files does. An analysis is answered as it has been written as text
and read back; that is as it was given exactly if no number in it changes when it is read back. -/
theorem run_answers_as_map {calls : List StoreCall} (wellIdentified : WellIdentified calls) :
    ∃ store, Store.run {} calls = .ok ((FileMap.empty.run calls).1, store) ∧
      store.Answers (FileMap.empty.run calls).2 ∧
      ∀ project path file analysis, (FileMap.empty.run calls).2 project path = some file →
        file.analysis = some analysis →
        (store.Shows file.id analysis ↔ analysis.reread = analysis) ∧
        (analysis.IsLossless → store.Shows file.id analysis) := by
  have comes := FileMap.comesFrom_empty (.ofCalls calls)
  rcases wellIdentified.mirrors_run (fun _ member => member) Store.mirrors_empty comes with
    ⟨store, ran, mirrors, comes⟩
  have answers : store.Answers (FileMap.empty.run calls).2 := by
    apply mirrors.answers
    · intro project path file there kind
      rcases comes project path file there with ⟨-, given, time, called, rfl⟩
      rw [IndexedFile.rowIds_withTime]
      exact wellIdentified.distinct project given called kind
    · intro project path file analysis there analysed
      rcases comes project path file there with ⟨-, given, time, called, rfl⟩
      exact wellIdentified.storable project given analysis called analysed
  refine ⟨store, ran, answers, ?_⟩
  intro project path file analysis there analysed
  have shows := answers.analysed project path file analysis there analysed
  exact ⟨shows.iff_reread, fun lossless =>
    shows.iff_reread.mpr (Analysis.reread_eq_self lossless)⟩

/-- What is found in a file, with a measure of the given value. -/
def measuredAnalysis (value : Float) : Analysis where
  definitions := [⟨"d", "i", "f", none, .function, 1, 2, "fn f()", true, false, false, false,
    none, none,
    [], "rust", [("decorators", .array [.string "a"])]⟩]
  dependencies := []
  chunks := []
  complexity := ⟨2, 0, 0, 1, 0, 0, 100.0, [⟨"cyclomatic", .warning, value, 10.0, ""⟩]⟩

def sampleFile (id : String) (analysis : Option Analysis) : IndexedFile :=
  { id, path := "a.rs", name := "a.rs", extension := "rs", language := "rust", contentHash := "1",
    size := 9, lineCount := 2, time := ⟨0⟩, analysis }

/-- Two files of one path in different projects are written; one is touched, the other is removed.
-/
def sampleCalls (value : Float) : List StoreCall :=
  [.persist "p" (sampleFile "i" (some (measuredAnalysis value))),
    .persist "q" (sampleFile "j" none), .touch "p" "a.rs" ⟨5⟩, .remove "q" "a.rs"]

theorem wellIdentified_sampleCalls {value : Float} (finite : value.isFinite = true) :
    WellIdentified (sampleCalls value) := by
  have persisted : ∀ {project file}, .persist project file ∈ sampleCalls value →
      (project = "p" ∧ file = sampleFile "i" (some (measuredAnalysis value))) ∨
        (project = "q" ∧ file = sampleFile "j" none) := by
    intro project file called
    simpa [sampleCalls] using called
  constructor
  · intro project file otherProject other called otherCalled sameProject _
    rcases persisted called with ⟨rfl, rfl⟩ | ⟨rfl, rfl⟩
    · rcases persisted otherCalled with ⟨rfl, rfl⟩ | ⟨rfl, rfl⟩
      · rfl
      · exact absurd sameProject (by decide)
    · rcases persisted otherCalled with ⟨rfl, rfl⟩ | ⟨rfl, rfl⟩
      · exact absurd sameProject (by decide)
      · rfl
  · intro project file otherProject other called otherCalled different kind
    rcases persisted called with ⟨rfl, rfl⟩ | ⟨rfl, rfl⟩
    · rcases persisted otherCalled with ⟨rfl, rfl⟩ | ⟨rfl, rfl⟩
      · exact absurd ⟨rfl, rfl⟩ different
      · cases kind <;> simp [IndexedFile.rowIds, IndexedFile.definitionRows,
          IndexedFile.dependencyRows, IndexedFile.chunkRows, sampleFile]
    · rcases persisted otherCalled with ⟨rfl, rfl⟩ | ⟨rfl, rfl⟩
      · cases kind <;> simp [IndexedFile.rowIds, IndexedFile.definitionRows,
          IndexedFile.dependencyRows, IndexedFile.chunkRows, sampleFile]
      · exact absurd ⟨rfl, rfl⟩ different
  · intro project file called kind
    rcases persisted called with ⟨rfl, rfl⟩ | ⟨rfl, rfl⟩
    all_goals cases kind <;> simp [IndexedFile.rowIds, IndexedFile.definitionRows,
      IndexedFile.dependencyRows, IndexedFile.chunkRows, sampleFile, measuredAnalysis]
  · intro project file analysis called analysed
    rcases persisted called with ⟨rfl, rfl⟩ | ⟨rfl, rfl⟩
    · cases analysed
      constructor
      · simp [measuredAnalysis]
      · simp [measuredAnalysis]
      · simp [measuredAnalysis]
      · exact (by decide +kernel : (100.0 : Float).isFinite = true)
      · intro issue member
        rw [List.mem_singleton.mp member]
        exact ⟨finite, (by decide +kernel : (10.0 : Float).isFinite = true)⟩
    · cases analysed

theorem ofStoredText_ne : SourceIndex.ofStoredText (Float.ofBits 4971162428018902802) ≠
    Float.ofBits 4971162428018902802 := by
  intro same
  have bits := congrArg Float.toBits same
  revert bits
  decide +kernel

/-- A store answers the sample calls as a map does. Unless it is rounded when it is read back, as
some finite numbers are, the measure is answered as it was given. -/
theorem run_sampleCalls :
    (∀ value, value.isFinite = true → ∃ store, Store.run {} (sampleCalls value) =
        .ok ([.written [⟨.file, "i", some "i"⟩, ⟨.definition, "d", some "d"⟩,
            ⟨.complexity, "i", some "i"⟩],
          .written [⟨.file, "j", some "j"⟩], .found true, .found true], store) ∧
      store.load? "p" "a.rs" = some { sampleFile "i" none with time := ⟨5⟩ } ∧
      store.load? "q" "a.rs" = none ∧
      (SourceIndex.ofStoredText value ≠ value → ¬ store.Shows "i" (measuredAnalysis value))) ∧
    ∃ value : Float, value.isFinite = true ∧ SourceIndex.ofStoredText value ≠ value := by
  constructor
  · intro value finite
    rcases run_answers_as_map (wellIdentified_sampleCalls finite) with ⟨store, ran, answers, exact⟩
    have there : (FileMap.empty.run (sampleCalls value)).2 "p" "a.rs" =
        some { sampleFile "i" (some (measuredAnalysis value)) with time := ⟨5⟩ } := rfl
    refine ⟨store, ran, answers.load "p" "a.rs", answers.load "q" "a.rs", ?_⟩
    intro rounded shows
    have same := (exact "p" "a.rs" _ (measuredAnalysis value) there rfl).1.mp shows
    have member : (⟨"cyclomatic", .warning, value, 10.0, ""⟩ : ComplexityIssue) ∈
        (measuredAnalysis value).complexity.issues := List.mem_cons_self
    have kept := Analysis.ofStoredText_of_reread_eq same member
    exact rounded kept
  · exact ⟨Float.ofBits 4971162428018902802, by decide +kernel, ofStoredText_ne⟩

end SourceIndex
