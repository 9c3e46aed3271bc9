import SourceIndex.Proofs.Store.Mirroring
import Mathlib.Algebra.Group.Nat.Defs

/-! What a store answers that holds the files of a map. -/

namespace SourceIndex

/-! ## Orders -/

/-- Whether rows are given ones put in the order of a number, those of one number in the order
given. -/
structure IsArrangement {α : Type} (numberOf : α → Nat) (given rows : List α) : Prop where
  sorted : rows.Pairwise fun row later => numberOf row ≤ numberOf later
  ties : ∀ number, rows.filter (numberOf · == number) = given.filter (numberOf · == number)

namespace Store

theorem orderKey_eq_self {number : Nat} (small : number < 2 ^ 63) : orderKey number = number := by
  unfold orderKey
  rw [Int.bmod_eq_of_le] <;> omega

section

variable {α : Type} (numberOf : α → Nat)

theorem inOrder_pairwise (rows : List α) :
    (inOrder numberOf rows).Pairwise fun row later =>
      orderKey (numberOf row) ≤ orderKey (numberOf later) := by
  have sorted : (inOrder numberOf rows).Pairwise fun left right =>
      decide (orderKey (numberOf left) ≤ orderKey (numberOf right)) = true :=
    List.pairwise_mergeSort (by simpa using fun _ _ _ => Int.le_trans)
      (by simpa using fun _ _ => Int.le_total _ _) rows
  exact sorted.imp of_decide_eq_true

/-- Rows of one number keep the order in which they are given. -/
theorem inOrder_filter (rows : List α) (number : Nat) :
    (inOrder numberOf rows).filter (numberOf · == number) =
      rows.filter (numberOf · == number) := by
  have level : (rows.filter (numberOf · == number)).Pairwise fun left right =>
      decide (orderKey (numberOf left) ≤ orderKey (numberOf right)) = true := by
    apply List.pairwise_of_forall_mem_list
    intro left leftMember right rightMember
    rw [eq_of_beq (List.mem_filter.mp leftMember).2, eq_of_beq (List.mem_filter.mp rightMember).2]
    simp
  have kept : (rows.filter (numberOf · == number)).Sublist (inOrder numberOf rows) :=
    List.sublist_mergeSort (by simpa using fun _ _ _ => Int.le_trans)
      (by simpa using fun _ _ => Int.le_total _ _) level List.filter_sublist
  have inside := kept.filter (numberOf · == number)
  rw [List.filter_filter, List.filter_congr fun _ _ => Bool.and_self _] at inside
  symm
  apply inside.eq_of_length
  exact ((List.mergeSort_perm rows _).filter _).length_eq.symm

theorem isArrangement_inOrder {rows : List α} (small : ∀ row ∈ rows, numberOf row < 2 ^ 63) :
    IsArrangement numberOf rows (inOrder numberOf rows) where
  sorted := by
    have smallSorted : ∀ row ∈ inOrder numberOf rows, numberOf row < 2 ^ 63 := fun row member =>
      small row (List.mem_mergeSort.mp member)
    apply (inOrder_pairwise numberOf rows).imp_of_mem
    intro row later member laterMember ordered
    rw [orderKey_eq_self (smallSorted row member),
      orderKey_eq_self (smallSorted later laterMember)] at ordered
    exact Int.ofNat_le.mp ordered
  ties := inOrder_filter numberOf rows

/-- Rows that are in order already stay as they are. -/
theorem inOrder_eq_self {rows : List α} (small : ∀ row ∈ rows, numberOf row < 2 ^ 63)
    (sorted : rows.Pairwise fun row later => numberOf row ≤ numberOf later) :
    inOrder numberOf rows = rows := by
  apply List.mergeSort_of_pairwise
  apply sorted.imp_of_mem
  intro row later member laterMember ordered
  rw [decide_eq_true_eq, orderKey_eq_self (small row member),
    orderKey_eq_self (small later laterMember)]
  exact Int.ofNat_le.mpr ordered

end

end Store

/-- What can be arranged in one way only has been given alike. -/
theorem IsArrangement.eq_on {α β : Type} {numberOf : β → Nat} {left right : α → β}
    {items : List α} {rows : List β}
    (leftArranged : IsArrangement numberOf (items.map left) rows)
    (rightArranged : IsArrangement numberOf (items.map right) rows)
    (same : ∀ item, numberOf (left item) = numberOf (right item)) :
    ∀ item ∈ items, left item = right item := by
  intro item member
  have ties := (leftArranged.ties (numberOf (left item))).symm.trans
    (rightArranged.ties (numberOf (left item)))
  rw [List.filter_map, List.filter_map] at ties
  have sameItems : items.filter ((numberOf · == numberOf (left item)) ∘ right) =
      items.filter ((numberOf · == numberOf (left item)) ∘ left) := by
    apply List.filter_congr
    intro other _
    rw [Function.comp_apply, Function.comp_apply, same other]
  rw [sameItems] at ties
  apply List.map_inj_left.mp ties
  rw [List.mem_filter]
  exact ⟨member, by simp⟩

/-! ## Analyses as they are read -/

def Definition.inFile (fileId : String) (definition : Definition) : Definition :=
  { definition with fileId }

/-- A definition of which all values have been written as text and read back. -/
def Definition.reread (definition : Definition) : Definition :=
  definition.stored definition.fileId

/-- What is read back differs in its values only. -/
theorem Definition.reread_eq_self {fileId : String} {definition : Definition}
    (same : definition.reread.inFile fileId = definition.inFile fileId) :
    definition.reread = definition := by
  have metadata := congrArg Definition.metadata same
  unfold Definition.reread Definition.stored Definition.inFile at metadata
  unfold Definition.reread Definition.stored
  simp only at metadata
  rw [metadata]

/-- An analysis of which all values have been written as text and read back. -/
def Analysis.reread (analysis : Analysis) : Analysis :=
  { analysis with
    definitions := analysis.definitions.map Definition.reread
    complexity := analysis.complexity.stored }

/-- Whether an analysis can be stored: the numbers by which rows are put in order are so small
that they count as positive, and those of the report are finite, since no others have a form as
text. -/
structure Analysis.IsStorable (analysis : Analysis) : Prop where
  definitions : ∀ definition ∈ analysis.definitions, definition.startLine < 2 ^ 63
  dependencies : ∀ dependency ∈ analysis.dependencies, dependency.line < 2 ^ 63
  chunks : ∀ chunk ∈ analysis.chunks, chunk.index < 2 ^ 63
  maintainability : analysis.complexity.maintainabilityIndex.isFinite = true
  issues : ∀ issue ∈ analysis.complexity.issues,
    issue.value.isFinite = true ∧ issue.threshold.isFinite = true

namespace Store

/-- Whether a store answers for a file what an analysis tells, each row under the identifier of the
file. -/
structure Shows (store : Store) (fileId : String) (analysis : Analysis) : Prop where
  definitions : IsArrangement Definition.startLine
    (analysis.definitions.map (·.inFile fileId)) (store.definitionsOf fileId)
  dependencies : IsArrangement Dependency.line
    (analysis.dependencies.map (·.stored fileId)) (store.dependenciesOf fileId)
  chunks : IsArrangement Chunk.index
    (analysis.chunks.map (·.stored fileId)) (store.chunksOf fileId)
  complexity : store.complexityOf? fileId = some analysis.complexity

/-- Whether a store answers that nothing has been extracted from a file. -/
structure ShowsNothing (store : Store) (fileId : String) : Prop where
  definitions : store.definitionsOf fileId = []
  dependencies : store.dependenciesOf fileId = []
  chunks : store.chunksOf fileId = []
  complexity : store.complexityOf? fileId = none

/-- An analysis that is shown as it has been read back is shown as it was given exactly if reading
back has changed nothing. -/
theorem Shows.iff_reread {store : Store} {fileId : String} {analysis : Analysis}
    (shows : store.Shows fileId analysis.reread) :
    store.Shows fileId analysis ↔ analysis.reread = analysis := by
  constructor
  · intro given
    have definitions : analysis.definitions.map Definition.reread = analysis.definitions := by
      have reread := shows.definitions
      rw [Analysis.reread, List.map_map] at reread
      have same := reread.eq_on given.definitions fun definition => rfl
      apply map_eq_self
      intro definition member
      exact Definition.reread_eq_self (same definition member)
    have complexity := Option.some.inj (shows.complexity.symm.trans given.complexity)
    unfold Analysis.reread at complexity ⊢
    simp only at complexity
    rw [definitions, complexity]
  · intro same
    rwa [same] at shows

/-! ## What is answered -/

end Store

/-- What is recorded of a file between two scans. -/
def IndexedFile.state (file : IndexedFile) : FileState :=
  { id := file.id, path := file.path, contentHash := file.contentHash, time := file.time }

namespace Store

/-- Whether a store answers as a map does. What has been extracted from a file is answered as it
has been written as text and read back. -/
structure Answers (store : Store) (map : FileMap) : Prop where
  load : ∀ project path, store.load? project path = (map project path).map (·.release)
  listed : ∀ project path, path ∈ store.paths project ↔ (map project path).isSome
  ordered : ∀ project, (store.paths project).Pairwise (· < ·)
  counted : ∀ project, store.fileCount project = (store.paths project).length
  states : ∀ project state, state ∈ store.states project ↔
    ∃ file, map project state.path = some file ∧ state = file.state
  stateOnce : ∀ project, ((store.states project).map (·.path)).Nodup
  analysed : ∀ project path file analysis, map project path = some file →
    file.analysis = some analysis → store.Shows file.id analysis.reread
  bare : ∀ fileId, (∀ project path file, map project path = some file → file.id = fileId →
    file.analysis = none) → store.ShowsNothing fileId

namespace Mirrors

variable {store : Store} {map : FileMap}

theorem load?_eq (mirrors : store.Mirrors map) (project path : String) :
    store.load? project path = (map project path).map (·.release) := by
  unfold load?
  rw [mirrors.row?_eq, Option.map_map]
  rfl

theorem mem_rowsOf (mirrors : store.Mirrors map) (project : String) (row : FileRow) :
    row ∈ store.rowsOf project ↔
      ∃ file, map project row.file.path = some file ∧ row = ⟨project, file.release⟩ := by
  rw [rowsOf, List.mem_filter, mirrors.files, beq_iff_eq]
  constructor
  · rintro ⟨⟨file, there, same⟩, rfl⟩
    exact ⟨file, there, by rw [← same]⟩
  · rintro ⟨file, there, rfl⟩
    exact ⟨⟨file, there, rfl⟩, rfl⟩

theorem rowPaths_nodup (mirrors : store.Mirrors map) (project : String) :
    ((store.rowsOf project).map (·.file.path)).Nodup := by
  rw [List.Nodup, List.pairwise_map]
  apply (mirrors.places.filter _).imp_of_mem
  intro row other member otherMember apart same
  have project := eq_of_beq (List.mem_filter.mp member).2
  have otherProject := eq_of_beq (List.mem_filter.mp otherMember).2
  exact apart ⟨project.trans otherProject.symm, same⟩

theorem mem_paths (mirrors : store.Mirrors map) (project path : String) :
    path ∈ store.paths project ↔ (map project path).isSome := by
  unfold Store.paths
  rw [List.mem_mergeSort, List.mem_map]
  constructor
  · rintro ⟨row, member, rfl⟩
    rcases (mirrors.mem_rowsOf project row).mp member with ⟨file, there, -⟩
    rw [there]
    rfl
  · intro isThere
    rcases Option.isSome_iff_exists.mp isThere with ⟨file, there⟩
    have place := mirrors.paths project path file there
    refine ⟨⟨project, file.release⟩, ?_, place⟩
    rw [mirrors.mem_rowsOf]
    exact ⟨file, place.symm ▸ there, rfl⟩

theorem paths_pairwise (mirrors : store.Mirrors map) (project : String) :
    (store.paths project).Pairwise (· < ·) := by
  have sorted : (store.paths project).Pairwise fun left right => decide (left ≤ right) = true :=
    List.pairwise_mergeSort (by simpa using fun _ _ _ => String.le_trans)
      (by simpa using String.le_total) _
  have distinct := (List.mergeSort_perm ((store.rowsOf project).map (·.file.path))
    (fun left right => left ≤ right)).nodup_iff.mpr (mirrors.rowPaths_nodup project)
  apply sorted.imp₂ _ distinct
  intro left right ordered different
  exact Std.lt_of_le_of_ne (of_decide_eq_true ordered) different

theorem mem_states (mirrors : store.Mirrors map) (project : String) (state : FileState) :
    state ∈ store.states project ↔
      ∃ file, map project state.path = some file ∧ state = file.state := by
  unfold Store.states
  rw [List.mem_map]
  constructor
  · rintro ⟨row, member, rfl⟩
    rcases (mirrors.mem_rowsOf project row).mp member with ⟨file, there, same⟩
    refine ⟨file, there, ?_⟩
    rw [same]
    rfl
  · rintro ⟨file, there, rfl⟩
    refine ⟨⟨project, file.release⟩, ?_, rfl⟩
    rw [mirrors.mem_rowsOf]
    exact ⟨file, there, rfl⟩

/-! ## What has been extracted -/

theorem definitionsOf_eq (mirrors : store.Mirrors map) {project path : String} {file : IndexedFile}
    (there : map project path = some file) :
    store.definitionsOf file.id =
      inOrder Definition.startLine (RowFormat.ofDefinitions.merge file.definitionRows) :=
  congrArg (inOrder Definition.startLine) (mirrors.definitions.owned project path file there)

theorem dependenciesOf_eq (mirrors : store.Mirrors map) {project path : String} {file : IndexedFile}
    (there : map project path = some file) :
    store.dependenciesOf file.id =
      inOrder Dependency.line (RowFormat.ofDependencies.merge file.dependencyRows) :=
  congrArg (inOrder Dependency.line) (mirrors.dependencies.owned project path file there)

theorem chunksOf_eq (mirrors : store.Mirrors map) {project path : String} {file : IndexedFile}
    (there : map project path = some file) :
    store.chunksOf file.id = inOrder Chunk.index (RowFormat.ofChunks.merge file.chunkRows) :=
  congrArg (inOrder Chunk.index) (mirrors.chunks.owned project path file there)

theorem complexityOf?_eq_head? (store : Store) (fileId : String) : store.complexityOf? fileId =
    (store.complexities.filter (RowFormat.ofComplexities.fileIdOf · == fileId)).head?.map
      (·.report) := by
  unfold complexityOf?
  rw [← List.head?_filter]
  rfl

theorem complexityOf?_eq (mirrors : store.Mirrors map) {project path : String} {file : IndexedFile}
    (there : map project path = some file) :
    store.complexityOf? file.id = file.analysis.map (·.complexity.stored) := by
  rw [complexityOf?_eq_head?, mirrors.complexities.owned project path file there,
    IndexedFile.complexityRows]
  cases file.analysis <;> rfl

theorem shows (mirrors : store.Mirrors map) {project path : String} {file : IndexedFile}
    {analysis : Analysis} (there : map project path = some file)
    (analysed : file.analysis = some analysis) (distinct : ∀ kind, (file.rowIds kind).Nodup)
    (storable : analysis.IsStorable) : store.Shows file.id analysis.reread := by
  constructor
  · have rows : file.definitionRows = analysis.reread.definitions.map (·.inFile file.id) := by
      rw [IndexedFile.definitionRows, analysed, Analysis.reread, List.map_map]
      rfl
    rw [mirrors.definitionsOf_eq there,
      RowFormat.ofDefinitions.merge_eq_self (distinct .definition), rows]
    apply isArrangement_inOrder
    intro row member
    rcases List.mem_map.mp member with ⟨reread, rereadMember, rfl⟩
    rcases List.mem_map.mp rereadMember with ⟨definition, definitionMember, rfl⟩
    exact storable.definitions definition definitionMember
  · have rows : file.dependencyRows = analysis.dependencies.map (·.stored file.id) := by
      rw [IndexedFile.dependencyRows, analysed]
      rfl
    rw [mirrors.dependenciesOf_eq there,
      RowFormat.ofDependencies.merge_eq_self (distinct .dependency), rows]
    apply isArrangement_inOrder
    intro row member
    rcases List.mem_map.mp member with ⟨dependency, dependencyMember, rfl⟩
    exact storable.dependencies dependency dependencyMember
  · have rows : file.chunkRows = analysis.chunks.map (·.stored file.id) := by
      rw [IndexedFile.chunkRows, analysed]
      rfl
    rw [mirrors.chunksOf_eq there, RowFormat.ofChunks.merge_eq_self (distinct .chunk), rows]
    apply isArrangement_inOrder
    intro row member
    rcases List.mem_map.mp member with ⟨chunk, chunkMember, rfl⟩
    exact storable.chunks chunk chunkMember
  · rw [mirrors.complexityOf?_eq there, analysed]
    rfl

theorem showsNothing (mirrors : store.Mirrors map) {fileId : String}
    (bare : ∀ project path file, map project path = some file → file.id = fileId →
      file.analysis = none) : store.ShowsNothing fileId := by
  have definitions := mirrors.definitions.filter_of_bare fun project path file there same => by
    rw [IndexedFile.definitionRows, bare project path file there same]
    rfl
  have dependencies := mirrors.dependencies.filter_of_bare fun project path file there same => by
    rw [IndexedFile.dependencyRows, bare project path file there same]
    rfl
  have chunks := mirrors.chunks.filter_of_bare fun project path file there same => by
    rw [IndexedFile.chunkRows, bare project path file there same]
    rfl
  have complexities := mirrors.complexities.filter_of_bare fun project path file there same => by
    rw [IndexedFile.complexityRows, bare project path file there same]
    rfl
  constructor
  · exact (congrArg (inOrder Definition.startLine) definitions).trans List.mergeSort_nil
  · exact (congrArg (inOrder Dependency.line) dependencies).trans List.mergeSort_nil
  · exact (congrArg (inOrder Chunk.index) chunks).trans List.mergeSort_nil
  · rw [complexityOf?_eq_head?, complexities]
    rfl

theorem answers (mirrors : store.Mirrors map)
    (distinct : ∀ project path file, map project path = some file →
      ∀ kind, (file.rowIds kind).Nodup)
    (storable : ∀ project path file analysis, map project path = some file →
      file.analysis = some analysis → analysis.IsStorable) : store.Answers map where
  load := mirrors.load?_eq
  listed := mirrors.mem_paths
  ordered := mirrors.paths_pairwise
  counted project := by
    unfold fileCount Store.paths
    rw [List.length_mergeSort, List.length_map]
  states := mirrors.mem_states
  stateOnce project := by
    have paths := mirrors.rowPaths_nodup project
    unfold Store.states
    rwa [List.map_map]
  analysed project path file analysis there analysed :=
    mirrors.shows there analysed (distinct project path file there)
      (storable project path file analysis there analysed)
  bare _ := mirrors.showsNothing

end Mirrors

end Store

end SourceIndex
