import SourceIndex.Proofs.Store.Answers

/-! What a store holds, vectors aside. Vectors are not determined by the files that have been
indexed, since embedding may fail; everything else that is stored is. -/

namespace SourceIndex

/-! ## Without vectors -/

def Chunk.bare (chunk : Chunk) : Chunk := { chunk with embedding := none }

def Analysis.bare (analysis : Analysis) : Analysis :=
  { analysis with chunks := analysis.chunks.map Chunk.bare }

namespace IndexedFile

/-- A file without its content and without vectors. -/
def bare (file : IndexedFile) : IndexedFile :=
  { file with embedding := none, content := "", analysis := file.analysis.map Analysis.bare }

variable (file : IndexedFile)

@[simp] theorem definitionRows_bare : file.bare.definitionRows = file.definitionRows := by
  unfold definitionRows bare
  cases file.analysis <;> rfl

@[simp] theorem dependencyRows_bare : file.bare.dependencyRows = file.dependencyRows := by
  unfold dependencyRows bare
  cases file.analysis <;> rfl

@[simp] theorem chunkRows_bare : file.bare.chunkRows = file.chunkRows.map Chunk.bare := by
  unfold chunkRows bare
  cases file.analysis with
  | none => rfl
  | some analysis =>
      simp only [Option.map_some, Option.getD_some, Analysis.bare, List.map_map]
      rfl

@[simp] theorem rowIds_bare (kind : RowKind) : file.bare.rowIds kind = file.rowIds kind := by
  cases kind with
  | file | complexity => rfl
  | definition => rw [rowIds, rowIds, definitionRows_bare]
  | dependency => rw [rowIds, rowIds, dependencyRows_bare]
  | chunk =>
      rw [rowIds, rowIds, chunkRows_bare, List.map_map]
      rfl

end IndexedFile

namespace FileMap

variable (map : FileMap) (project path : String)

def bare : FileMap := fun project path => (map project path).map IndexedFile.bare

theorem bare_set (file : Option IndexedFile) :
    (map.set project path file).bare = map.bare.set project path (file.map IndexedFile.bare) := by
  funext otherProject otherPath
  unfold bare set
  split <;> rfl

theorem bare_persist (file : IndexedFile) :
    (map.persist project file).bare = map.bare.persist project file.bare :=
  map.bare_set project file.path (some file)

theorem bare_touch (time : FileTime) :
    (map.touch project path time).bare = map.bare.touch project path time := by
  rw [touch, touch, bare_set, Option.map_map, bare, Option.map_map]
  rfl

theorem bare_remove : (map.remove project path).bare = map.bare.remove project path :=
  map.bare_set project path none

variable {map project}

theorem Admits.of_bare {file : IndexedFile} (admits : map.bare.Admits project file.bare) :
    map.Admits project file := by
  constructor
  · intro other there
    exact admits.keepsId other.bare (by rw [bare]; exact congrArg (Option.map _) there)
  · intro otherProject otherPath other there different kind id member
    have found : map.bare otherProject otherPath = some other.bare :=
      congrArg (Option.map IndexedFile.bare) there
    have apart := admits.apart otherProject otherPath other.bare found different kind id
    rw [IndexedFile.rowIds_bare, IndexedFile.rowIds_bare] at apart
    exact apart member

end FileMap

/-! ## Views -/

namespace Store

/-- Whether a store holds the files of a map, vectors aside. -/
def Holds (store : Store) (view : FileMap) : Prop := ∃ map, store.Mirrors map ∧ map.bare = view

theorem holds_empty : Holds {} FileMap.empty := ⟨FileMap.empty, mirrors_empty, rfl⟩

namespace Holds

variable {store : Store} {view : FileMap}

theorem persist (holds : store.Holds view) {project : String} {file : IndexedFile}
    (admits : view.Admits project file.bare) :
    ∃ written, store.persist project file = .ok (acksOf file, written) ∧
      written.Holds (view.persist project file.bare) := by
  rcases holds with ⟨map, mirrors, rfl⟩
  rcases mirrors.persist admits.of_bare with ⟨written, persisted, kept⟩
  exact ⟨written, persisted, _, kept, map.bare_persist project file⟩

theorem touch (holds : store.Holds view) (project path : String) (time : FileTime) :
    (store.touch project path time).2.Holds (view.touch project path time) := by
  rcases holds with ⟨map, mirrors, rfl⟩
  rcases mirrors.touch project path time with ⟨touched, answered, kept⟩
  rw [answered]
  exact ⟨_, kept, map.bare_touch project path time⟩

theorem remove (holds : store.Holds view) (project path : String) :
    (store.remove project path).2.Holds (view.remove project path) := by
  rcases holds with ⟨map, mirrors, rfl⟩
  rcases mirrors.remove project path with ⟨left, answered, kept⟩
  rw [answered]
  exact ⟨_, kept, map.bare_remove project path⟩

/-- The path of a file is where it is stored. -/
theorem path_eq (holds : store.Holds view) {project path : String} {file : IndexedFile}
    (there : view project path = some file) : file.path = path := by
  rcases holds with ⟨map, mirrors, rfl⟩
  rcases Option.map_eq_some_iff.mp there with ⟨stored, storedThere, rfl⟩
  exact mirrors.paths project path stored storedThere

end Holds

/-! ## What is recorded of a path -/

theorem find?_states (store : Store) (project path : String) :
    (store.states project).find? (·.path == path) =
      (store.row? project path).map (·.file.state) := by
  have samePlace : (fun row : FileRow => decide (row.project == project ∧ row.file.path == path)) =
      fun row => row.isAt project path := by
    funext row
    rw [FileRow.isAt, Bool.decide_and, Bool.decide_eq_true, Bool.decide_eq_true]
  unfold states rowsOf row?
  rw [List.find?_map, List.find?_filter, ← samePlace]
  rfl

theorem Holds.find?_states {store : Store} {view : FileMap} (holds : store.Holds view)
    (project path : String) :
    (store.states project).find? (·.path == path) =
      (view project path).map IndexedFile.state := by
  rcases holds with ⟨map, mirrors, rfl⟩
  rw [Store.find?_states, mirrors.row?_eq, Option.map_map, FileMap.bare, Option.map_map]
  rfl

end Store

theorem Store.Holds.mem_states {store : Store} {view : FileMap} (holds : store.Holds view)
    (project : String) (state : FileState) : state ∈ store.states project ↔
      ∃ file, view project state.path = some file ∧ state = file.state := by
  rcases holds with ⟨map, mirrors, rfl⟩
  rw [mirrors.mem_states]
  constructor
  · rintro ⟨file, there, same⟩
    exact ⟨file.bare, congrArg (Option.map IndexedFile.bare) there, same⟩
  · rintro ⟨file, there, same⟩
    rcases Option.map_eq_some_iff.mp there with ⟨stored, storedThere, rfl⟩
    exact ⟨stored, storedThere, same⟩

/-! ## What is found in a store -/

/-- What a store tells of a file, apart from when the file was changed and from vectors. -/
structure FileAccount where
  contentHash : String
  size : Nat
  language : String
  lineCount : Nat
  definitions : List Definition
  dependencies : List Dependency
  chunks : List Chunk
  complexity : Option ComplexityReport

/-- What a store tells of the file at a path. -/
def Store.account? (store : Store) (project path : String) : Option FileAccount :=
  (store.load? project path).map fun file =>
    { contentHash := file.contentHash
      size := file.size
      language := file.language
      lineCount := file.lineCount
      definitions := store.definitionsOf file.id
      dependencies := store.dependenciesOf file.id
      chunks := (store.chunksOf file.id).map Chunk.bare
      complexity := store.complexityOf? file.id }

/-- What a store tells of a file that has been written without vectors. -/
def FileAccount.ofFile (file : IndexedFile) : FileAccount where
  contentHash := file.contentHash
  size := file.size
  language := file.language
  lineCount := file.lineCount
  definitions :=
    Store.inOrder Definition.startLine (RowFormat.ofDefinitions.merge file.definitionRows)
  dependencies :=
    Store.inOrder Dependency.line (RowFormat.ofDependencies.merge file.dependencyRows)
  chunks := Store.inOrder Chunk.index (RowFormat.ofChunks.merge file.chunkRows)
  complexity := file.analysis.map (·.complexity.stored)

/-- When a file has been changed is not told. -/
theorem FileAccount.ofFile_withTime (file : IndexedFile) (time : FileTime) :
    ofFile { file with time } = ofFile file := rfl

namespace Chunk

/-- Vectors play no part in how rows are set. -/
theorem map_bare_setRow (row : Chunk) (rows : List Chunk) :
    (setRow Chunk.id Chunk.revise row rows).map Chunk.bare =
      setRow Chunk.id Chunk.revise row.bare (rows.map Chunk.bare) := by
  induction rows with
  | nil => rfl
  | cons other rows induction =>
      have sameId : other.bare.id = row.bare.id ↔ other.id = row.id := Iff.rfl
      rw [setRow, List.map_cons, setRow]
      by_cases same : other.id = row.id
      · rw [if_pos same, if_pos (sameId.mpr same)]
        rfl
      · rw [if_neg same, if_neg (same ∘ sameId.mp), List.map_cons, induction]

theorem map_bare_put (rows new : List Chunk) :
    (RowFormat.ofChunks.put rows new).map Chunk.bare =
      RowFormat.ofChunks.put (rows.map Chunk.bare) (new.map Chunk.bare) := by
  induction new generalizing rows with
  | nil => rfl
  | cons row new induction =>
      rw [List.map_cons, RowFormat.put_cons, RowFormat.put_cons, induction]
      exact congrArg (RowFormat.ofChunks.put · _) (map_bare_setRow row rows)

theorem map_bare_inOrder (rows : List Chunk) :
    (Store.inOrder Chunk.index rows).map Chunk.bare =
      Store.inOrder Chunk.index (rows.map Chunk.bare) := by
  apply List.map_mergeSort
  exact fun _ _ _ _ => rfl

end Chunk

namespace Store.Holds

variable {store : Store} {view : FileMap}

theorem account?_eq (holds : store.Holds view) (project path : String) :
    store.account? project path = (view project path).map FileAccount.ofFile := by
  rcases holds with ⟨map, mirrors, rfl⟩
  rw [account?, mirrors.load?_eq, Option.map_map, FileMap.bare, Option.map_map]
  apply Option.map_congr
  intro file there
  have chunks : (store.chunksOf file.id).map Chunk.bare =
      inOrder Chunk.index (RowFormat.ofChunks.merge (file.chunkRows.map Chunk.bare)) := by
    rw [mirrors.chunksOf_eq there, Chunk.map_bare_inOrder]
    exact congrArg (inOrder Chunk.index) (Chunk.map_bare_put [] file.chunkRows)
  have complexity : file.bare.analysis.map (·.complexity.stored) =
      file.analysis.map (·.complexity.stored) := by
    rw [IndexedFile.bare, Option.map_map]
    rfl
  simp only [Function.comp_apply, FileAccount.ofFile, IndexedFile.definitionRows_bare,
    IndexedFile.dependencyRows_bare, IndexedFile.chunkRows_bare, complexity]
  rw [← mirrors.definitionsOf_eq there, ← mirrors.dependenciesOf_eq there, ← chunks,
    ← mirrors.complexityOf?_eq there]
  rfl

theorem mem_paths (holds : store.Holds view) (project path : String) :
    path ∈ store.paths project ↔ (view project path).isSome := by
  rcases holds with ⟨map, mirrors, rfl⟩
  rw [mirrors.mem_paths, FileMap.bare, Option.isSome_map]

end Store.Holds

end SourceIndex
