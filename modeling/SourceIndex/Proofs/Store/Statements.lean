import SourceIndex.Proofs.Store.Entries

/-! Calls as sequences of statements, each of which changes the rows of a store in place. What
statements have done stays when a later one fails: nothing is undone. Whatever the identifiers are,
only the first statement of a call can fail, so that a call that fails has done nothing. -/

namespace SourceIndex

/-! ## Statements -/

/-- What statements do to a store. The store that they leave is known also when they fail. -/
abbrev InPlace := EStateM StoreError Store

/-- A table of a store, which has the rows of one kind. Its rows are kept apart from those of the
other tables. -/
structure Table (α : Type) extends RowFormat α where
  kind : RowKind
  rows : Store → List α
  withRows : Store → List α → Store
  rows_withRows : ∀ store new, rows (withRows store new) = new
  withRows_rows : ∀ store, withRows store (rows store) = store
  withRows_withRows : ∀ store former new,
    withRows (withRows store former) new = withRows store new
  files_withRows : ∀ store new, (withRows store new).files = store.files

namespace Table

def definitions : Table Definition where
  toRowFormat := .ofDefinitions
  kind := .definition
  rows := Store.definitions
  withRows store definitions := { store with definitions }
  rows_withRows _ _ := rfl
  withRows_rows _ := rfl
  withRows_withRows _ _ _ := rfl
  files_withRows _ _ := rfl

def dependencies : Table Dependency where
  toRowFormat := .ofDependencies
  kind := .dependency
  rows := Store.dependencies
  withRows store dependencies := { store with dependencies }
  rows_withRows _ _ := rfl
  withRows_rows _ := rfl
  withRows_withRows _ _ _ := rfl
  files_withRows _ _ := rfl

def chunks : Table Chunk where
  toRowFormat := .ofChunks
  kind := .chunk
  rows := Store.chunks
  withRows store chunks := { store with chunks }
  rows_withRows _ _ := rfl
  withRows_rows _ := rfl
  withRows_withRows _ _ _ := rfl
  files_withRows _ _ := rfl

def complexities : Table ComplexityRow where
  toRowFormat := .ofComplexities
  kind := .complexity
  rows := Store.complexities
  withRows store complexities := { store with complexities }
  rows_withRows _ _ := rfl
  withRows_rows _ := rfl
  withRows_withRows _ _ _ := rfl
  files_withRows _ _ := rfl

variable {α : Type} (table : Table α)

/-- Sets a row. A new row whose file is not there is refused; that does not fail, but the row is not
confirmed. -/
def insert (row : α) : InPlace WriteAck := fun store =>
  let id := table.idOf row
  if id ∈ (table.rows store).map table.idOf ∨ table.fileIdOf row ∈ store.fileIds then
    .ok ⟨table.kind, id, some id⟩
      (table.withRows store (setRow table.idOf table.revise row (table.rows store)))
  else .ok ⟨table.kind, id, none⟩ store

/-- Deletes the rows of files. -/
def deleteOf (fileIds : List String) : InPlace Unit :=
  modify fun store =>
    table.withRows store ((table.rows store).filter (table.fileIdOf · ∉ fileIds))

end Table

namespace Store

/-- Sets the row of a file, and tells the identifier it has. -/
def upsertFile (project : String) (file : IndexedFile) : InPlace String := fun store =>
  match store.putFile project file with
  | .ok (durableId, after) => .ok durableId after
  | .error error => .error error store

/-- Deletes all that has been extracted from files. -/
def deleteExtracted (fileIds : List String) : InPlace Unit := do
  Table.definitions.deleteOf fileIds
  Table.dependencies.deleteOf fileIds
  Table.chunks.deleteOf fileIds
  Table.complexities.deleteOf fileIds

/-- Sets the rows of an analysis one after the other. -/
def insertAnalysis (fileId : String) (analysis : Analysis) : InPlace (List WriteAck) := do
  let definitions ←
    (analysis.definitions.map (Definition.stored fileId)).mapM Table.definitions.insert
  let dependencies ←
    (analysis.dependencies.map (Dependency.stored fileId)).mapM Table.dependencies.insert
  let chunks ← (analysis.chunks.map (Chunk.stored fileId)).mapM Table.chunks.insert
  let complexity ← Table.complexities.insert ⟨fileId, analysis.complexity.stored⟩
  return definitions ++ dependencies ++ chunks ++ [complexity]

def persistInPlace (project : String) (file : IndexedFile) : InPlace (List WriteAck) := do
  let durableId ← upsertFile project file
  let ack : WriteAck := ⟨.file, file.id, some durableId⟩
  deleteExtracted [durableId]
  match file.analysis with
  | none => return [ack]
  | some analysis => return ack :: (← insertAnalysis durableId analysis)

def touchInPlace (project path : String) (time : FileTime) : InPlace Bool := fun store =>
  .ok (store.files.any (·.isAt project path))
    { store with
      files := store.files.map fun row =>
        if row.isAt project path then { row with file := { row.file with time } } else row }

/-- Deletes the rows of files at a path, and tells their identifiers. -/
def deleteFiles (project path : String) : InPlace (List String) := fun store =>
  .ok ((store.files.filter (·.isAt project path)).map (·.file.id))
    { store with files := store.files.filter (! ·.isAt project path) }

/-- Deletes the row of a file, which takes along all that belongs to it. -/
def removeInPlace (project path : String) : InPlace Bool := do
  let deleted ← deleteFiles project path
  deleteExtracted deleted
  return ! deleted.isEmpty

end Store

def StoreCall.inPlace : StoreCall → InPlace StoreAnswer
  | .persist project file => return .written (← Store.persistInPlace project file)
  | .touch project path time => return .found (← Store.touchInPlace project path time)
  | .remove project path => return .found (← Store.removeInPlace project path)

/-! ## What the statements of a call do -/

/-- An outcome of a call that either does all that it has to do or changes nothing. -/
def settledIn {α : Type} (store : Store) :
    Except StoreError (α × Store) → EStateM.Result StoreError Store α
  | .ok (answer, after) => .ok answer after
  | .error error => .error error store

namespace InPlace

variable {α β : Type} {statement : InPlace α} {next : α → InPlace β} {store after : Store}

theorem run_bind : (statement >>= next).run store =
    match statement.run store with
    | .ok answer after => (next answer).run after
    | .error error after => .error error after := by
  rw [EStateM.run, EStateM.run]
  simp only [bind, EStateM.bind]
  cases statement store <;> rfl

/-- A statement that succeeds hands its store to those behind it. -/
theorem run_bind_of_ok {answer : α} (done : statement.run store = .ok answer after) :
    (statement >>= next).run store = (next answer).run after := by
  rw [run_bind, done]

theorem run_bind_of_error {error : StoreError} (failed : statement.run store = .error error after) :
    (statement >>= next).run store = .error error after := by
  rw [run_bind, failed]

end InPlace

namespace Table

variable {α : Type} (table : Table α)

/-- A row whose file is there is confirmed. -/
theorem insert_of_mem (store : Store) (row : α)
    (known : table.fileIdOf row ∈ store.fileIds) :
    (table.insert row).run store = .ok ⟨table.kind, table.idOf row, some (table.idOf row)⟩
      (table.withRows store (setRow table.idOf table.revise row (table.rows store))) :=
  if_pos (.inr known)

/-- Rows whose files are there are all confirmed, and all set. -/
theorem mapM_insert (store : Store) (new : List α)
    (known : ∀ row ∈ new, table.fileIdOf row ∈ store.fileIds) :
    (new.mapM table.insert).run store =
      .ok (new.map fun row => ⟨table.kind, table.idOf row, some (table.idOf row)⟩)
        (table.withRows store (table.put (table.rows store) new)) := by
  induction new generalizing store with
  | nil =>
      have nothing : table.put (table.rows store) [] = table.rows store := rfl
      rw [nothing, table.withRows_rows]
      rfl
  | cons row new induction =>
      have inserted := table.insert_of_mem store row (known row List.mem_cons_self)
      have others := induction
        (table.withRows store (setRow table.idOf table.revise row (table.rows store))) (by
          intro row member
          rw [Store.fileIds, table.files_withRows]
          exact known row (List.mem_cons_of_mem _ member))
      rw [List.mapM_cons, InPlace.run_bind_of_ok inserted, InPlace.run_bind_of_ok others,
        table.rows_withRows, table.withRows_withRows, table.put_cons]
      rfl

/-- What has been found in a file that is there can be stored. -/
theorem mapM_insert_map {β : Type} (store : Store) (stored : β → α) {fileId : String}
    (owned : ∀ item, table.fileIdOf (stored item) = fileId) (known : fileId ∈ store.fileIds)
    (found : List β) : ((found.map stored).mapM table.insert).run store =
      .ok ((found.map stored).map fun row =>
          ⟨table.kind, table.idOf row, some (table.idOf row)⟩)
        (table.withRows store (table.put (table.rows store) (found.map stored))) := by
  apply mapM_insert
  intro row member
  rcases List.mem_map.mp member with ⟨item, -, rfl⟩
  rwa [owned item]

end Table

namespace Store

variable {store : Store}

theorem deleteExtracted_eq (store : Store) (fileIds : List String) :
    (deleteExtracted fileIds).run store = .ok ()
      { store with
        definitions := store.definitions.filter (·.fileId ∉ fileIds)
        dependencies := store.dependencies.filter (·.fileId ∉ fileIds)
        chunks := store.chunks.filter (·.fileId ∉ fileIds)
        complexities := store.complexities.filter (·.fileId ∉ fileIds) } := rfl

theorem filter_not_mem_singleton {α : Type} (fileIdOf : α → String) (fileId : String)
    (rows : List α) :
    rows.filter (fileIdOf · ∉ [fileId]) = rows.filter (fileIdOf · != fileId) := by
  apply List.filter_congr
  intro row _
  rw [Bool.eq_iff_iff, decide_eq_true_iff, bne_iff_ne, List.mem_singleton]

theorem deleteExtracted_singleton (store : Store) (fileId : String) :
    (deleteExtracted [fileId]).run store = .ok () (store.clear fileId) := by
  rw [deleteExtracted_eq, clear]
  simp only [filter_not_mem_singleton]

/-- All rows of an analysis are confirmed, since their file is there. -/
theorem insertAnalysis_eq {fileId : String} (known : fileId ∈ store.fileIds)
    (analysis : Analysis) : (insertAnalysis fileId analysis).run store =
      .ok (analysisAcks fileId analysis) (store.putAnalysis fileId analysis) := by
  let defined := { store with
    definitions := Table.definitions.put store.definitions
      (analysis.definitions.map (Definition.stored fileId)) }
  let depending := { defined with
    dependencies := Table.dependencies.put store.dependencies
      (analysis.dependencies.map (Dependency.stored fileId)) }
  let chunked := { depending with
    chunks := Table.chunks.put store.chunks (analysis.chunks.map (Chunk.stored fileId)) }
  let complexity : ComplexityRow := ⟨fileId, analysis.complexity.stored⟩
  have definitionsSet := Table.definitions.mapM_insert_map store (Definition.stored fileId)
    (fun _ => rfl) known analysis.definitions
  have dependenciesSet := Table.dependencies.mapM_insert_map defined (Dependency.stored fileId)
    (fun _ => rfl) known analysis.dependencies
  have chunksSet := Table.chunks.mapM_insert_map depending (Chunk.stored fileId)
    (fun _ => rfl) known analysis.chunks
  have complexitySet := Table.complexities.insert_of_mem chunked complexity known
  have done : (insertAnalysis fileId analysis).run store = _ :=
    (InPlace.run_bind_of_ok definitionsSet).trans ((InPlace.run_bind_of_ok dependenciesSet).trans
      ((InPlace.run_bind_of_ok chunksSet).trans (InPlace.run_bind_of_ok complexitySet)))
  rw [done]
  simp only [EStateM.run, pure, EStateM.pure, List.map_map, analysisAcks, putAnalysis, chunked,
    depending, defined, RowFormat.put, List.foldl_map]
  rfl

/-- The identifier that a file gets is there when its row has been set. -/
theorem mem_fileIds_of_putFile {project : String} {file : IndexedFile} {durable : String}
    {after : Store} (put : store.putFile project file = .ok (durable, after)) :
    durable ∈ after.fileIds := by
  rcases putFile_eq_ok put with ⟨rfl, rfl, -⟩
  exact mem_fileIds_written (.inr rfl)

/-- Writing a file in place does all that it has to do or nothing, although nothing is undone. -/
theorem persistInPlace_eq (store : Store) (project : String) (file : IndexedFile) :
    (persistInPlace project file).run store = settledIn store (store.persist project file) := by
  cases put : store.putFile project file with
  | error error =>
      have failed : (upsertFile project file).run store = .error error store := by
        simp only [EStateM.run, upsertFile, put]
      rw [persistInPlace, InPlace.run_bind_of_error failed, persist, put]
      rfl
  | ok answer =>
      rcases answer with ⟨durable, after⟩
      have done : (upsertFile project file).run store = .ok durable after := by
        simp only [EStateM.run, upsertFile, put]
      have known : durable ∈ (after.clear durable).fileIds := by
        have there : durable ∈ after.fileIds := mem_fileIds_of_putFile put
        exact there
      rw [persistInPlace, InPlace.run_bind_of_ok done,
        InPlace.run_bind_of_ok (deleteExtracted_singleton after durable), persist, put]
      simp only [bind, Except.bind]
      cases file.analysis with
      | none => rfl
      | some analysis =>
          exact InPlace.run_bind_of_ok (insertAnalysis_eq known analysis)

theorem any_isAt (store : Store) (project path : String) :
    store.files.any (·.isAt project path) = (store.row? project path).isSome := by
  rw [row?, List.isSome_find?]

theorem touchInPlace_eq (store : Store) (project path : String) (time : FileTime) :
    (touchInPlace project path time).run store = .ok (store.touch project path time).1
      (store.touch project path time).2 := by
  simp only [EStateM.run, touchInPlace, any_isAt]
  rfl

/-- At most one file is at a path. -/
theorem IsSound.filter_isAt (sound : store.IsSound) (project path : String) :
    store.files.filter (·.isAt project path) = (store.row? project path).toList := by
  have theRow : ∀ row, row ∈ store.files.filter (·.isAt project path) →
      store.row? project path = some row := by
    intro row member
    rcases List.mem_filter.mp member with ⟨inside, atPlace⟩
    rcases (row.isAt_iff project path).mp atPlace with ⟨rfl, rfl⟩
    exact sound.row?_of_mem inside
  cases found : store.row? project path with
  | none =>
      rw [Option.toList_none, List.eq_nil_iff_forall_not_mem]
      intro row member
      exact nomatch found.symm.trans (theRow row member)
  | some row =>
      have distinct : (store.files.filter (·.isAt project path)).Nodup :=
        (List.Nodup.of_map _ sound.places).filter _
      have alone : (store.files.filter (·.isAt project path)).Perm [row] := by
        rw [List.perm_ext_iff_of_nodup distinct (List.nodup_singleton row)]
        intro other
        rw [List.mem_singleton]
        constructor
        · exact fun member => Option.some.inj ((theRow other member).symm.trans found)
        · rintro rfl
          rcases row?_eq_some found with ⟨member, place⟩
          exact List.mem_filter.mpr ⟨member, (other.isAt_iff project path).mpr place⟩
      exact alone.eq_singleton

/-- What belongs to a file that is removed goes with it, and nothing else does. -/
theorem IsSound.removeInPlace_eq (sound : store.IsSound) (project path : String) :
    (removeInPlace project path).run store = .ok (store.remove project path).1
      (store.remove project path).2 := by
  have done : (deleteFiles project path).run store = .ok
      ((store.row? project path).toList.map (·.file.id))
      { store with files := store.files.filter (! ·.isAt project path) } := by
    simp only [EStateM.run, deleteFiles, sound.filter_isAt]
  rw [removeInPlace, InPlace.run_bind_of_ok done]
  cases found : store.row? project path with
  | none =>
      have elsewhere : store.files.filter (! ·.isAt project path) = store.files := by
        rw [List.filter_eq_self]
        intro row member
        rw [Bool.not_eq_true', ← Bool.not_eq_true]
        exact List.find?_eq_none.mp found row member
      rw [Option.toList_none, List.map_nil, elsewhere, Store.remove, found,
        InPlace.run_bind_of_ok (deleteExtracted_eq store [])]
      simp only [List.not_mem_nil, not_false_eq_true, decide_true, List.filter_true]
      rfl
  | some row =>
      rw [Option.toList_some, List.map_singleton,
        InPlace.run_bind_of_ok (deleteExtracted_singleton _ _), Store.remove, found]
      rfl

/-- Calls that are done in place do what they do at once. -/
theorem IsSound.inPlace_eq (sound : store.IsSound) (call : StoreCall) :
    call.inPlace.run store = settledIn store (store.call call) := by
  cases call with
  | persist project file =>
      have done := persistInPlace_eq store project file
      rw [Store.call]
      cases persisted : store.persist project file with
      | error error =>
          rw [persisted] at done
          exact InPlace.run_bind_of_error done
      | ok answer =>
          rw [persisted] at done
          exact InPlace.run_bind_of_ok done
  | touch project path time =>
      exact InPlace.run_bind_of_ok (touchInPlace_eq store project path time)
  | remove project path => exact InPlace.run_bind_of_ok (sound.removeInPlace_eq project path)

end Store

end SourceIndex
