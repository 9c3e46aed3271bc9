import SourceIndex.Store.Reading

/-! Rows that are extracted from files. All kinds of them are stored alike: those of a file are
taken away together, and those of a new analysis are set one after the other, each in the place of
a row of the same identifier if there is one. -/

namespace SourceIndex

theorem map_eq_self {α : Type} {change : α → α} {items : List α}
    (same : ∀ item ∈ items, change item = item) : items.map change = items :=
  (List.map_congr_left same).trans (List.map_id items)

/-! ## Setting one row -/

section

variable {α : Type} {idOf : α → String} {revise : (old new : α) → α}

theorem setRow_append {row : α} {left : List α} (foreign : ∀ other ∈ left, idOf other ≠ idOf row)
    (right : List α) :
    setRow idOf revise row (left ++ right) = left ++ setRow idOf revise row right := by
  induction left with
  | nil => rfl
  | cons other left induction =>
      have different : idOf other ≠ idOf row := foreign other List.mem_cons_self
      have rest := induction fun other member => foreign other (List.mem_cons_of_mem _ member)
      simp only [List.cons_append, setRow, if_neg different, rest]

theorem setRow_of_foreign {row : α} {rows : List α}
    (foreign : ∀ other ∈ rows, idOf other ≠ idOf row) :
    setRow idOf revise row rows = rows ++ [row] := by
  have appended : setRow idOf revise row (rows ++ []) = rows ++ [row] := setRow_append foreign []
  rwa [List.append_nil] at appended

theorem forall_mem_setRow {holds : α → Prop} {row : α} {rows : List α}
    (all : ∀ other ∈ rows, holds other) (new : holds row)
    (revised : ∀ old ∈ rows, idOf row = idOf old → holds (revise old row)) :
    ∀ other ∈ setRow idOf revise row rows, holds other := by
  induction rows with
  | nil =>
      intro other member
      rw [setRow, List.mem_singleton] at member
      exact member ▸ new
  | cons former rows induction =>
      have head := all former List.mem_cons_self
      have tail : ∀ other ∈ rows, holds other := fun other member =>
        all other (List.mem_cons_of_mem _ member)
      intro other member
      rw [setRow] at member
      split at member
      · next same =>
          rcases List.mem_cons.mp member with rfl | member
          · exact revised former List.mem_cons_self same.symm
          · exact tail other member
      · rcases List.mem_cons.mp member with rfl | member
        · exact head
        · exact induction tail
            (fun old member => revised old (List.mem_cons_of_mem _ member)) other member

end

/-! ## Setting the rows of an analysis -/

/-- How the rows of a kind are told apart. What a row takes over from a later one changes neither
its identifier nor its file. -/
structure RowFormat (α : Type) where
  idOf : α → String
  fileIdOf : α → String
  revise : (old new : α) → α
  id_revise : ∀ old new, idOf new = idOf old → idOf (revise old new) = idOf old
  fileId_revise : ∀ old new, fileIdOf new = fileIdOf old → fileIdOf (revise old new) = fileIdOf old

namespace RowFormat

def ofDefinitions : RowFormat Definition where
  idOf := Definition.id
  fileIdOf := Definition.fileId
  revise := Definition.revise
  id_revise _ _ _ := rfl
  fileId_revise _ _ _ := rfl

def ofDependencies : RowFormat Dependency where
  idOf := Dependency.id
  fileIdOf := Dependency.fileId
  revise := Dependency.revise
  id_revise _ _ _ := rfl
  fileId_revise _ _ _ := rfl

def ofChunks : RowFormat Chunk where
  idOf := Chunk.id
  fileIdOf := Chunk.fileId
  revise := Chunk.revise
  id_revise _ _ _ := rfl
  fileId_revise _ _ _ := rfl

def ofComplexities : RowFormat ComplexityRow where
  idOf := ComplexityRow.fileId
  fileIdOf := ComplexityRow.fileId
  revise _ row := row
  id_revise _ _ same := same
  fileId_revise _ _ same := same

variable {α : Type} (format : RowFormat α)

/-- Sets new rows one after the other. -/
def put (rows new : List α) : List α :=
  new.foldl (fun rows row => setRow format.idOf format.revise row rows) rows

/-- What becomes of the rows of an analysis among themselves: those of one identifier become one
row. -/
def merge (new : List α) : List α := format.put [] new

theorem put_cons (rows : List α) (row : α) (new : List α) :
    format.put rows (row :: new) =
      format.put (setRow format.idOf format.revise row rows) new := rfl

theorem put_append {left : List α} {new : List α}
    (foreign : ∀ other ∈ left, ∀ row ∈ new, format.idOf other ≠ format.idOf row) (right : List α) :
    format.put (left ++ right) new = left ++ format.put right new := by
  induction new generalizing right with
  | nil => rfl
  | cons row new induction =>
      have first : ∀ other ∈ left, format.idOf other ≠ format.idOf row := fun other member =>
        foreign other member row List.mem_cons_self
      rw [put_cons, put_cons, setRow_append first]
      apply induction
      exact fun other member row later => foreign other member row (List.mem_cons_of_mem _ later)

/-- Rows that share no identifier with those that are there are added behind them. -/
theorem put_eq_append_merge {rows new : List α}
    (foreign : ∀ other ∈ rows, ∀ row ∈ new, format.idOf other ≠ format.idOf row) :
    format.put rows new = rows ++ format.merge new := by
  have appended := format.put_append foreign []
  rwa [List.append_nil] at appended

theorem forall_mem_put {holds : α → Prop} {rows new : List α}
    (all : ∀ row ∈ rows, holds row) (added : ∀ row ∈ new, holds row)
    (revised : ∀ old new, holds old → holds new → format.idOf new = format.idOf old →
      holds (format.revise old new)) :
    ∀ row ∈ format.put rows new, holds row := by
  induction new generalizing rows with
  | nil => exact all
  | cons row new induction =>
      have first := added row List.mem_cons_self
      rw [put_cons]
      apply induction
      · exact forall_mem_setRow all first fun old member same =>
          revised old row (all old member) first same
      · exact fun row member => added row (List.mem_cons_of_mem _ member)

theorem fileId_of_mem_merge {new : List α} {fileId : String}
    (owned : ∀ row ∈ new, format.fileIdOf row = fileId) {row : α}
    (member : row ∈ format.merge new) :
    format.fileIdOf row = fileId := by
  have nothing : ∀ row ∈ ([] : List α), format.fileIdOf row = fileId := nofun
  refine format.forall_mem_put nothing owned ?_ row member
  intro old new oldOwned newOwned _
  rw [format.fileId_revise old new (newOwned.trans oldOwned.symm), oldOwned]

theorem id_of_mem_merge {new : List α} {row : α} (member : row ∈ format.merge new) :
    ∃ given ∈ new, format.idOf given = format.idOf row := by
  have nothing : ∀ row ∈ ([] : List α), ∃ given ∈ new, format.idOf given = format.idOf row := nofun
  refine format.forall_mem_put nothing (fun row member => ⟨row, member, rfl⟩) ?_ row member
  rintro old new ⟨given, member, same⟩ _ sameId
  exact ⟨given, member, same.trans (format.id_revise old new sameId).symm⟩

/-- Rows of different identifiers do not touch each other. -/
theorem merge_eq_self {new : List α} (distinct : (new.map format.idOf).Nodup) :
    format.merge new = new := by
  have behind : ∀ rows : List α,
      (∀ other ∈ rows, ∀ row ∈ new, format.idOf other ≠ format.idOf row) →
      format.put rows new = rows ++ new := by
    induction new with
    | nil => exact fun rows _ => (List.append_nil rows).symm
    | cons row new induction =>
        intro rows foreign
        rw [List.map_cons, List.nodup_cons] at distinct
        rw [put_cons, setRow_of_foreign fun other member =>
          foreign other member row List.mem_cons_self,
          induction distinct.2, List.append_assoc, List.singleton_append]
        intro other member later laterMember
        rcases List.mem_append.mp member with member | member
        · exact foreign other member later (List.mem_cons_of_mem _ laterMember)
        · rw [List.mem_singleton.mp member]
          intro same
          exact distinct.1 (List.mem_map.mpr ⟨later, laterMember, same.symm⟩)
  exact behind [] nofun

end RowFormat

/-! ## The rows of a file -/

namespace IndexedFile

/-- The rows by which the definitions of a file are stored. -/
def definitionRows (file : IndexedFile) : List Definition :=
  ((file.analysis.map (·.definitions)).getD []).map (·.stored file.id)

def dependencyRows (file : IndexedFile) : List Dependency :=
  ((file.analysis.map (·.dependencies)).getD []).map (·.stored file.id)

def chunkRows (file : IndexedFile) : List Chunk :=
  ((file.analysis.map (·.chunks)).getD []).map (·.stored file.id)

def complexityRows (file : IndexedFile) : List ComplexityRow :=
  (file.analysis.map fun analysis => ⟨file.id, analysis.complexity.stored⟩).toList

theorem fileId_of_mem_definitionRows {file : IndexedFile} {row : Definition}
    (member : row ∈ file.definitionRows) : row.fileId = file.id := by
  rcases List.mem_map.mp member with ⟨definition, -, rfl⟩
  rfl

theorem fileId_of_mem_dependencyRows {file : IndexedFile} {row : Dependency}
    (member : row ∈ file.dependencyRows) : row.fileId = file.id := by
  rcases List.mem_map.mp member with ⟨dependency, -, rfl⟩
  rfl

theorem fileId_of_mem_chunkRows {file : IndexedFile} {row : Chunk}
    (member : row ∈ file.chunkRows) : row.fileId = file.id := by
  rcases List.mem_map.mp member with ⟨chunk, -, rfl⟩
  rfl

theorem fileId_of_mem_complexityRows {file : IndexedFile} {row : ComplexityRow}
    (member : row ∈ file.complexityRows) : row.fileId = file.id := by
  rcases Option.map_eq_some_iff.mp (Option.mem_toList.mp member) with ⟨analysis, -, rfl⟩
  rfl

/-- The identifiers of the rows of a kind by which a file is stored. -/
def rowIds (file : IndexedFile) : RowKind → List String
  | .file | .complexity => [file.id]
  | .definition => file.definitionRows.map (·.id)
  | .dependency => file.dependencyRows.map (·.id)
  | .chunk => file.chunkRows.map (·.id)

theorem rowIds_withTime (file : IndexedFile) (time : FileTime) (kind : RowKind) :
    ({ file with time } : IndexedFile).rowIds kind = file.rowIds kind := by
  cases kind <;> rfl

/-- What the identifiers of extracted rows stand for has been found in the file. -/
theorem exists_of_mem_extracted {file : IndexedFile} {α : Type} {found : Analysis → List α}
    {stored : α → α} {idOf : α → String} {id : String}
    (member : id ∈ (((file.analysis.map found).getD []).map stored).map idOf)
    (kept : ∀ item, idOf (stored item) = idOf item) :
    ∃ analysis, file.analysis = some analysis ∧ ∃ item ∈ found analysis, idOf item = id := by
  rcases List.mem_map.mp member with ⟨row, rowMember, rfl⟩
  rcases List.mem_map.mp rowMember with ⟨item, inside, rfl⟩
  cases analysed : file.analysis with
  | none =>
      rw [analysed] at inside
      exact absurd inside List.not_mem_nil
  | some analysis =>
      rw [analysed] at inside
      exact ⟨analysis, rfl, item, inside, (kept item).symm⟩

end IndexedFile

/-! ## What writing an analysis does -/

namespace Store

/-- A store with what has been extracted from a file in the place of what was extracted before. -/
def exchange (store : Store) (file : IndexedFile) : Store where
  files := store.files
  definitions := RowFormat.ofDefinitions.put
    (store.definitions.filter (·.fileId != file.id)) file.definitionRows
  dependencies := RowFormat.ofDependencies.put
    (store.dependencies.filter (·.fileId != file.id)) file.dependencyRows
  chunks := RowFormat.ofChunks.put
    (store.chunks.filter (·.fileId != file.id)) file.chunkRows
  complexities := RowFormat.ofComplexities.put
    (store.complexities.filter (·.fileId != file.id)) file.complexityRows

theorem putAnalysis_clear (store : Store) (file : IndexedFile) {analysis : Analysis}
    (analysed : file.analysis = some analysis) :
    (store.clear file.id).putAnalysis file.id analysis = store.exchange file := by
  simp only [exchange, RowFormat.put, IndexedFile.definitionRows, IndexedFile.dependencyRows,
    IndexedFile.chunkRows, IndexedFile.complexityRows, analysed, Option.map_some, Option.getD_some,
    List.foldl_map, Option.toList_some, List.foldl_cons, List.foldl_nil]
  rfl

theorem clear_of_not_analysed (store : Store) (file : IndexedFile)
    (notAnalysed : file.analysis = none) : store.clear file.id = store.exchange file := by
  simp only [exchange, IndexedFile.definitionRows, IndexedFile.dependencyRows,
    IndexedFile.chunkRows, IndexedFile.complexityRows, notAnalysed]
  rfl

end Store

end SourceIndex
