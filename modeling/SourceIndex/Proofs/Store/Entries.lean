import SourceIndex.Proofs.Store.Refinement
import Mathlib.Data.List.Nodup

/-! What a store has at each path of a project: the row of a file and the rows that have been
extracted from it. Every call changes what there is at one path, and nothing elsewhere, as long as
no row of another path has an identifier of those that are written. -/

namespace SourceIndex

/-! ## Stores -/

/-- What is stored at a path. -/
structure StoredEntry where
  file : IndexedFile
  definitions : List Definition
  dependencies : List Dependency
  chunks : List Chunk
  complexities : List ComplexityRow

/-- The project and the path of a file that is stored. -/
def FileRow.place (row : FileRow) : String × String := (row.project, row.file.path)

theorem FileRow.isAt_iff_place (row : FileRow) (project path : String) :
    row.isAt project path = true ↔ row.place = (project, path) := by
  rw [isAt_iff, place, Prod.mk.injEq]

/-- A file that is written again stays where it is. -/
theorem FileRow.place_revise {row : FileRow} {project : String} {file : IndexedFile}
    (atPlace : row.isAt project file.path = true) : (row.revise file).place = row.place := by
  rw [(row.isAt_iff_place _ _).mp atPlace]
  exact congrArg (Prod.mk · file.path) ((row.isAt_iff _ _).mp atPlace).1

namespace Store

def fileIds (store : Store) : List String := store.files.map (·.file.id)

/-- Whether the rows of a store fit together: every place and every identifier is that of one file
only, and what has been extracted has been extracted from a file that is there. -/
structure IsSound (store : Store) : Prop where
  places : (store.files.map FileRow.place).Nodup
  ids : store.fileIds.Nodup
  definitions : ∀ row ∈ store.definitions, row.fileId ∈ store.fileIds
  dependencies : ∀ row ∈ store.dependencies, row.fileId ∈ store.fileIds
  chunks : ∀ row ∈ store.chunks, row.fileId ∈ store.fileIds
  complexities : ∀ row ∈ store.complexities, row.fileId ∈ store.fileIds

/-- What is stored of a file. -/
def entryOf (store : Store) (file : IndexedFile) : StoredEntry where
  file
  definitions := store.definitions.filter (·.fileId == file.id)
  dependencies := store.dependencies.filter (·.fileId == file.id)
  chunks := store.chunks.filter (·.fileId == file.id)
  complexities := store.complexities.filter (·.fileId == file.id)

def entryAt? (store : Store) (project path : String) : Option StoredEntry :=
  (store.row? project path).map fun row => store.entryOf row.file

end Store

namespace StoredEntry

/-- The identifiers of the rows of a kind at a path. -/
def rowIds (entry : StoredEntry) : RowKind → List String
  | .file | .complexity => [entry.file.id]
  | .definition => entry.definitions.map (·.id)
  | .dependency => entry.dependencies.map (·.id)
  | .chunk => entry.chunks.map (·.id)

/-- What is stored of a file that is written. -/
def ofFile (file : IndexedFile) : StoredEntry where
  file := file.release
  definitions := RowFormat.ofDefinitions.merge file.definitionRows
  dependencies := RowFormat.ofDependencies.merge file.dependencyRows
  chunks := RowFormat.ofChunks.merge file.chunkRows
  complexities := RowFormat.ofComplexities.merge file.complexityRows

/-- What there is at a path once a file has been written there. A file that is there already keeps
its identifier. -/
def writtenOver (file : IndexedFile) (former : Option StoredEntry) : StoredEntry :=
  ofFile { file with id := (former.map (·.file.id)).getD file.id }

end StoredEntry

namespace StoreCall

/-- The project and the path that a call is about. -/
def place : StoreCall → String × String
  | .persist project file => (project, file.path)
  | .touch project path _ => (project, path)
  | .remove project path => (project, path)

/-- What a call leaves at its path. -/
def leaves (former : Option StoredEntry) : StoreCall → Option StoredEntry
  | .persist _ file => some (.writtenOver file former)
  | .touch _ _ time => former.map fun entry => { entry with file := { entry.file with time } }
  | .remove _ _ => none

end StoreCall

/-! ## Rows that are exchanged -/

namespace RowFormat

variable {α : Type} (format : RowFormat α) {rows new : List α} {fileId : String}

/-- The rows of a file are those that have been put in the place of its former ones. -/
theorem filter_exchanged (owned : ∀ row ∈ new, format.fileIdOf row = fileId)
    (foreign : ∀ other ∈ rows.filter (format.fileIdOf · != fileId), ∀ row ∈ new,
      format.idOf other ≠ format.idOf row) :
    (format.put (rows.filter (format.fileIdOf · != fileId)) new).filter
      (format.fileIdOf · == fileId) = format.merge new := by
  rw [format.put_eq_append_merge foreign, List.filter_append,
    Mirrors.filter_of_foreign fun row member => by simpa using (List.mem_filter.mp member).2,
    Mirrors.filter_of_owned fun row member => format.fileId_of_mem_merge owned member,
    List.nil_append]

/-- The rows of another file stay as they are. -/
theorem filter_exchanged_other (owned : ∀ row ∈ new, format.fileIdOf row = fileId)
    (foreign : ∀ other ∈ rows.filter (format.fileIdOf · != fileId), ∀ row ∈ new,
      format.idOf other ≠ format.idOf row) {other : String} (different : other ≠ fileId) :
    (format.put (rows.filter (format.fileIdOf · != fileId)) new).filter
      (format.fileIdOf · == other) = rows.filter (format.fileIdOf · == other) := by
  have none : (format.merge new).filter (format.fileIdOf · == other) = [] := by
    apply Mirrors.filter_of_foreign
    intro row member
    rw [format.fileId_of_mem_merge owned member]
    exact different.symm
  rw [format.put_eq_append_merge foreign, List.filter_append, Mirrors.filter_kept different, none,
    List.append_nil]

/-- What is true of the files to which rows belong stays true when those of one file are
exchanged. -/
theorem forall_mem_exchanged (holds : String → Prop)
    (former : ∀ row ∈ rows, holds (format.fileIdOf row))
    (owned : ∀ row ∈ new, format.fileIdOf row = fileId) (isHeld : holds fileId)
    (keeps : ∀ old new, format.fileIdOf (format.revise old new) = format.fileIdOf old ∨
      format.fileIdOf (format.revise old new) = format.fileIdOf new) :
    ∀ row ∈ format.put (rows.filter (format.fileIdOf · != fileId)) new,
      holds (format.fileIdOf row) := by
  have isHeldOf : ∀ old new, holds (format.fileIdOf old) → holds (format.fileIdOf new) →
      format.idOf new = format.idOf old → holds (format.fileIdOf (format.revise old new)) := by
    intro old new oldHeld newHeld _
    rcases keeps old new with same | same
    · rwa [same]
    · rwa [same]
  refine format.forall_mem_put ?_ ?_ isHeldOf
  · exact fun row member => former row (List.mem_filter.mp member).1
  · intro row member
    rw [owned row member]
    exact isHeld

end RowFormat

namespace IndexedFile

variable (file : IndexedFile) (id : String)

/-- What has been extracted from a file has identifiers of its own, whichever the file has. -/
theorem map_id_definitionRows :
    (({ file with id } : IndexedFile).definitionRows).map (·.id) = file.rowIds .definition := by
  simp only [rowIds, definitionRows, List.map_map]
  rfl

theorem map_id_dependencyRows :
    (({ file with id } : IndexedFile).dependencyRows).map (·.id) = file.rowIds .dependency := by
  simp only [rowIds, dependencyRows, List.map_map]
  rfl

theorem map_id_chunkRows :
    (({ file with id } : IndexedFile).chunkRows).map (·.id) = file.rowIds .chunk := by
  simp only [rowIds, chunkRows, List.map_map]
  rfl

end IndexedFile

namespace Store

variable {store : Store}

/-! ## Rows of files -/

theorem row?_eq_some {project path : String} {row : FileRow}
    (found : store.row? project path = some row) :
    row ∈ store.files ∧ row.project = project ∧ row.file.path = path := by
  have atPlace := List.find?_some (p := fun row : FileRow => row.isAt project path) found
  exact ⟨List.mem_of_find?_eq_some found, (row.isAt_iff project path).mp atPlace⟩

theorem IsSound.row?_of_mem (sound : store.IsSound) {row : FileRow} (member : row ∈ store.files) :
    store.row? row.project row.file.path = some row := by
  cases found : store.row? row.project row.file.path with
  | none =>
      have atPlace := (row.isAt_iff row.project row.file.path).mpr ⟨rfl, rfl⟩
      exact absurd atPlace (List.find?_eq_none.mp found row member)
  | some other =>
      rcases row?_eq_some found with ⟨otherMember, sameProject, samePath⟩
      have samePlace : other.place = row.place := by
        rw [FileRow.place, FileRow.place, sameProject, samePath]
      rw [List.inj_on_of_nodup_map sound.places otherMember member samePlace]

/-- Files at different places have different identifiers. -/
theorem IsSound.id_ne (sound : store.IsSound) {row other : FileRow} (member : row ∈ store.files)
    (otherMember : other ∈ store.files) (different : row.place ≠ other.place) :
    row.file.id ≠ other.file.id :=
  fun same => different (congrArg FileRow.place
    (List.inj_on_of_nodup_map sound.ids member otherMember same))

/-- What is found at a path when the rows at one path have been changed. -/
theorem find?_changeAt {project path : String} {change : FileRow → FileRow}
    (stays : ∀ row, row.isAt project path = true → (change row).place = row.place)
    (otherProject otherPath : String) (files : List FileRow) :
    (Mirrors.changeAt project path change files).find? (·.isAt otherProject otherPath) =
      (files.find? (·.isAt otherProject otherPath)).map fun row =>
        if row.isAt project path then change row else row := by
  have samePlace : (fun row : FileRow => row.isAt otherProject otherPath) ∘
      (fun row => if row.isAt project path then change row else row) =
      fun row => row.isAt otherProject otherPath := by
    funext row
    rw [Function.comp_apply]
    split
    · next atPlace =>
        rw [Bool.eq_iff_iff, FileRow.isAt_iff_place, FileRow.isAt_iff_place, stays row atPlace]
    · rfl
  rw [Mirrors.changeAt, List.find?_map, samePlace]

theorem map_place_changeAt {project path : String} {change : FileRow → FileRow}
    (stays : ∀ row, row.isAt project path = true → (change row).place = row.place)
    (files : List FileRow) :
    (Mirrors.changeAt project path change files).map FileRow.place = files.map FileRow.place := by
  rw [Mirrors.changeAt, List.map_map]
  apply List.map_congr_left
  intro row _
  rw [Function.comp_apply]
  split
  · next atPlace => exact stays row atPlace
  · rfl

theorem map_id_changeAt {project path : String} {change : FileRow → FileRow}
    (stays : ∀ row, (change row).file.id = row.file.id) (files : List FileRow) :
    (Mirrors.changeAt project path change files).map (·.file.id) = files.map (·.file.id) := by
  rw [Mirrors.changeAt, List.map_map]
  apply List.map_congr_left
  intro row _
  rw [Function.comp_apply]
  split
  · exact stays row
  · rfl

/-! ## What a store has at a path -/

theorem IsSound.entryAt?_of_mem (sound : store.IsSound) {row : FileRow}
    (member : row ∈ store.files) :
    store.entryAt? row.project row.file.path = some (store.entryOf row.file) := by
  rw [entryAt?, sound.row?_of_mem member]
  rfl

/-- Whether a file can be written without confusion: no row of another path has any identifier in
common with it. -/
def Fits (store : Store) (project : String) (file : IndexedFile) : Prop :=
  ∀ otherProject otherPath entry, store.entryAt? otherProject otherPath = some entry →
    (otherProject, otherPath) ≠ (project, file.path) →
    ∀ kind, ∀ id ∈ file.rowIds kind, id ∉ entry.rowIds kind

/-- The identifier that the row of a file gets. -/
def durableId (store : Store) (project : String) (file : IndexedFile) : String :=
  ((store.row? project file.path).map (·.file.id)).getD file.id

/-- The rows of all files behind the writing of one. -/
def filesWith (store : Store) (project : String) (file : IndexedFile) : List FileRow :=
  match store.row? project file.path with
  | some _ => Mirrors.changeAt project file.path (·.revise file) store.files
  | none => store.files ++ [⟨project, file.release⟩]

theorem putFile_of_fits (sound : store.IsSound) {project : String} {file : IndexedFile}
    (fits : store.Fits project file) : store.putFile project file =
      .ok (store.durableId project file, { store with files := store.filesWith project file }) := by
  unfold putFile durableId filesWith
  cases found : store.row? project file.path with
  | some row => rfl
  | none =>
      have fresh : store.files.any (·.file.id == file.id) = false := by
        rw [List.any_eq_false]
        intro row member same
        have different : (row.project, row.file.path) ≠ (project, file.path) := by
          intro samePlace
          have atPlace := (row.isAt_iff_place project file.path).mpr samePlace
          exact List.find?_eq_none.mp found row member atPlace
        refine fits _ _ _ (sound.entryAt?_of_mem member) different .file file.id
          List.mem_cons_self ?_
        rw [← eq_of_beq same]
        exact List.mem_cons_self
      simp only [fresh, Bool.false_eq_true, if_false]
      rfl

/-- A store with a file written into it. -/
def written (store : Store) (project : String) (file : IndexedFile) : Store :=
  ({ store with files := store.filesWith project file } : Store).exchange
    { file with id := store.durableId project file }

/-- What is confirmed when a file is written whose row has an identifier already. -/
def acksUnder (durable : String) (file : IndexedFile) : List WriteAck :=
  ⟨.file, file.id, some durable⟩ :: ((file.analysis.map (analysisAcks durable)).getD [])

theorem persist_of_putFile {project : String} {file : IndexedFile} {durable : String} {put : Store}
    (isPut : store.putFile project file = .ok (durable, put)) : store.persist project file =
      .ok (acksUnder durable file, put.exchange { file with id := durable }) := by
  have analysis : file.analysis = ({ file with id := durable } : IndexedFile).analysis := rfl
  have named : durable = ({ file with id := durable } : IndexedFile).id := rfl
  unfold persist acksUnder
  rw [isPut]
  simp only [bind, Except.bind]
  rw [analysis]
  generalize ({ file with id := durable } : IndexedFile) = kept at analysis named ⊢
  rw [named]
  cases analysed : kept.analysis with
  | none =>
      rw [← clear_of_not_analysed _ kept analysed]
      rfl
  | some found =>
      rw [← putAnalysis_clear _ kept analysed]
      rfl

/-- A file that fits is written. -/
theorem persist_of_fits (sound : store.IsSound) {project : String} {file : IndexedFile}
    (fits : store.Fits project file) :
    ∃ acks, store.persist project file = .ok (acks, store.written project file) :=
  ⟨_, persist_of_putFile (putFile_of_fits sound fits)⟩

theorem durableId_eq (store : Store) (project : String) (file : IndexedFile) :
    store.durableId project file =
      ((store.entryAt? project file.path).map (·.file.id)).getD file.id := by
  rw [durableId, entryAt?, Option.map_map]
  rfl

/-! ## Writing -/

section

variable {project : String} {file : IndexedFile}

theorem row?_written (store : Store) (project : String) (file : IndexedFile)
    (otherProject otherPath : String) :
    (store.written project file).row? otherProject otherPath =
      if (otherProject, otherPath) = (project, file.path) then
        some ⟨project, { file.release with id := store.durableId project file }⟩
      else store.row? otherProject otherPath := by
  have exchanged : (store.written project file).row? otherProject otherPath =
      (store.filesWith project file).find? (·.isAt otherProject otherPath) := rfl
  rw [exchanged]
  unfold filesWith durableId
  cases found : store.row? project file.path with
  | some row =>
      simp only [Option.map_some, Option.getD_some]
      rw [find?_changeAt fun _ => FileRow.place_revise]
      split
      · next same =>
          cases same
          have here := row?_eq_some found
          have atPlace := (row.isAt_iff project file.path).mpr here.2
          have isFound : store.files.find? (·.isAt project file.path) = some row := found
          rw [isFound, Option.map_some, if_pos atPlace, FileRow.revise, here.2.1]
      · next different =>
          have kept : ∀ other, store.row? otherProject otherPath = some other →
              (if other.isAt project file.path then other.revise file else other) = other := by
            intro other isFound
            apply if_neg
            rw [FileRow.isAt_iff_place]
            rintro samePlace
            rcases row?_eq_some isFound with ⟨-, rfl, rfl⟩
            exact different samePlace
          exact (Option.map_congr kept).trans Option.map_id'
  | none =>
      simp only [Option.map_none, Option.getD_none]
      rw [List.find?_append]
      split
      · next same =>
          cases same
          have isFound : store.files.find? (·.isAt project file.path) = none := found
          have atPlace : FileRow.isAt ⟨project, file.release⟩ project file.path = true :=
            (FileRow.isAt_iff _ _ _).mpr ⟨rfl, rfl⟩
          rw [isFound, Option.none_or, List.find?_singleton, if_pos atPlace]
          rfl
      · next different =>
          have elsewhere : ¬ FileRow.isAt ⟨project, file.release⟩ otherProject otherPath = true := by
            rw [FileRow.isAt_iff_place]
            exact fun same => different same.symm
          rw [List.find?_singleton, if_neg elsewhere, Option.or_none]
          rfl

variable (sound : store.IsSound) (fits : store.Fits project file)

include sound fits

/-- The files at other paths have other identifiers than the one that is written. -/
theorem id_ne_durableId {row : FileRow} (member : row ∈ store.files)
    (different : row.place ≠ (project, file.path)) :
    row.file.id ≠ store.durableId project file := by
  unfold durableId
  cases found : store.row? project file.path with
  | some former =>
      rcases row?_eq_some found with ⟨formerMember, sameProject, samePath⟩
      apply sound.id_ne member formerMember
      rw [FileRow.place, FileRow.place, sameProject, samePath]
      exact different
  | none =>
      intro same
      refine fits _ _ _ (sound.entryAt?_of_mem member) different .file file.id List.mem_cons_self ?_
      exact List.mem_singleton.mpr same.symm

/-- The rows that stay where those of a file are exchanged share no identifier with the new ones. -/
theorem foreign_of_fits {α : Type} (format : RowFormat α) {rows new : List α} {kind : RowKind}
    (owned : ∀ row ∈ rows, format.fileIdOf row ∈ store.fileIds)
    (formerIds : ∀ other, (store.entryOf other).rowIds kind =
      (rows.filter (format.fileIdOf · == other.id)).map format.idOf)
    (newIds : new.map format.idOf = file.rowIds kind) :
    ∀ other ∈ rows.filter (format.fileIdOf · != store.durableId project file), ∀ row ∈ new,
      format.idOf other ≠ format.idOf row := by
  intro other member row rowMember same
  rw [List.mem_filter] at member
  rcases List.mem_map.mp (owned other member.1) with ⟨owner, ownerMember, owns⟩
  have different : owner.place ≠ (project, file.path) := by
    intro samePlace
    rw [FileRow.place, Prod.mk.injEq] at samePlace
    have found := sound.row?_of_mem ownerMember
    rw [samePlace.1, samePlace.2] at found
    have durable : store.durableId project file = owner.file.id := by
      rw [durableId, found]
      rfl
    rw [durable, owns] at member
    simp at member
  refine fits _ _ _ (sound.entryAt?_of_mem ownerMember) different kind (format.idOf row) ?_ ?_
  · rw [← newIds]
    exact List.mem_map_of_mem rowMember
  · rw [formerIds, ← same]
    apply List.mem_map_of_mem
    rw [List.mem_filter]
    exact ⟨member.1, by simp [owns]⟩

/-- The rows of a file that has been written are what has been extracted from it; those of any
other file stay. -/
theorem entryOf_written :
    (∀ other : IndexedFile, other.id ≠ store.durableId project file →
      (store.written project file).entryOf other = store.entryOf other) ∧
    (store.written project file).entryOf
        { file.release with id := store.durableId project file } =
      .ofFile { file with id := store.durableId project file } := by
  have definitions := foreign_of_fits sound fits .ofDefinitions sound.definitions (fun _ => rfl)
    (file.map_id_definitionRows (store.durableId project file))
  have dependencies := foreign_of_fits sound fits .ofDependencies sound.dependencies (fun _ => rfl)
    (file.map_id_dependencyRows (store.durableId project file))
  have chunks := foreign_of_fits sound fits .ofChunks sound.chunks (fun _ => rfl)
    (file.map_id_chunkRows (store.durableId project file))
  have complexities : ∀ other ∈ store.complexities.filter
        (RowFormat.ofComplexities.fileIdOf · != store.durableId project file),
      ∀ row ∈ ({ file with id := store.durableId project file } : IndexedFile).complexityRows,
        RowFormat.ofComplexities.idOf other ≠ RowFormat.ofComplexities.idOf row := by
    intro other member row rowMember same
    have kept := (List.mem_filter.mp member).2
    have owned : RowFormat.ofComplexities.fileIdOf other = store.durableId project file :=
      same.trans (IndexedFile.fileId_of_mem_complexityRows rowMember)
    simp [owned] at kept
  constructor
  · intro other different
    unfold entryOf
    rw [StoredEntry.mk.injEq]
    exact ⟨rfl,
      RowFormat.filter_exchanged_other .ofDefinitions
        (fun _ => IndexedFile.fileId_of_mem_definitionRows) definitions different,
      RowFormat.filter_exchanged_other .ofDependencies
        (fun _ => IndexedFile.fileId_of_mem_dependencyRows) dependencies different,
      RowFormat.filter_exchanged_other .ofChunks
        (fun _ => IndexedFile.fileId_of_mem_chunkRows) chunks different,
      RowFormat.filter_exchanged_other .ofComplexities
        (fun _ => IndexedFile.fileId_of_mem_complexityRows) complexities different⟩
  · unfold entryOf StoredEntry.ofFile
    rw [StoredEntry.mk.injEq]
    exact ⟨rfl,
      RowFormat.filter_exchanged .ofDefinitions
        (fun _ => IndexedFile.fileId_of_mem_definitionRows) definitions,
      RowFormat.filter_exchanged .ofDependencies
        (fun _ => IndexedFile.fileId_of_mem_dependencyRows) dependencies,
      RowFormat.filter_exchanged .ofChunks
        (fun _ => IndexedFile.fileId_of_mem_chunkRows) chunks,
      RowFormat.filter_exchanged .ofComplexities
        (fun _ => IndexedFile.fileId_of_mem_complexityRows) complexities⟩

/-- Writing a file changes what there is at its path, and nothing elsewhere. -/
theorem entryAt?_written (otherProject otherPath : String) :
    (store.written project file).entryAt? otherProject otherPath =
      if (otherProject, otherPath) = (project, file.path) then
        some (.writtenOver file (store.entryAt? project file.path))
      else store.entryAt? otherProject otherPath := by
  have rows := entryOf_written sound fits
  rw [entryAt?, row?_written]
  split
  · rw [Option.map_some, rows.2, StoredEntry.writtenOver, durableId_eq]
  · next different =>
      apply Option.map_congr
      intro row found
      rcases row?_eq_some found with ⟨member, rfl, rfl⟩
      exact rows.1 row.file (id_ne_durableId sound fits member different)

end

/-! ## Other calls -/

theorem isSound_empty : IsSound {} where
  places := .nil
  ids := .nil
  definitions _ member := absurd member List.not_mem_nil
  dependencies _ member := absurd member List.not_mem_nil
  chunks _ member := absurd member List.not_mem_nil
  complexities _ member := absurd member List.not_mem_nil

theorem fileIds_filesWith {project : String} {file : IndexedFile} :
    (store.filesWith project file).map (·.file.id) =
      match store.row? project file.path with
      | some _ => store.fileIds
      | none => store.fileIds ++ [file.id] := by
  unfold filesWith fileIds
  cases store.row? project file.path with
  | some row =>
      apply map_id_changeAt
      exact fun row => rfl
  | none =>
      rw [List.map_append]
      rfl

theorem putFile_eq_ok {project : String} {file : IndexedFile} {durable : String} {after : Store}
    (put : store.putFile project file = .ok (durable, after)) :
    durable = store.durableId project file ∧
      after = { store with files := store.filesWith project file } ∧
      (store.row? project file.path = none → file.id ∉ store.fileIds) := by
  unfold putFile at put
  unfold durableId filesWith
  cases found : store.row? project file.path with
  | some row =>
      rw [found] at put
      cases put
      exact ⟨rfl, rfl, nofun⟩
  | none =>
      rw [found] at put
      simp only at put
      split at put
      · cases put
      · next fresh =>
          cases put
          refine ⟨rfl, rfl, fun _ known => fresh ?_⟩
          rcases List.mem_map.mp known with ⟨row, member, same⟩
          exact List.any_eq_true.mpr ⟨row, member, beq_iff_eq.mpr same⟩

/-- What is left of a store into which a file could be written. -/
theorem persist_eq_ok {project : String} {file : IndexedFile} {acks : List WriteAck} {after : Store}
    (persisted : store.persist project file = .ok (acks, after)) :
    after = store.written project file ∧
      (store.row? project file.path = none → file.id ∉ store.fileIds) := by
  cases put : store.putFile project file with
  | error error =>
      rw [persist, put] at persisted
      cases persisted
  | ok answer =>
      rcases putFile_eq_ok put with ⟨durable, files, fresh⟩
      rw [persist_of_putFile put, durable, files] at persisted
      cases persisted
      exact ⟨rfl, fresh⟩

/-- Every place is still that of one file when a file has been written. -/
theorem IsSound.nodup_place_filesWith (sound : store.IsSound) (project : String)
    (file : IndexedFile) : ((store.filesWith project file).map FileRow.place).Nodup := by
  unfold filesWith
  cases found : store.row? project file.path with
  | some row =>
      simp only
      rw [map_place_changeAt fun _ => FileRow.place_revise]
      exact sound.places
  | none =>
      simp only
      rw [List.map_append, List.nodup_append]
      refine ⟨sound.places, List.pairwise_singleton _ _, ?_⟩
      intro place member other isNew same
      rw [List.mem_singleton.mp isNew] at same
      rcases List.mem_map.mp member with ⟨row, rowMember, rfl⟩
      have atPlace := (row.isAt_iff_place project file.path).mpr same
      exact List.find?_eq_none.mp found row rowMember atPlace

/-- When a file has been written, those of before are there, and the one that has been written. -/
theorem mem_fileIds_written {project : String} {file : IndexedFile} {id : String}
    (known : id ∈ store.fileIds ∨ id = store.durableId project file) :
    id ∈ (store.written project file).fileIds := by
  have ids : (store.written project file).fileIds =
      (store.filesWith project file).map (·.file.id) := rfl
  rw [ids, fileIds_filesWith]
  unfold durableId at known
  cases found : store.row? project file.path with
  | some row =>
      rw [found] at known
      rcases known with former | rfl
      · exact former
      · exact List.mem_map_of_mem (row?_eq_some found).1
  | none =>
      rw [found] at known
      rcases known with former | rfl
      · exact List.mem_append_left _ former
      · exact List.mem_append_right _ List.mem_cons_self

theorem IsSound.written (sound : store.IsSound) {project : String} {file : IndexedFile}
    (fresh : store.row? project file.path = none → file.id ∉ store.fileIds) :
    (store.written project file).IsSound := by
  have exchanged : ∀ {α : Type} (format : RowFormat α) {rows new : List α},
      (∀ row ∈ rows, format.fileIdOf row ∈ store.fileIds) →
      (∀ row ∈ new, format.fileIdOf row = store.durableId project file) →
      (∀ old new, format.fileIdOf (format.revise old new) = format.fileIdOf old ∨
        format.fileIdOf (format.revise old new) = format.fileIdOf new) →
      ∀ row ∈ format.put (rows.filter (format.fileIdOf · != store.durableId project file)) new,
        format.fileIdOf row ∈ (store.written project file).fileIds :=
    fun format rows new known owned keeps =>
      format.forall_mem_exchanged (· ∈ (store.written project file).fileIds)
        (fun row member => mem_fileIds_written (.inl (known row member))) owned
        (mem_fileIds_written (.inr rfl)) keeps
  constructor
  · exact sound.nodup_place_filesWith project file
  · have ids : (store.written project file).fileIds =
        (store.filesWith project file).map (·.file.id) := rfl
    rw [ids, fileIds_filesWith]
    cases found : store.row? project file.path with
    | some row => exact sound.ids
    | none =>
        rw [List.nodup_append]
        refine ⟨sound.ids, List.pairwise_singleton _ _, ?_⟩
        intro id member other isNew same
        rw [List.mem_singleton.mp isNew] at same
        exact fresh found (same ▸ member)
  · exact exchanged .ofDefinitions sound.definitions
      (fun _ => IndexedFile.fileId_of_mem_definitionRows) fun _ _ => .inl rfl
  · exact exchanged .ofDependencies sound.dependencies
      (fun _ => IndexedFile.fileId_of_mem_dependencyRows) fun _ _ => .inl rfl
  · exact exchanged .ofChunks sound.chunks
      (fun _ => IndexedFile.fileId_of_mem_chunkRows) fun _ _ => .inl rfl
  · exact exchanged .ofComplexities sound.complexities
      (fun _ => IndexedFile.fileId_of_mem_complexityRows) fun _ _ => .inr rfl

theorem IsSound.touch (sound : store.IsSound) (project path : String) (time : FileTime) :
    (store.touch project path time).2.IsSound := by
  let change : FileRow → FileRow := fun row => { row with file := { row.file with time } }
  have ids : (store.touch project path time).2.fileIds = store.fileIds :=
    map_id_changeAt (fun row => rfl : ∀ row, (change row).file.id = row.file.id) store.files
  have places : (store.touch project path time).2.files.map FileRow.place =
      store.files.map FileRow.place :=
    map_place_changeAt (fun row _ => rfl : ∀ row, row.isAt project path = true →
      (change row).place = row.place) store.files
  constructor
  · rw [places]
    exact sound.places
  · rw [ids]
    exact sound.ids
  · rw [ids]
    exact sound.definitions
  · rw [ids]
    exact sound.dependencies
  · rw [ids]
    exact sound.chunks
  · rw [ids]
    exact sound.complexities

/-- A store without the file at a path and without what has been extracted from it. -/
def without (store : Store) (project path fileId : String) : Store where
  files := store.files.filter (! ·.isAt project path)
  definitions := store.definitions.filter (·.fileId != fileId)
  dependencies := store.dependencies.filter (·.fileId != fileId)
  chunks := store.chunks.filter (·.fileId != fileId)
  complexities := store.complexities.filter (·.fileId != fileId)

theorem remove_eq (store : Store) (project path : String) : (store.remove project path).2 =
    match store.row? project path with
    | none => store
    | some row => store.without project path row.file.id := by
  unfold Store.remove
  cases store.row? project path <;> rfl

theorem IsSound.remove (sound : store.IsSound) (project path : String) :
    (store.remove project path).2.IsSound := by
  rw [remove_eq]
  cases found : store.row? project path with
  | none => exact sound
  | some row =>
      rcases row?_eq_some found with ⟨member, sameProject, samePath⟩
      have place : row.place = (project, path) := by rw [FileRow.place, sameProject, samePath]
      -- The files of rows that are left are left as well.
      have left : ∀ id, id ∈ store.fileIds → (id != row.file.id) = true →
          id ∈ (store.without project path row.file.id).fileIds := by
        intro id known different
        rcases List.mem_map.mp known with ⟨owner, ownerMember, rfl⟩
        apply List.mem_map_of_mem
        rw [without, List.mem_filter, Bool.not_eq_true', ← Bool.not_eq_true, FileRow.isAt_iff_place]
        refine ⟨ownerMember, fun samePlace => ?_⟩
        rw [List.inj_on_of_nodup_map sound.places ownerMember member (samePlace.trans place.symm)]
          at different
        simp at different
      constructor
      · exact sound.places.sublist (List.filter_sublist.map _)
      · exact sound.ids.sublist (List.filter_sublist.map _)
      · intro row member
        rcases List.mem_filter.mp member with ⟨former, kept⟩
        exact left _ (sound.definitions row former) kept
      · intro row member
        rcases List.mem_filter.mp member with ⟨former, kept⟩
        exact left _ (sound.dependencies row former) kept
      · intro row member
        rcases List.mem_filter.mp member with ⟨former, kept⟩
        exact left _ (sound.chunks row former) kept
      · intro row member
        rcases List.mem_filter.mp member with ⟨former, kept⟩
        exact left _ (sound.complexities row former) kept

theorem row?_touch (store : Store) (project path : String) (time : FileTime)
    (otherProject otherPath : String) :
    (store.touch project path time).2.row? otherProject otherPath =
      if (otherProject, otherPath) = (project, path) then
        (store.row? project path).map fun row => { row with file := { row.file with time } }
      else store.row? otherProject otherPath := by
  have changed : (store.touch project path time).2.row? otherProject otherPath =
      (store.row? otherProject otherPath).map fun row =>
        if row.isAt project path then { row with file := { row.file with time } } else row := by
    apply find?_changeAt
    exact fun row atPlace => rfl
  rw [changed]
  split
  · next same =>
      cases same
      apply Option.map_congr
      intro row found
      exact if_pos ((row.isAt_iff project path).mpr (row?_eq_some found).2)
  · next different =>
      refine (Option.map_congr ?_).trans Option.map_id'
      intro row found
      rcases row?_eq_some found with ⟨-, rfl, rfl⟩
      apply if_neg
      rw [FileRow.isAt_iff_place]
      exact different

theorem entryAt?_touch (store : Store) (project path : String) (time : FileTime)
    (otherProject otherPath : String) :
    (store.touch project path time).2.entryAt? otherProject otherPath =
      if (otherProject, otherPath) = (project, path) then
        (store.entryAt? project path).map fun entry =>
          { entry with file := { entry.file with time } }
      else store.entryAt? otherProject otherPath := by
  rw [entryAt?, row?_touch]
  split
  · rw [entryAt?, Option.map_map, Option.map_map]
    rfl
  · rfl

theorem row?_without (store : Store) (project path fileId otherProject otherPath : String) :
    (store.without project path fileId).row? otherProject otherPath =
      if (otherProject, otherPath) = (project, path) then none
      else store.row? otherProject otherPath := by
  rw [row?, without, List.find?_filter]
  split
  · next same =>
      cases same
      rw [List.find?_eq_none]
      intro row _
      simp
  · next different =>
      apply congrArg (store.files.find? ·)
      funext row
      rw [Bool.eq_iff_iff, decide_eq_true_iff, Bool.not_eq_true', ← Bool.not_eq_true,
        FileRow.isAt_iff_place, FileRow.isAt_iff_place]
      constructor
      · exact fun both => both.2
      · intro atPlace
        rw [atPlace]
        exact ⟨different, rfl⟩

theorem entryAt?_remove (sound : store.IsSound) (project path otherProject otherPath : String) :
    (store.remove project path).2.entryAt? otherProject otherPath =
      if (otherProject, otherPath) = (project, path) then none
      else store.entryAt? otherProject otherPath := by
  rw [remove_eq]
  cases found : store.row? project path with
  | none =>
      simp only
      split
      · next same =>
          cases same
          rw [entryAt?, found]
          rfl
      · rfl
  | some row =>
      simp only
      rw [entryAt?, row?_without]
      split
      · rfl
      · next different =>
          apply Option.map_congr
          intro other otherFound
          rcases row?_eq_some found with ⟨member, rfl, rfl⟩
          rcases row?_eq_some otherFound with ⟨otherMember, rfl, rfl⟩
          have apart : other.file.id ≠ row.file.id := sound.id_ne otherMember member different
          have kept : ∀ {α : Type} (format : RowFormat α) (rows : List α),
              (rows.filter (format.fileIdOf · != row.file.id)).filter
                (format.fileIdOf · == other.file.id) =
              rows.filter (format.fileIdOf · == other.file.id) :=
            fun format rows => RowFormat.Mirrors.filter_kept apart rows
          unfold entryOf
          rw [StoredEntry.mk.injEq]
          exact ⟨rfl, kept .ofDefinitions store.definitions,
            kept .ofDependencies store.dependencies, kept .ofChunks store.chunks,
            kept .ofComplexities store.complexities⟩

end Store

end SourceIndex
