import SourceIndex.Proofs.Store.FileMap

/-! A store that holds just the files of a map, and how writing to it changes both alike. -/

namespace SourceIndex

namespace FileRow

/-- Whether two rows are those of one path of one project. -/
def SharesPlace (row other : FileRow) : Prop :=
  row.project = other.project ∧ row.file.path = other.file.path

theorem isAt_iff (row : FileRow) (project path : String) :
    row.isAt project path = true ↔ row.project = project ∧ row.file.path = path := by
  simp [isAt]

end FileRow

namespace Store

/-- What is confirmed when a file is written. -/
def acksOf (file : IndexedFile) : List WriteAck :=
  ⟨.file, file.id, some file.id⟩ :: ((file.analysis.map (analysisAcks file.id)).getD [])

/-- Whether a store holds the files of a map with what has been extracted from them, and nothing
else. -/
structure Mirrors (store : Store) (map : FileMap) : Prop where
  paths : ∀ project path file, map project path = some file → file.path = path
  ids : ∀ project path file otherProject otherPath other, map project path = some file →
    map otherProject otherPath = some other → file.id = other.id →
    project = otherProject ∧ path = otherPath
  files : ∀ row, row ∈ store.files ↔
    ∃ file, map row.project row.file.path = some file ∧ row.file = file.release
  places : store.files.Pairwise fun row other => ¬ row.SharesPlace other
  definitions : RowFormat.ofDefinitions.Mirrors (·.definitionRows) map store.definitions
  dependencies : RowFormat.ofDependencies.Mirrors (·.dependencyRows) map store.dependencies
  chunks : RowFormat.ofChunks.Mirrors (·.chunkRows) map store.chunks
  complexities : RowFormat.ofComplexities.Mirrors (·.complexityRows) map store.complexities

theorem mirrors_empty : Mirrors {} FileMap.empty where
  paths _ _ _ there := by cases there
  ids _ _ _ _ _ _ there := by cases there
  files row := by
    constructor
    · exact fun member => absurd member List.not_mem_nil
    · rintro ⟨file, there, -⟩
      cases there
  places := .nil
  definitions := RowFormat.mirrors_empty
  dependencies := RowFormat.mirrors_empty
  chunks := RowFormat.mirrors_empty
  complexities := RowFormat.mirrors_empty

namespace Mirrors

variable {store : Store} {map : FileMap}

/-- The row of a path is that of the file that the map has there. -/
theorem row?_eq (mirrors : store.Mirrors map) (project path : String) :
    store.row? project path = (map project path).map fun file => ⟨project, file.release⟩ := by
  cases there : map project path with
  | none =>
      apply List.find?_eq_none.mpr
      intro row member atPlace
      rcases (mirrors.files row).mp member with ⟨file, found, -⟩
      rcases (row.isAt_iff project path).mp atPlace with ⟨rfl, rfl⟩
      rw [there] at found
      cases found
  | some file =>
      have place := mirrors.paths project path file there
      have member : (⟨project, file.release⟩ : FileRow) ∈ store.files := by
        rw [mirrors.files]
        refine ⟨file, ?_, rfl⟩
        rw [← there, ← place]
        rfl
      cases found : store.row? project path with
      | none =>
          have missing := List.find?_eq_none.mp found _ member
          rw [FileRow.isAt_iff] at missing
          exact absurd ⟨rfl, place⟩ missing
      | some row =>
          have atPlace := List.find?_some (p := fun row : FileRow => row.isAt project path) found
          rcases (row.isAt_iff project path).mp atPlace with ⟨rfl, rfl⟩
          rcases (mirrors.files row).mp (List.mem_of_find?_eq_some found) with
            ⟨other, otherThere, same⟩
          rw [there] at otherThere
          cases otherThere
          rw [Option.map_some, ← same]

theorem row?_eq_none (mirrors : store.Mirrors map) {project path : String}
    (missing : map project path = none) : store.row? project path = none := by
  rw [mirrors.row?_eq, missing]
  rfl

theorem row?_eq_some (mirrors : store.Mirrors map) {project path : String} {file : IndexedFile}
    (there : map project path = some file) :
    store.row? project path = some ⟨project, file.release⟩ := by
  rw [mirrors.row?_eq, there]
  rfl

/-! ## Writing the row of a file -/

/-- Rows of files as they are after the rows at one path have been changed. -/
def changeAt (project path : String) (change : FileRow → FileRow) (files : List FileRow) :
    List FileRow :=
  files.map fun row => if row.isAt project path then change row else row

theorem places_changeAt {files : List FileRow}
    (places : files.Pairwise fun row other => ¬ row.SharesPlace other) {project path : String}
    {change : FileRow → FileRow} (stays : ∀ row, row.isAt project path = true →
      (change row).isAt project path = true) :
    (changeAt project path change files).Pairwise fun row other => ¬ row.SharesPlace other := by
  rw [changeAt, List.pairwise_map]
  refine places.imp ?_
  intro row other apart shared
  apply apart
  have place : ∀ row : FileRow, (if row.isAt project path then change row else row).project =
      row.project ∧ (if row.isAt project path then change row else row).file.path =
        row.file.path := by
    intro row
    split
    · next atPlace =>
        have after := (FileRow.isAt_iff _ _ _).mp (stays row atPlace)
        have before := (FileRow.isAt_iff _ _ _).mp atPlace
        exact ⟨after.1.trans before.1.symm, after.2.trans before.2.symm⟩
    · exact ⟨rfl, rfl⟩
  unfold FileRow.SharesPlace at shared ⊢
  rw [(place row).1, (place row).2, (place other).1, (place other).2] at shared
  exact shared

/-- The row of one file is changed along with the map. -/
theorem files_changeAt (mirrors : store.Mirrors map) {project path : String}
    {file changed : IndexedFile} (there : map project path = some file)
    {change : FileRow → FileRow} (place : changed.path = path)
    (changes : change ⟨project, file.release⟩ = ⟨project, changed.release⟩) (row : FileRow) :
    row ∈ changeAt project path change store.files ↔
      ∃ file, map.set project path (some changed) row.project row.file.path = some file ∧
        row.file = file.release := by
  have atPlace : ∀ row ∈ store.files, row.isAt project path = true →
      row = ⟨project, file.release⟩ := by
    intro row member atPlace
    rcases (row.isAt_iff project path).mp atPlace with ⟨rfl, rfl⟩
    rcases (mirrors.files row).mp member with ⟨other, found, same⟩
    rw [there] at found
    cases found
    rw [← same]
  constructor
  · intro member
    rcases List.mem_map.mp member with ⟨old, oldMember, rfl⟩
    split
    · next isThere =>
        rw [atPlace old oldMember isThere, changes]
        refine ⟨changed, ?_, rfl⟩
        rw [← place]
        exact FileMap.set_same _
    · next elsewhere =>
        rcases (mirrors.files old).mp oldMember with ⟨other, found, same⟩
        rw [FileRow.isAt_iff] at elsewhere
        exact ⟨other, (FileMap.set_other elsewhere _).trans found, same⟩
  · rintro ⟨other, found, same⟩
    apply List.mem_map.mpr
    rcases FileMap.eq_or_of_set found with ⟨sameProject, -, isChanged⟩ | ⟨different, found⟩
    · refine ⟨⟨project, file.release⟩, List.mem_of_find?_eq_some (mirrors.row?_eq_some there), ?_⟩
      have formerPlace := mirrors.paths project path file there
      have isThere := (FileRow.isAt_iff ⟨project, file.release⟩ project path).mpr ⟨rfl, formerPlace⟩
      rw [if_pos isThere, changes, ← sameProject, Option.some.inj isChanged, ← same]
    · refine ⟨row, (mirrors.files row).mpr ⟨other, found, same⟩, ?_⟩
      rw [← row.isAt_iff] at different
      exact if_neg different

/-- A new file gets a row of its own. -/
theorem files_add (mirrors : store.Mirrors map) {project : String} {file : IndexedFile}
    (missing : map project file.path = none) (row : FileRow) :
    row ∈ store.files ++ [⟨project, file.release⟩] ↔
      ∃ other, map.set project file.path (some file) row.project row.file.path = some other ∧
        row.file = other.release := by
  rw [List.mem_append, List.mem_singleton, mirrors.files]
  constructor
  · intro former
    rcases former with ⟨other, found, same⟩ | rfl
    · refine ⟨other, ?_, same⟩
      rw [FileMap.set_other, found]
      rintro ⟨sameProject, samePath⟩
      rw [sameProject, samePath, missing] at found
      cases found
    · exact ⟨file, FileMap.set_same _, rfl⟩
  · rintro ⟨other, found, same⟩
    rcases FileMap.eq_or_of_set found with ⟨sameProject, -, isNew⟩ | ⟨-, found⟩
    · right
      rw [← sameProject, Option.some.inj isNew, ← same]
    · exact .inl ⟨other, found, same⟩

theorem putFile_eq (mirrors : store.Mirrors map) {project : String} {file : IndexedFile}
    (admits : map.Admits project file) :
    ∃ files, store.putFile project file = .ok (file.id, { store with files }) ∧
      (files.Pairwise fun row other => ¬ row.SharesPlace other) ∧
      ∀ row, row ∈ files ↔ ∃ other,
        map.persist project file row.project row.file.path = some other ∧
          row.file = other.release := by
  unfold putFile
  cases there : map project file.path with
  | some former =>
      have sameId : former.id = file.id := admits.keepsId former there
      refine ⟨changeAt project file.path (·.revise file) store.files, ?_, ?_, ?_⟩
      · rw [mirrors.row?_eq_some there, ← sameId]
        rfl
      · apply places_changeAt mirrors.places
        intro row atPlace
        rcases (FileRow.isAt_iff _ _ _).mp atPlace with ⟨sameProject, -⟩
        exact (FileRow.isAt_iff _ _ _).mpr ⟨sameProject, rfl⟩
      · apply mirrors.files_changeAt there rfl
        unfold FileRow.revise IndexedFile.release
        simp only [sameId]
  | none =>
      have fresh : store.files.any (·.file.id == file.id) = false := by
        rw [List.any_eq_false]
        intro row member
        rcases (mirrors.files row).mp member with ⟨other, found, same⟩
        have different : ¬ (row.project = project ∧ row.file.path = file.path) := by
          rintro ⟨sameProject, samePath⟩
          rw [sameProject, samePath, there] at found
          cases found
        have otherId := admits.id_ne found different
        rw [same]
        exact fun equal => otherId (eq_of_beq equal)
      refine ⟨store.files ++ [⟨project, file.release⟩], ?_, ?_, mirrors.files_add there⟩
      · rw [mirrors.row?_eq_none there]
        simp only [fresh, Bool.false_eq_true, if_false]
      · rw [List.pairwise_append]
        refine ⟨mirrors.places, List.pairwise_singleton _ _, ?_⟩
        intro row member other isNew shared
        rw [List.mem_singleton.mp isNew] at shared
        rcases (mirrors.files row).mp member with ⟨found, isThere, -⟩
        rw [shared.1, shared.2] at isThere
        exact nomatch there.symm.trans isThere

/-! ## Writing -/

theorem ids_set (mirrors : store.Mirrors map) {project path fileId : String} {file : IndexedFile}
    (apart : ∀ otherProject otherPath other, map otherProject otherPath = some other →
      ¬ (otherProject = project ∧ otherPath = path) → other.id ≠ fileId)
    {project₁ path₁ project₂ path₂ : String} {left right : IndexedFile}
    (leftThere : map.set project path (some file) project₁ path₁ = some left)
    (rightThere : map.set project path (some file) project₂ path₂ = some right)
    (named : file.id = fileId) (same : left.id = right.id) :
    project₁ = project₂ ∧ path₁ = path₂ := by
  rcases FileMap.eq_or_of_set leftThere with
    ⟨leftProject, leftPath, isLeft⟩ | ⟨leftPlace, leftFound⟩
  · rcases FileMap.eq_or_of_set rightThere with
      ⟨rightProject, rightPath, -⟩ | ⟨rightPlace, rightFound⟩
    · exact ⟨leftProject.trans rightProject.symm, leftPath.trans rightPath.symm⟩
    · rw [← Option.some.inj isLeft, named] at same
      exact absurd same.symm (apart _ _ _ rightFound rightPlace)
  · rcases FileMap.eq_or_of_set rightThere with ⟨-, -, isRight⟩ | ⟨-, rightFound⟩
    · rw [← Option.some.inj isRight, named] at same
      exact absurd same (apart _ _ _ leftFound leftPlace)
    · exact mirrors.ids _ _ _ _ _ _ leftFound rightFound same

theorem paths_set (mirrors : store.Mirrors map) {project path : String} {file : Option IndexedFile}
    (place : ∀ found, file = some found → found.path = path)
    {otherProject otherPath : String} {found : IndexedFile}
    (there : map.set project path file otherProject otherPath = some found) :
    found.path = otherPath := by
  rcases FileMap.eq_or_of_set there with ⟨-, rfl, isNew⟩ | ⟨-, there⟩
  · exact place found isNew
  · exact mirrors.paths _ _ _ there

/-- A file that the map admits is written, and every row of it is confirmed. -/
theorem persist (mirrors : store.Mirrors map) {project : String} {file : IndexedFile}
    (admits : map.Admits project file) :
    ∃ written, store.persist project file = .ok (acksOf file, written) ∧
      written.Mirrors (map.persist project file) := by
  rcases mirrors.putFile_eq admits with ⟨files, isPut, places, filesMirror⟩
  refine ⟨{ store with files }.exchange file, ?_, ?_⟩
  · unfold Store.persist acksOf
    rw [isPut]
    cases analysed : file.analysis with
    | none =>
        rw [← clear_of_not_analysed _ file analysed]
        rfl
    | some analysis =>
        rw [← putAnalysis_clear _ file analysed]
        rfl
  · constructor
    · intro otherProject otherPath found there
      apply mirrors.paths_set _ there
      exact fun found same => Option.some.inj same ▸ rfl
    · intro _ _ _ _ _ _ leftThere rightThere same
      exact mirrors.ids_set (fun _ _ _ there different => admits.id_ne there different)
        leftThere rightThere rfl same
    · exact filesMirror
    · exact places
    · exact mirrors.definitions.persist admits
        (fun row member => IndexedFile.fileId_of_mem_definitionRows member)
        (admits.rows_ne RowFormat.ofDefinitions (·.definitionRows) .definition fun file => rfl)
    · exact mirrors.dependencies.persist admits
        (fun row member => IndexedFile.fileId_of_mem_dependencyRows member)
        (admits.rows_ne RowFormat.ofDependencies (·.dependencyRows) .dependency fun file => rfl)
    · exact mirrors.chunks.persist admits
        (fun row member => IndexedFile.fileId_of_mem_chunkRows member)
        (admits.rows_ne RowFormat.ofChunks (·.chunkRows) .chunk fun file => rfl)
    · apply mirrors.complexities.persist admits
        (fun row member => IndexedFile.fileId_of_mem_complexityRows member)
      intro _ _ other there different row member otherRow otherMember same
      apply admits.id_ne there different
      rw [← IndexedFile.fileId_of_mem_complexityRows member,
        ← IndexedFile.fileId_of_mem_complexityRows otherMember]
      exact same

/-- The other files have other identifiers than the one at a path. -/
theorem id_ne (mirrors : store.Mirrors map) {project path : String} {file : IndexedFile}
    (there : map project path = some file) (otherProject otherPath : String) (other : IndexedFile)
    (otherThere : map otherProject otherPath = some other)
    (different : ¬ (otherProject = project ∧ otherPath = path)) : other.id ≠ file.id :=
  fun same => different (mirrors.ids _ _ _ _ _ _ otherThere there same)

/-- Nothing is changed where there is no file. -/
theorem changeAt_of_missing (mirrors : store.Mirrors map) {project path : String}
    (missing : map project path = none) (change : FileRow → FileRow) :
    changeAt project path change store.files = store.files := by
  have nowhere := List.find?_eq_none.mp (mirrors.row?_eq_none missing)
  exact map_eq_self fun row member => if_neg (nowhere row member)

theorem touch (mirrors : store.Mirrors map) (project path : String) (time : FileTime) :
    ∃ touched, store.touch project path time = ((map project path).isSome, touched) ∧
      touched.Mirrors (map.touch project path time) := by
  let change : FileRow → FileRow := fun row => { row with file := { row.file with time } }
  refine ⟨{ store with files := changeAt project path change store.files }, ?_, ?_⟩
  · unfold Store.touch
    rw [mirrors.row?_eq, Option.isSome_map]
    rfl
  cases there : map project path with
  | none =>
      rw [mirrors.changeAt_of_missing there, FileMap.touch_of_missing there]
      exact mirrors
  | some file =>
      have place := mirrors.paths project path file there
      have touched : map.touch project path time =
          map.set project path (some { file with time }) := by
        rw [FileMap.touch, there]
        rfl
      constructor
      · intro otherProject otherPath found isThere
        rw [touched] at isThere
        apply mirrors.paths_set _ isThere
        exact fun found same => Option.some.inj same ▸ place
      · intro _ _ _ _ _ _ leftThere rightThere same
        rw [touched] at leftThere rightThere
        exact mirrors.ids_set (mirrors.id_ne there) leftThere rightThere rfl same
      · rw [touched]
        exact mirrors.files_changeAt there place rfl
      · apply places_changeAt mirrors.places
        exact fun row atPlace => atPlace
      · exact mirrors.definitions.touch project path time fun file => rfl
      · exact mirrors.dependencies.touch project path time fun file => rfl
      · exact mirrors.chunks.touch project path time fun file => rfl
      · exact mirrors.complexities.touch project path time fun file => rfl

theorem remove (mirrors : store.Mirrors map) (project path : String) :
    ∃ left, store.remove project path = ((map project path).isSome, left) ∧
      left.Mirrors (map.remove project path) := by
  unfold Store.remove
  cases there : map project path with
  | none =>
      refine ⟨store, ?_, ?_⟩
      · rw [mirrors.row?_eq_none there]
        rfl
      · rw [FileMap.remove_of_missing there]
        exact mirrors
  | some file =>
      have definitions := mirrors.definitions.remove there (mirrors.id_ne there)
      have dependencies := mirrors.dependencies.remove there (mirrors.id_ne there)
      have chunks := mirrors.chunks.remove there (mirrors.id_ne there)
      have complexities := mirrors.complexities.remove there (mirrors.id_ne there)
      rw [mirrors.row?_eq_some there]
      refine ⟨_, rfl, ?_, ?_, ?_, ?_, definitions, dependencies, chunks, complexities⟩
      · intro otherProject otherPath found isThere
        apply mirrors.paths_set _ isThere
        exact fun found none => nomatch none
      · intro _ _ _ _ _ _ leftThere rightThere same
        rcases FileMap.eq_or_of_set leftThere with ⟨-, -, none⟩ | ⟨-, leftFound⟩
        · cases none
        rcases FileMap.eq_or_of_set rightThere with ⟨-, -, none⟩ | ⟨-, rightFound⟩
        · cases none
        exact mirrors.ids _ _ _ _ _ _ leftFound rightFound same
      · intro row
        rw [List.mem_filter, Bool.not_eq_true', ← Bool.not_eq_true, FileRow.isAt_iff]
        constructor
        · rintro ⟨member, elsewhere⟩
          rcases (mirrors.files row).mp member with ⟨other, found, same⟩
          exact ⟨other, (FileMap.set_other elsewhere _).trans found, same⟩
        · rintro ⟨other, found, same⟩
          rcases FileMap.eq_or_of_set found with ⟨-, -, none⟩ | ⟨elsewhere, found⟩
          · cases none
          · exact ⟨(mirrors.files row).mpr ⟨other, found, same⟩, elsewhere⟩
      · exact mirrors.places.filter _

end Mirrors

end Store

end SourceIndex
