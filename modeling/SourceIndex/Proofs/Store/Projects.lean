import SourceIndex.Proofs.Store.Integrity

/-! What a store has of one project. Calls for a project go by that and change nothing else, as long
as no row of another project has an identifier of those that are written. -/

namespace SourceIndex

/-! ## Rows of some files -/

namespace RowFormat

variable {α : Type} (format : RowFormat α) {rows new : List α} {fileId : String}

/-- A row that another one has taken over is a row of one of their files. -/
def KeepsFiles : Prop := ∀ old new, format.fileIdOf (format.revise old new) = format.fileIdOf old ∨
  format.fileIdOf (format.revise old new) = format.fileIdOf new

theorem keepsFiles_ofDefinitions : ofDefinitions.KeepsFiles := fun _ _ => .inl rfl

theorem keepsFiles_ofDependencies : ofDependencies.KeepsFiles := fun _ _ => .inl rfl

theorem keepsFiles_ofChunks : ofChunks.KeepsFiles := fun _ _ => .inl rfl

theorem keepsFiles_ofComplexities : ofComplexities.KeepsFiles := fun _ _ => .inr rfl

/-- A row is set among the rows of one sort as among all rows, if those of its identifier are of
its sort. -/
theorem filter_setRow {isOwned : α → Bool} {row : α}
    (apart : ∀ other ∈ rows, format.idOf other = format.idOf row →
      isOwned other = isOwned row ∧ isOwned (format.revise other row) = isOwned row) :
    (setRow format.idOf format.revise row rows).filter isOwned =
      if isOwned row then setRow format.idOf format.revise row (rows.filter isOwned)
      else rows.filter isOwned := by
  induction rows with
  | nil =>
      rw [setRow, List.filter_singleton]
      cases isOwned row <;> rfl
  | cons other rows induction =>
      have rest := induction fun later member => apart later (List.mem_cons_of_mem _ member)
      rw [setRow]
      split
      · next same =>
          rcases apart other List.mem_cons_self same with ⟨sameSort, revised⟩
          rw [List.filter_cons, List.filter_cons, revised, sameSort]
          split
          · rw [setRow, if_pos same]
          · rfl
      · next different =>
          rw [List.filter_cons, List.filter_cons, rest]
          cases isOwned other with
          | false => rfl
          | true =>
              cases isOwned row with
              | false => rfl
              | true =>
                  simp only [if_true]
                  rw [setRow, if_neg different]

/-- Among the rows of some files, new rows of a file are set as among all rows if it is one of these
files, and otherwise not at all, as long as only rows of the one or of the other sort share an
identifier with them. -/
theorem filter_put (keeps : format.KeepsFiles) {isOwned : String → Bool}
    (owned : ∀ row ∈ new, format.fileIdOf row = fileId)
    (apart : ∀ other ∈ rows, ∀ row ∈ new, format.idOf other = format.idOf row →
      isOwned (format.fileIdOf other) = isOwned fileId) :
    (format.put rows new).filter (isOwned <| format.fileIdOf ·) =
      if isOwned fileId then format.put (rows.filter (isOwned <| format.fileIdOf ·)) new
      else rows.filter (isOwned <| format.fileIdOf ·) := by
  induction new generalizing rows with
  | nil =>
      show rows.filter _ = if isOwned fileId then rows.filter _ else rows.filter _
      rw [ite_self]
  | cons row new induction =>
      have isOf : format.fileIdOf row = fileId := owned row List.mem_cons_self
      have restOwned : ∀ later ∈ new, format.fileIdOf later = fileId := fun later member =>
        owned later (List.mem_cons_of_mem _ member)
      have revised : ∀ old ∈ rows, format.idOf old = format.idOf row →
          isOwned (format.fileIdOf (format.revise old row)) = isOwned fileId := by
        intro old member same
        rcases keeps old row with isOld | isNew
        · rw [isOld]
          exact apart old member row List.mem_cons_self same
        · rw [isNew, isOf]
      have first := @filter_setRow _ format rows (isOwned <| format.fileIdOf ·) row
        fun old member same => by
          simp only [isOf]
          exact ⟨apart old member row List.mem_cons_self same, revised old member same⟩
      rw [put_cons, induction restOwned, first, isOf]
      · split <;> rfl
      · refine forall_mem_setRow ?_ ?_ ?_
        · exact fun old member later laterMember =>
            apart old member later (List.mem_cons_of_mem _ laterMember)
        · exact fun _ _ _ => congrArg isOwned isOf
        · exact fun old member same _ _ _ => revised old member same.symm

end RowFormat

namespace Store

/-! ## Projects -/

/-- Whether an identifier is that of a file of a project. -/
def owns (store : Store) (project fileId : String) : Bool :=
  store.files.any fun row => row.project == project && row.file.id == fileId

/-- What a store has of a project. -/
def only (store : Store) (project : String) : Store where
  files := store.rowsOf project
  definitions := store.definitions.filter (store.owns project ·.fileId)
  dependencies := store.dependencies.filter (store.owns project ·.fileId)
  chunks := store.chunks.filter (store.owns project ·.fileId)
  complexities := store.complexities.filter (store.owns project ·.fileId)

variable {store : Store} {project other path fileId : String} {file : IndexedFile}

theorem owns_iff : store.owns project fileId = true ↔
    ∃ row ∈ store.files, row.project = project ∧ row.file.id = fileId := by
  rw [owns, List.any_eq_true]
  simp only [Bool.and_eq_true, beq_iff_eq]

/-- A file is of one project only. -/
theorem IsSound.owns_unique (sound : store.IsSound) (isOwned : store.owns project fileId = true)
    (isOther : store.owns other fileId = true) : project = other := by
  rcases owns_iff.mp isOwned with ⟨row, member, rfl, rfl⟩
  rcases owns_iff.mp isOther with ⟨otherRow, otherMember, rfl, same⟩
  rw [List.inj_on_of_nodup_map sound.ids otherMember member same]

theorem row?_only (store : Store) (project path : String) :
    (store.only project).row? project path = store.row? project path := by
  rw [row?, only, rowsOf, List.find?_filter, row?]
  congr 1
  funext row
  unfold FileRow.isAt
  cases row.project == project <;> cases row.file.path == path <;> rfl

theorem states_only (store : Store) (project : String) :
    (store.only project).states project = store.states project := by
  rw [states, states, rowsOf, only, rowsOf, List.filter_filter]
  simp only [Bool.and_self]

theorem durableId_only (store : Store) (project : String) (file : IndexedFile) :
    (store.only project).durableId project file = store.durableId project file := by
  rw [durableId, durableId, row?_only]

/-! ## Identifiers of other projects -/

/-- Whether no row of another project has an identifier in common with a file of this one. -/
structure Avoids (store : Store) (project : String) (file : IndexedFile) : Prop where
  files : ∀ row ∈ store.files, row.project ≠ project → row.file.id ∉ file.rowIds .file
  definitions : ∀ row ∈ store.definitions, store.owns project row.fileId = false →
    row.id ∉ file.rowIds .definition
  dependencies : ∀ row ∈ store.dependencies, store.owns project row.fileId = false →
    row.id ∉ file.rowIds .dependency
  chunks : ∀ row ∈ store.chunks, store.owns project row.fileId = false →
    row.id ∉ file.rowIds .chunk

theorem avoids_empty (project : String) (file : IndexedFile) : Avoids {} project file :=
  ⟨List.forall_mem_nil _, List.forall_mem_nil _, List.forall_mem_nil _, List.forall_mem_nil _⟩

/-! ## Writing -/

theorem rowsOf_changeAt {change : FileRow → FileRow}
    (stays : ∀ row, (change row).project = row.project) (files : List FileRow) :
    (Mirrors.changeAt project path change files).filter (·.project == other) =
      Mirrors.changeAt project path change (files.filter (·.project == other)) := by
  rw [Mirrors.changeAt, Mirrors.changeAt, List.filter_map]
  congr 1
  apply List.filter_congr
  intro row _
  rw [Function.comp_apply]
  split
  · rw [stays]
  · rfl

/-- Rows of other projects are not at any path of this one. -/
theorem changeAt_rowsOf {change : FileRow → FileRow} (different : other ≠ project)
    (files : List FileRow) :
    Mirrors.changeAt project path change (files.filter (·.project == other)) =
      files.filter (·.project == other) := by
  apply map_eq_self
  intro row member
  apply if_neg
  rw [FileRow.isAt_iff]
  rintro ⟨same, -⟩
  exact different ((beq_iff_eq.mp (List.mem_filter.mp member).2).symm.trans same)

theorem rowsOf_written (store : Store) (project : String) (file : IndexedFile) :
    (store.written project file).rowsOf project = (store.only project).filesWith project file := by
  have kept : (store.written project file).rowsOf project =
      (store.filesWith project file).filter (·.project == project) := rfl
  have stays : ∀ row : FileRow, (row.revise file).project = row.project := fun _ => rfl
  rw [kept]
  unfold filesWith
  rw [row?_only]
  cases store.row? project file.path with
  | some row => exact rowsOf_changeAt stays store.files
  | none =>
      have own : (FileRow.mk project file.release).project == project := beq_self_eq_true project
      simp only
      rw [List.filter_append, List.filter_singleton, own]
      rfl

theorem rowsOf_written_other (store : Store) (file : IndexedFile) (different : other ≠ project) :
    (store.written project file).rowsOf other = store.rowsOf other := by
  have kept : (store.written project file).rowsOf other =
      (store.filesWith project file).filter (·.project == other) := rfl
  have stays : ∀ row : FileRow, (row.revise file).project = row.project := fun _ => rfl
  rw [kept]
  unfold filesWith
  cases store.row? project file.path with
  | some row => exact (rowsOf_changeAt stays store.files).trans (changeAt_rowsOf different _)
  | none =>
      have foreign : ((FileRow.mk project file.release).project == other) = false :=
        beq_eq_false_iff_ne.mpr different.symm
      simp only
      rw [List.filter_append, List.filter_singleton, foreign]
      exact List.append_nil _

theorem owns_iff_mem :
    store.owns project fileId = true ↔ fileId ∈ (store.only project).fileIds := by
  rw [owns_iff, fileIds, List.mem_map, only, rowsOf]
  simp only [List.mem_filter, beq_iff_eq, and_assoc]

/-- Writing a file makes its identifier one of its project. -/
theorem owns_written (store : Store) (project : String) (file : IndexedFile) (fileId : String) :
    (store.written project file).owns project fileId =
      (store.owns project fileId || fileId == store.durableId project file) := by
  have ids : ((store.written project file).only project).fileIds =
      ((store.only project).filesWith project file).map (·.file.id) :=
    congrArg (List.map fun row : FileRow => row.file.id) (rowsOf_written store project file)
  rw [Bool.eq_iff_iff, Bool.or_eq_true, beq_iff_eq, owns_iff_mem, owns_iff_mem, ids,
    fileIds_filesWith, ← durableId_only]
  unfold durableId
  cases found : (store.only project).row? project file.path with
  | some row =>
      have known : row.file.id ∈ (store.only project).fileIds :=
        List.mem_map_of_mem (row?_eq_some found).1
      exact ⟨.inl, fun isOwned => isOwned.elim id fun same => same ▸ known⟩
  | none => exact List.mem_append.trans (or_congr_right List.mem_singleton)

theorem owns_written_other (store : Store) (file : IndexedFile) (different : other ≠ project)
    (fileId : String) :
    (store.written project file).owns other fileId = store.owns other fileId := by
  have same : ((store.written project file).only other).fileIds = (store.only other).fileIds :=
    congrArg (List.map fun row : FileRow => row.file.id) (rowsOf_written_other store file different)
  rw [Bool.eq_iff_iff, owns_iff_mem, owns_iff_mem, same]

section

variable {α : Type} (format : RowFormat α) {rows new : List α} {durable : String}

/-- What is extracted from a file of a project is exchanged among the rows of the project as among
all rows. -/
theorem filter_exchanged_own (keeps : format.KeepsFiles)
    (owned : ∀ row ∈ new, format.fileIdOf row = durable)
    (foreign : ∀ old ∈ rows.filter (format.fileIdOf · != durable),
      store.owns project (format.fileIdOf old) = false →
        ∀ row ∈ new, format.idOf old ≠ format.idOf row) :
    (format.put (rows.filter (format.fileIdOf · != durable)) new).filter
        (fun row => store.owns project (format.fileIdOf row) || format.fileIdOf row == durable) =
      format.put ((rows.filter (store.owns project <| format.fileIdOf ·)).filter
        (format.fileIdOf · != durable)) new := by
  let isOwned := fun fileId => store.owns project fileId || fileId == durable
  have isOwn : isOwned durable = true := by
    rw [Bool.or_eq_true, beq_self_eq_true]
    exact .inr rfl
  have kept : (rows.filter (format.fileIdOf · != durable)).filter (isOwned <| format.fileIdOf ·) =
      (rows.filter (store.owns project <| format.fileIdOf ·)).filter
        (format.fileIdOf · != durable) := by
    rw [List.filter_filter, List.filter_filter]
    apply List.filter_congr
    intro row _
    unfold isOwned bne
    cases store.owns project (format.fileIdOf row) <;>
      cases format.fileIdOf row == durable <;> rfl
  rw [← kept]
  refine (format.filter_put keeps owned ?_).trans (if_pos isOwn)
  intro old member row isNew same
  rw [isOwn]
  by_contra unowned
  rw [Bool.not_eq_true, Bool.or_eq_false_iff] at unowned
  exact foreign old member unowned.1 row isNew same

/-- It is no concern of the rows of another project. -/
theorem filter_exchanged_foreign (keeps : format.KeepsFiles)
    (owned : ∀ row ∈ new, format.fileIdOf row = durable)
    (isForeign : store.owns other durable = false)
    (foreign : ∀ old ∈ rows.filter (format.fileIdOf · != durable),
      store.owns other (format.fileIdOf old) = true →
        ∀ row ∈ new, format.idOf old ≠ format.idOf row) :
    (format.put (rows.filter (format.fileIdOf · != durable)) new).filter
        (store.owns other <| format.fileIdOf ·) =
      rows.filter (store.owns other <| format.fileIdOf ·) := by
  have kept : (rows.filter (format.fileIdOf · != durable)).filter
      (store.owns other <| format.fileIdOf ·) =
        rows.filter (store.owns other <| format.fileIdOf ·) := by
    rw [List.filter_filter]
    apply List.filter_congr
    intro row _
    cases isOther : store.owns other (format.fileIdOf row) with
    | false => rfl
    | true =>
        rw [Bool.true_and, bne_iff_ne]
        rintro same
        rw [same, isForeign] at isOther
        cases isOther
  rw [← kept]
  refine (format.filter_put keeps owned ?_).trans (if_neg (Bool.not_eq_true _ ▸ isForeign))
  intro old member row isNew same
  rw [isForeign]
  by_contra isOther
  rw [Bool.not_eq_false] at isOther
  exact foreign old member isOther row isNew same

end

/-- The new rows of a file have no identifier that a row of another project has. -/
theorem ne_of_avoided {α : Type} (format : RowFormat α) {rows new : List α} {kind : RowKind}
    (avoided : ∀ row ∈ rows, store.owns project (format.fileIdOf row) = false →
      format.idOf row ∉ file.rowIds kind)
    (newIds : new.map format.idOf = file.rowIds kind) :
    ∀ old ∈ rows, store.owns project (format.fileIdOf old) = false →
      ∀ row ∈ new, format.idOf old ≠ format.idOf row := by
  intro old member unowned row isNew same
  refine avoided old member unowned ?_
  rw [← newIds, same]
  exact List.mem_map_of_mem isNew

theorem ne_of_complexity {durable : String} {rows : List ComplexityRow} :
    ∀ old ∈ rows.filter (RowFormat.ofComplexities.fileIdOf · != durable),
      ∀ row ∈ ({ file with id := durable } : IndexedFile).complexityRows,
        RowFormat.ofComplexities.idOf old ≠ RowFormat.ofComplexities.idOf row := by
  intro old member row isNew same
  have kept := bne_iff_ne.mp (List.mem_filter.mp member).2
  exact kept (same.trans (IndexedFile.fileId_of_mem_complexityRows isNew))

/-- Writing a file leaves of its project what writing it leaves of a store that has nothing else. -/
theorem only_written (avoids : store.Avoids project file) :
    (store.written project file).only project = (store.only project).written project file := by
  let durable := store.durableId project file
  have owns : (store.written project file).owns project =
      fun fileId => store.owns project fileId || fileId == durable :=
    funext (owns_written store project file)
  have kept {α : Type} {rows : List α} {holds : α → Prop} {isKept : α → Bool}
      (all : ∀ row ∈ rows, holds row) : ∀ row ∈ rows.filter isKept, holds row :=
    fun row member => all row (List.mem_filter.mp member).1
  have left : (store.written project file).only project = Store.mk _ _ _ _ _ := rfl
  have right : (store.only project).written project file = Store.mk _ _ _ _ _ := rfl
  rw [left, owns, right, durableId_only, Store.mk.injEq]
  refine ⟨rowsOf_written store project file, ?_, ?_, ?_, ?_⟩
  · exact filter_exchanged_own .ofDefinitions RowFormat.keepsFiles_ofDefinitions
      (fun _ => IndexedFile.fileId_of_mem_definitionRows)
      (kept (ne_of_avoided .ofDefinitions avoids.definitions (file.map_id_definitionRows durable)))
  · exact filter_exchanged_own .ofDependencies RowFormat.keepsFiles_ofDependencies
      (fun _ => IndexedFile.fileId_of_mem_dependencyRows)
      (kept (ne_of_avoided .ofDependencies avoids.dependencies
        (file.map_id_dependencyRows durable)))
  · exact filter_exchanged_own .ofChunks RowFormat.keepsFiles_ofChunks
      (fun _ => IndexedFile.fileId_of_mem_chunkRows)
      (kept (ne_of_avoided .ofChunks avoids.chunks (file.map_id_chunkRows durable)))
  · exact filter_exchanged_own .ofComplexities RowFormat.keepsFiles_ofComplexities
      (fun _ => IndexedFile.fileId_of_mem_complexityRows)
      fun old member _ => ne_of_complexity old member

/-- Of other projects it leaves all as it was. -/
theorem only_written_other (sound : store.IsSound) (avoids : store.Avoids project file)
    (fresh : store.row? project file.path = none → file.id ∉ store.fileIds)
    (different : other ≠ project) :
    (store.written project file).only other = store.only other := by
  let durable := store.durableId project file
  have owns : (store.written project file).owns other = store.owns other :=
    funext (owns_written_other store file different)
  have isForeign : store.owns other durable = false := by
    rw [← Bool.not_eq_true]
    intro isOther
    unfold durable durableId at isOther
    cases found : store.row? project file.path with
    | some row =>
        rw [found] at isOther
        rcases row?_eq_some found with ⟨member, sameProject, -⟩
        have isOwn : store.owns project row.file.id = true :=
          owns_iff.mpr ⟨row, member, sameProject, rfl⟩
        exact different (sound.owns_unique isOther isOwn)
    | none =>
        rw [found] at isOther
        rcases owns_iff.mp isOther with ⟨row, member, -, same⟩
        exact fresh found (List.mem_map.mpr ⟨row, member, same⟩)
  -- What another project owns this one does not.
  have foreign {α : Type} {rows : List α} {fileIdOf : α → String} {holds : α → Prop}
      {isKept : α → Bool}
      (all : ∀ row ∈ rows, store.owns project (fileIdOf row) = false → holds row) :
      ∀ row ∈ rows.filter isKept, store.owns other (fileIdOf row) = true → holds row := by
    intro row member isOther
    refine all row (List.mem_filter.mp member).1 ?_
    rw [← Bool.not_eq_true]
    exact fun isOwn => different (sound.owns_unique isOther isOwn)
  have left : (store.written project file).only other = Store.mk _ _ _ _ _ := rfl
  have right : store.only other = Store.mk _ _ _ _ _ := rfl
  rw [left, owns, right, Store.mk.injEq]
  refine ⟨rowsOf_written_other store file different, ?_, ?_, ?_, ?_⟩
  · exact filter_exchanged_foreign .ofDefinitions RowFormat.keepsFiles_ofDefinitions
      (fun _ => IndexedFile.fileId_of_mem_definitionRows) isForeign
      (foreign (ne_of_avoided .ofDefinitions avoids.definitions
        (file.map_id_definitionRows durable)))
  · exact filter_exchanged_foreign .ofDependencies RowFormat.keepsFiles_ofDependencies
      (fun _ => IndexedFile.fileId_of_mem_dependencyRows) isForeign
      (foreign (ne_of_avoided .ofDependencies avoids.dependencies
        (file.map_id_dependencyRows durable)))
  · exact filter_exchanged_foreign .ofChunks RowFormat.keepsFiles_ofChunks
      (fun _ => IndexedFile.fileId_of_mem_chunkRows) isForeign
      (foreign (ne_of_avoided .ofChunks avoids.chunks (file.map_id_chunkRows durable)))
  · exact filter_exchanged_foreign .ofComplexities RowFormat.keepsFiles_ofComplexities
      (fun _ => IndexedFile.fileId_of_mem_complexityRows) isForeign
      fun old member _ => ne_of_complexity old member

/-! ## What is answered -/

/-- A file is not written if it is new and its identifier is that of another one; otherwise it is,
and all is confirmed. -/
theorem persist_eq (store : Store) (project : String) (file : IndexedFile) :
    store.persist project file =
      if (store.row? project file.path).isNone ∧ file.id ∈ store.fileIds then
        .error .duplicateFileId
      else
        .ok (acksUnder (store.durableId project file) file, store.written project file) := by
  simp only [Option.isNone_iff_eq_none]
  cases put : store.putFile project file with
  | ok answer =>
      rcases putFile_eq_ok put with ⟨durable, left, fresh⟩
      rw [persist_of_putFile put, durable, left, if_neg fun clash => fresh clash.1 clash.2]
      rfl
  | error error =>
      rcases (store.putFile_eq_error_iff project file error).mp put with ⟨rfl, clash⟩
      rw [persist, put, if_pos clash]
      rfl

/-- What is answered when a file of a project is written goes by the rows of the project. -/
theorem persist_only (avoids : store.Avoids project file) :
    (store.only project).persist project file =
      (store.persist project file).map fun answer => (answer.1, answer.2.only project) := by
  have known : file.id ∈ (store.only project).fileIds ↔ file.id ∈ store.fileIds := by
    rw [fileIds, fileIds, List.mem_map, List.mem_map]
    constructor
    · rintro ⟨row, member, same⟩
      exact ⟨row, (List.mem_filter.mp member).1, same⟩
    · rintro ⟨row, member, same⟩
      refine ⟨row, List.mem_filter.mpr ⟨member, beq_iff_eq.mpr ?_⟩, same⟩
      by_contra foreign
      exact avoids.files row member foreign (List.mem_singleton.mpr same)
  rw [persist_eq, persist_eq, row?_only, durableId_only]
  simp only [known]
  split
  · rfl
  · rw [← only_written avoids]
    rfl

/-! ## Other calls -/

section

variable (store : Store) (project path : String) (time : FileTime)

theorem owns_touch (other fileId : String) :
    (store.touch project path time).2.owns other fileId = store.owns other fileId := by
  unfold touch owns
  rw [List.any_map]
  congr 1
  funext row
  rw [Function.comp_apply]
  split <;> rfl

theorem only_touch : (store.touch project path time).2.only project =
    ((store.only project).touch project path time).2 := by
  let change : FileRow → FileRow := fun row => { row with file := { row.file with time } }
  have stays : ∀ row, (change row).project = row.project := fun _ => rfl
  have owns := funext (store.owns_touch project path time project)
  have left : (store.touch project path time).2.only project = Store.mk _ _ _ _ _ := rfl
  have right : ((store.only project).touch project path time).2 = Store.mk _ _ _ _ _ := rfl
  rw [left, owns, right, Store.mk.injEq]
  exact ⟨rowsOf_changeAt stays store.files, rfl, rfl, rfl, rfl⟩

theorem only_touch_other (different : other ≠ project) :
    (store.touch project path time).2.only other = store.only other := by
  let change : FileRow → FileRow := fun row => { row with file := { row.file with time } }
  have stays : ∀ row, (change row).project = row.project := fun _ => rfl
  have owns := funext (store.owns_touch project path time other)
  have left : (store.touch project path time).2.only other = Store.mk _ _ _ _ _ := rfl
  have right : store.only other = Store.mk _ _ _ _ _ := rfl
  rw [left, owns, right, Store.mk.injEq]
  exact ⟨(rowsOf_changeAt stays store.files).trans (changeAt_rowsOf different _), rfl, rfl, rfl,
    rfl⟩

/-- Whether a file is there goes by the rows of its project. -/
theorem touch_fst_only : ((store.only project).touch project path time).1 =
    (store.touch project path time).1 :=
  congrArg Option.isSome (store.row?_only project path)

theorem remove_fst_only : ((store.only project).remove project path).1 =
    (store.remove project path).1 := by
  rw [remove, remove, row?_only]
  cases store.row? project path <;> rfl

end

section

variable {row : FileRow} (sound : store.IsSound) (found : store.row? project path = some row)

include sound found

theorem owns_without (fileId : String) :
    (store.without project path row.file.id).owns project fileId =
      (store.owns project fileId && fileId != row.file.id) := by
  rcases row?_eq_some found with ⟨member, sameProject, samePath⟩
  have place : row.place = (project, path) := by rw [FileRow.place, sameProject, samePath]
  rw [Bool.eq_iff_iff, Bool.and_eq_true, owns_iff, owns_iff, bne_iff_ne]
  simp only [without, List.mem_filter, Bool.not_eq_true', ← Bool.not_eq_true,
    FileRow.isAt_iff_place]
  constructor
  · rintro ⟨left, ⟨leftMember, elsewhere⟩, isOwn, rfl⟩
    exact ⟨⟨left, leftMember, isOwn, rfl⟩, sound.id_ne leftMember member (place ▸ elsewhere)⟩
  · rintro ⟨⟨left, leftMember, isOwn, rfl⟩, different⟩
    refine ⟨left, ⟨leftMember, ?_⟩, isOwn, rfl⟩
    intro samePlace
    rw [List.inj_on_of_nodup_map sound.places leftMember member (samePlace.trans place.symm)]
      at different
    exact different rfl

/-- The file that is removed is of no other project. -/
theorem owns_removed (different : other ≠ project) : store.owns other row.file.id = false := by
  rcases row?_eq_some found with ⟨member, sameProject, -⟩
  rw [← Bool.not_eq_true]
  intro isOther
  exact different (sound.owns_unique isOther (owns_iff.mpr ⟨row, member, sameProject, rfl⟩))

end

theorem owns_without_other (store : Store) (path fileId : String) (different : other ≠ project)
    (otherId : String) :
    (store.without project path fileId).owns other otherId = store.owns other otherId := by
  rw [Bool.eq_iff_iff, owns_iff, owns_iff]
  simp only [without, List.mem_filter, Bool.not_eq_true', ← Bool.not_eq_true, FileRow.isAt_iff]
  constructor
  · rintro ⟨row, ⟨member, -⟩, isOther⟩
    exact ⟨row, member, isOther⟩
  · rintro ⟨row, member, isOther, same⟩
    exact ⟨row, ⟨member, fun atPath => different (isOther.symm.trans atPath.1)⟩, isOther, same⟩

theorem rowsOf_without_other (store : Store) (path fileId : String) (different : other ≠ project) :
    (store.without project path fileId).rowsOf other = store.rowsOf other := by
  rw [without, rowsOf, List.filter_filter]
  apply List.filter_congr
  intro row _
  cases isOther : row.project == other with
  | false => rfl
  | true =>
      rw [Bool.true_and, Bool.not_eq_true', ← Bool.not_eq_true, FileRow.isAt_iff]
      exact fun atPath => different ((beq_iff_eq.mp isOther).symm.trans atPath.1)

section

variable {α : Type} (rows : List α) (fileIdOf : α → String) {isOwned : String → Bool}

/-- Of the rows that are left without those of a file, some files have what they have left. -/
theorem filter_removed_own :
    (rows.filter (fileIdOf · != fileId)).filter (fun row =>
        isOwned (fileIdOf row) && fileIdOf row != fileId) =
      (rows.filter (isOwned <| fileIdOf ·)).filter (fileIdOf · != fileId) := by
  rw [List.filter_filter, List.filter_filter]
  apply List.filter_congr
  intro row _
  cases isOwned (fileIdOf row) <;> cases fileIdOf row != fileId <;> rfl

/-- Files none of which is removed keep all of their rows. -/
theorem filter_removed_foreign (unowned : isOwned fileId = false) :
    (rows.filter (fileIdOf · != fileId)).filter (isOwned <| fileIdOf ·) =
      rows.filter (isOwned <| fileIdOf ·) := by
  rw [List.filter_filter]
  apply List.filter_congr
  intro row _
  cases isOwn : isOwned (fileIdOf row) with
  | false => rfl
  | true =>
      rw [Bool.true_and, bne_iff_ne]
      intro same
      rw [same, unowned] at isOwn
      cases isOwn

end

theorem only_remove (sound : store.IsSound) (project path : String) :
    (store.remove project path).2.only project =
      ((store.only project).remove project path).2 := by
  rw [remove_eq, remove_eq, row?_only]
  cases found : store.row? project path with
  | none => rfl
  | some row =>
      have owns := funext (owns_without sound found)
      have left : (store.without project path row.file.id).only project = Store.mk _ _ _ _ _ := rfl
      have right : (store.only project).without project path row.file.id =
        Store.mk _ _ _ _ _ := rfl
      simp only
      rw [left, owns, right, Store.mk.injEq]
      exact ⟨List.filter_comm _ _ _, filter_removed_own _ Definition.fileId,
        filter_removed_own _ Dependency.fileId, filter_removed_own _ Chunk.fileId,
        filter_removed_own _ ComplexityRow.fileId⟩

theorem only_remove_other (sound : store.IsSound) (path : String) (different : other ≠ project) :
    (store.remove project path).2.only other = store.only other := by
  rw [remove_eq]
  cases found : store.row? project path with
  | none => rfl
  | some row =>
      have owns := funext (store.owns_without_other path row.file.id different)
      have left : (store.without project path row.file.id).only other = Store.mk _ _ _ _ _ := rfl
      have right : store.only other = Store.mk _ _ _ _ _ := rfl
      have unowned := owns_removed sound found different
      simp only
      rw [left, owns, right, Store.mk.injEq]
      exact ⟨store.rowsOf_without_other path row.file.id different,
        filter_removed_foreign _ Definition.fileId unowned,
        filter_removed_foreign _ Dependency.fileId unowned,
        filter_removed_foreign _ Chunk.fileId unowned,
        filter_removed_foreign _ ComplexityRow.fileId unowned⟩

/-! ## What stays avoided -/

/-- Identifiers that only rows of some files have stay theirs when the rows of a file are
exchanged, if that file becomes one of these or its new rows have others. -/
theorem avoided_exchanged {α : Type} (format : RowFormat α) (keeps : format.KeepsFiles)
    {rows new : List α} {ids : List String} {isOwned isOwnedThen : String → Bool}
    {isKept : α → Bool} (grows : ∀ fileId, isOwned fileId = true → isOwnedThen fileId = true)
    (avoided : ∀ row ∈ rows, isOwned (format.fileIdOf row) = false → format.idOf row ∉ ids)
    (added : ∀ row ∈ new, isOwnedThen (format.fileIdOf row) = false → format.idOf row ∉ ids) :
    ∀ row ∈ format.put (rows.filter isKept) new,
      isOwnedThen (format.fileIdOf row) = false → format.idOf row ∉ ids := by
  refine format.forall_mem_put ?_ added ?_
  · intro row member unowned
    refine avoided row (List.mem_filter.mp member).1 ?_
    rw [← Bool.not_eq_true] at unowned ⊢
    exact fun isOwn => unowned (grows _ isOwn)
  · intro old new oldAvoided newAvoided same unowned
    rw [format.id_revise old new same]
    rcases keeps old new with isOld | isNew
    · exact oldAvoided (isOld ▸ unowned)
    · rw [← same]
      exact newAvoided (isNew ▸ unowned)

theorem Avoids.written {given : IndexedFile} (avoids : store.Avoids other given)
    (apart : other ≠ project → ∀ kind, ∀ id ∈ file.rowIds kind, id ∉ given.rowIds kind) :
    (store.written project file).Avoids other given := by
  let durable := store.durableId project file
  have grows : ∀ fileId, store.owns other fileId = true →
      (store.written project file).owns other fileId = true := by
    intro fileId isOwned
    by_cases same : other = project
    · subst same
      rw [owns_written, isOwned, Bool.true_or]
    · rwa [owns_written_other store file same]
  -- The rows of the file that is written are its project's.
  have isOther : (store.written project file).owns other durable = false → other ≠ project := by
    rintro unowned rfl
    rw [owns_written, Bool.or_eq_false_iff, beq_self_eq_true] at unowned
    cases unowned.2
  have added {α : Type} {fileIdOf idOf : α → String} {new : List α} {kind : RowKind}
      (owned : ∀ row ∈ new, fileIdOf row = durable) (newIds : new.map idOf = file.rowIds kind) :
      ∀ row ∈ new, (store.written project file).owns other (fileIdOf row) = false →
        idOf row ∉ given.rowIds kind := by
    intro row member unowned
    rw [owned row member] at unowned
    exact apart (isOther unowned) kind _ (newIds ▸ List.mem_map_of_mem member)
  constructor
  · intro row member foreign
    have written : row ∈ store.filesWith project file := member
    unfold filesWith at written
    split at written
    · rcases List.mem_map.mp written with ⟨former, formerMember, rfl⟩
      split at foreign <;> rename_i atPath
      · rw [if_pos atPath]
        exact avoids.files former formerMember foreign
      · rw [if_neg atPath]
        exact avoids.files former formerMember foreign
    · rcases List.mem_append.mp written with former | isNew
      · exact avoids.files row former foreign
      · rw [List.mem_singleton.mp isNew] at foreign ⊢
        exact apart (fun same => foreign same.symm) .file _ List.mem_cons_self
  · exact avoided_exchanged .ofDefinitions RowFormat.keepsFiles_ofDefinitions grows
      avoids.definitions (added (fun _ => IndexedFile.fileId_of_mem_definitionRows)
        (file.map_id_definitionRows durable))
  · exact avoided_exchanged .ofDependencies RowFormat.keepsFiles_ofDependencies grows
      avoids.dependencies (added (fun _ => IndexedFile.fileId_of_mem_dependencyRows)
        (file.map_id_dependencyRows durable))
  · exact avoided_exchanged .ofChunks RowFormat.keepsFiles_ofChunks grows
      avoids.chunks (added (fun _ => IndexedFile.fileId_of_mem_chunkRows)
        (file.map_id_chunkRows durable))

theorem Avoids.touch (avoids : store.Avoids other file) (project path : String) (time : FileTime) :
    (store.touch project path time).2.Avoids other file where
  files := by
    intro row member foreign
    rcases List.mem_map.mp member with ⟨former, formerMember, rfl⟩
    split at foreign <;> rename_i atPath
    · rw [if_pos atPath]
      exact avoids.files former formerMember foreign
    · rw [if_neg atPath]
      exact avoids.files former formerMember foreign
  definitions row member unowned :=
    avoids.definitions row member (store.owns_touch project path time other _ ▸ unowned)
  dependencies row member unowned :=
    avoids.dependencies row member (store.owns_touch project path time other _ ▸ unowned)
  chunks row member unowned :=
    avoids.chunks row member (store.owns_touch project path time other _ ▸ unowned)

theorem Avoids.remove (sound : store.IsSound) (avoids : store.Avoids other file)
    (project path : String) : (store.remove project path).2.Avoids other file := by
  rw [remove_eq]
  cases found : store.row? project path with
  | none => exact avoids
  | some row =>
      -- What is left and not owned any more has not been owned.
      have unowned : ∀ fileId, (fileId != row.file.id) = true →
          (store.without project path row.file.id).owns other fileId = false →
          store.owns other fileId = false := by
        intro fileId kept unowned
        by_cases same : other = project
        · subst same
          rwa [owns_without sound found, kept, Bool.and_true] at unowned
        · rwa [owns_without_other store path _ same] at unowned
      constructor
      · intro left member
        exact avoids.files left (List.mem_filter.mp member).1
      · intro left member isLeft
        rcases List.mem_filter.mp member with ⟨former, kept⟩
        exact avoids.definitions left former (unowned _ kept isLeft)
      · intro left member isLeft
        rcases List.mem_filter.mp member with ⟨former, kept⟩
        exact avoids.dependencies left former (unowned _ kept isLeft)
      · intro left member isLeft
        rcases List.mem_filter.mp member with ⟨former, kept⟩
        exact avoids.chunks left former (unowned _ kept isLeft)

end Store

end SourceIndex
