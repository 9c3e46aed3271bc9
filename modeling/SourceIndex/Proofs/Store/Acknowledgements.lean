import SourceIndex.Proofs.Store.Integrity
import Mathlib.Data.List.Perm.Subperm

/-! What the acknowledgements of a file that has been written are worth. A row is confirmed if there
is a row of its identifier; whether that row is the file's own is not looked at. -/

namespace SourceIndex

/-! ## What is confirmed, and what can be read -/

/-- The identifiers of the rows of a kind that are confirmed. -/
def confirmedIds (kind : RowKind) (acks : List WriteAck) : List String :=
  (acks.filter (·.kind = kind)).filterMap (·.durableId)

/-- The identifiers of the rows of a kind that are written with a file, one for each row. -/
def IndexedFile.writtenIds (file : IndexedFile) : RowKind → List String
  | .file => [file.id]
  | .definition => file.definitionRows.map (·.id)
  | .dependency => file.dependencyRows.map (·.id)
  | .chunk => file.chunkRows.map (·.id)
  | .complexity => file.complexityRows.map (·.fileId)

namespace Store

/-- A file under the identifier that its row gets. -/
def named (store : Store) (project : String) (file : IndexedFile) : IndexedFile :=
  { file with id := store.durableId project file }

/-- The identifiers of the rows of a kind that can be read for a file. -/
def readableIds (store : Store) (fileId : String) : RowKind → List String
  | .file => (store.files.filter (·.file.id == fileId)).map (·.file.id)
  | .definition => (store.definitionsOf fileId).map (·.id)
  | .dependency => (store.dependenciesOf fileId).map (·.id)
  | .chunk => (store.chunksOf fileId).map (·.id)
  | .complexity => (store.complexityOf? fileId).toList.map fun _ => fileId

/-- The identifiers of the rows of a kind whose files are looked for. -/
def idsWhere (store : Store) (isLookedFor : String → Bool) : RowKind → List String
  | .file => (store.files.filter (isLookedFor ·.file.id)).map (·.file.id)
  | .definition => (store.definitions.filter (isLookedFor ·.fileId)).map (·.id)
  | .dependency => (store.dependencies.filter (isLookedFor ·.fileId)).map (·.id)
  | .chunk => (store.chunks.filter (isLookedFor ·.fileId)).map (·.id)
  | .complexity => (store.complexities.filter (isLookedFor ·.fileId)).map (·.fileId)

/-- The identifiers of the rows of a kind that belong to other files. -/
def idsElsewhere (store : Store) (fileId : String) : RowKind → List String :=
  store.idsWhere (· != fileId)

/-- Whether the rows that are confirmed for a file can be counted on: they are as many as can be
read for it, and each of them is among those. -/
structure Honours (store : Store) (fileId : String) (acks : List WriteAck) (kind : RowKind) :
    Prop where
  count : (confirmedIds kind acks).length = (store.readableIds fileId kind).length
  readable : ∀ id ∈ confirmedIds kind acks, id ∈ store.readableIds fileId kind

/-- How the rows of other files are changed when a file is written: those that have the identifier
of a new row take over what that lets them. -/
structure IsRevisedBy (after before : Store) (file : IndexedFile) : Prop where
  definitions : after.definitions.filter (·.fileId != file.id) =
    (before.definitions.filter (·.fileId != file.id)).map
      (RowFormat.ofDefinitions.revisedBy file.definitionRows)
  dependencies : after.dependencies.filter (·.fileId != file.id) =
    (before.dependencies.filter (·.fileId != file.id)).map
      (RowFormat.ofDependencies.revisedBy file.dependencyRows)
  chunks : after.chunks.filter (·.fileId != file.id) =
    (before.chunks.filter (·.fileId != file.id)).map
      (RowFormat.ofChunks.revisedBy file.chunkRows)
  complexities : after.complexities.filter (·.fileId != file.id) =
    before.complexities.filter (·.fileId != file.id)

/-- Whether two stores have the same rows that have been extracted from other files. -/
structure AgreesElsewhere (after before : Store) (fileId : String) : Prop where
  definitions : after.definitions.filter (·.fileId != fileId) =
    before.definitions.filter (·.fileId != fileId)
  dependencies : after.dependencies.filter (·.fileId != fileId) =
    before.dependencies.filter (·.fileId != fileId)
  chunks : after.chunks.filter (·.fileId != fileId) = before.chunks.filter (·.fileId != fileId)
  complexities : after.complexities.filter (·.fileId != fileId) =
    before.complexities.filter (·.fileId != fileId)

end Store

/-! ## Rows that meet rows of other files -/

namespace RowFormat

variable {α : Type} (format : RowFormat α) {rows : List α} (new : List α) (fileId : String)

/-- A row that takes over from others stays with its file. -/
theorem fileId_revisedBy (keeps : ∀ old later, format.idOf later = format.idOf old →
    format.fileIdOf (format.revise old later) = format.fileIdOf old) (row : α) :
    format.fileIdOf (format.revisedBy new row) = format.fileIdOf row := by
  induction new generalizing row with
  | nil => rfl
  | cons later new induction =>
      have step : format.revisedBy (later :: new) row = format.revisedBy new
          (if format.idOf later = format.idOf row then format.revise row later else row) := rfl
      rw [step, induction]
      split
      · next same => exact keeps row later same
      · rfl

section

variable (distinct : (rows.map format.idOf).Nodup)
  (owned : ∀ row ∈ new, format.fileIdOf row = fileId)
  (keeps : ∀ old later, format.idOf later = format.idOf old →
    format.fileIdOf (format.revise old later) = format.fileIdOf old)

include distinct owned keeps

/-- The rows of other files are changed where new ones meet them. The file has those new rows that
meet none. -/
theorem filter_exchanged_of_nodup :
    (format.put (rows.filter (format.fileIdOf · != fileId)) new).filter
        (format.fileIdOf · != fileId) =
      (rows.filter (format.fileIdOf · != fileId)).map (format.revisedBy new) ∧
    (format.put (rows.filter (format.fileIdOf · != fileId)) new).filter
        (format.fileIdOf · == fileId) =
      format.merge (new.filter
        (format.idOf · ∉ (rows.filter (format.fileIdOf · != fileId)).map format.idOf)) := by
  have others : ∀ row ∈ (rows.filter (format.fileIdOf · != fileId)).map (format.revisedBy new),
      format.fileIdOf row ≠ fileId := by
    rw [List.forall_mem_map]
    intro row member
    rw [format.fileId_revisedBy new keeps]
    exact bne_iff_ne.mp (List.mem_filter.mp member).2
  have own : ∀ row ∈ format.merge (new.filter
      (format.idOf · ∉ (rows.filter (format.fileIdOf · != fileId)).map format.idOf)),
      format.fileIdOf row = fileId :=
    fun row member => format.fileId_of_mem_merge
      (fun row member => owned row (List.mem_filter.mp member).1) member
  rw [format.put_eq (distinct.sublist (List.filter_sublist.map _)), List.filter_append,
    List.filter_append]
  constructor
  · have kept := List.filter_eq_self.mpr fun row member => bne_iff_ne.mpr (others row member)
    have gone := List.filter_eq_nil_iff.mpr fun row member different =>
      bne_iff_ne.mp different (own row member)
    rw [kept, gone, List.append_nil]
  · rw [Mirrors.filter_of_foreign others, Mirrors.filter_of_owned own, List.nil_append]

theorem mem_ids_exchanged (id : String) :
    id ∈ ((format.put (rows.filter (format.fileIdOf · != fileId)) new).filter
        (format.fileIdOf · == fileId)).map format.idOf ↔
      id ∈ new.map format.idOf ∧
        id ∉ (rows.filter (format.fileIdOf · != fileId)).map format.idOf := by
  rw [(format.filter_exchanged_of_nodup new fileId distinct owned keeps).2, merge, mem_map_id_put,
    List.map_nil, or_iff_right List.not_mem_nil]
  constructor
  · intro member
    rcases List.mem_map.mp member with ⟨row, rowMember, rfl⟩
    rw [List.mem_filter, decide_eq_true_eq] at rowMember
    exact ⟨List.mem_map_of_mem rowMember.1, rowMember.2⟩
  · rintro ⟨member, fresh⟩
    rcases List.mem_map.mp member with ⟨row, rowMember, rfl⟩
    exact List.mem_map_of_mem (List.mem_filter.mpr ⟨rowMember, decide_eq_true fresh⟩)

end

end RowFormat

/-! ## What can be read of a file -/

namespace Store

variable {store : Store}

theorem complexityOf?_toList (distinct : (store.complexities.map (·.fileId)).Nodup)
    (fileId : String) : ((store.complexityOf? fileId).toList.map fun _ => fileId) =
      (store.complexities.filter (·.fileId == fileId)).map (·.fileId) := by
  have ids : ∀ row ∈ store.complexities.filter (·.fileId == fileId), row.fileId = fileId :=
    fun row member => eq_of_beq (List.mem_filter.mp member).2
  have alone : ((store.complexities.filter (·.fileId == fileId)).map (·.fileId)).Nodup :=
    distinct.sublist (List.filter_sublist.map _)
  have format : ∀ row, RowFormat.ofComplexities.fileIdOf row = row.fileId := fun _ => rfl
  simp only [Mirrors.complexityOf?_eq_head?, format]
  cases rows : store.complexities.filter (·.fileId == fileId) with
  | nil => rfl
  | cons row rest =>
      rw [rows] at ids alone
      cases rest with
      | nil => exact congrArg ([·]) (ids row List.mem_cons_self).symm
      | cons other rest =>
          have same := (ids row List.mem_cons_self).trans
            (ids other (List.mem_cons_of_mem _ List.mem_cons_self)).symm
          rw [List.map_cons, List.map_cons, same, List.nodup_cons] at alone
          exact absurd List.mem_cons_self alone.1

/-- Reading a file gives just the rows that belong to it, each of them once. -/
theorem IsIntact.perm_readableIds (intact : store.IsIntact) (fileId : String) (kind : RowKind) :
    (store.readableIds fileId kind).Perm (store.idsWhere (· == fileId) kind) := by
  cases kind with
  | file => exact .rfl
  | definition => exact (List.mergeSort_perm _ _).map _
  | dependency => exact (List.mergeSort_perm _ _).map _
  | chunk => exact (List.mergeSort_perm _ _).map _
  | complexity => exact .of_eq (complexityOf?_toList intact.complexityFiles fileId)

theorem IsIntact.nodup_idsWhere (intact : store.IsIntact) (isLookedFor : String → Bool)
    (kind : RowKind) : (store.idsWhere isLookedFor kind).Nodup := by
  cases kind with
  | file => exact intact.ids.sublist (List.filter_sublist.map _)
  | definition => exact intact.definitionIds.sublist (List.filter_sublist.map _)
  | dependency => exact intact.dependencyIds.sublist (List.filter_sublist.map _)
  | chunk => exact intact.chunkIds.sublist (List.filter_sublist.map _)
  | complexity => exact intact.complexityFiles.sublist (List.filter_sublist.map _)

theorem IsIntact.nodup_readableIds (intact : store.IsIntact) (fileId : String) (kind : RowKind) :
    (store.readableIds fileId kind).Nodup :=
  (intact.perm_readableIds fileId kind).nodup_iff.mpr (intact.nodup_idsWhere _ kind)

/-! ## Writing a file -/

section

variable (intact : store.IsIntact) (project : String) (file : IndexedFile)

include intact

/-- A file that has been written has those of its rows whose identifiers no row of another file
has. -/
theorem IsIntact.mem_idsWhere_written {kind : RowKind} (isExtracted : kind ≠ .file)
    (id : String) :
    id ∈ (store.written project file).idsWhere (· == (store.named project file).id) kind ↔
      id ∈ (store.named project file).writtenIds kind ∧
        id ∉ store.idsElsewhere (store.named project file).id kind := by
  cases kind with
  | file => exact absurd rfl isExtracted
  | definition =>
      exact RowFormat.ofDefinitions.mem_ids_exchanged (store.named project file).definitionRows _
        intact.definitionIds (fun _ => IndexedFile.fileId_of_mem_definitionRows)
        (fun _ _ _ => rfl) id
  | dependency =>
      exact RowFormat.ofDependencies.mem_ids_exchanged (store.named project file).dependencyRows _
        intact.dependencyIds (fun _ => IndexedFile.fileId_of_mem_dependencyRows)
        (fun _ _ _ => rfl) id
  | chunk =>
      exact RowFormat.ofChunks.mem_ids_exchanged (store.named project file).chunkRows _
        intact.chunkIds (fun _ => IndexedFile.fileId_of_mem_chunkRows)
        (fun _ _ _ => rfl) id
  | complexity =>
      exact RowFormat.ofComplexities.mem_ids_exchanged (store.named project file).complexityRows _
        intact.complexityFiles (fun _ => IndexedFile.fileId_of_mem_complexityRows)
        (fun _ _ same => same) id

theorem IsIntact.isRevisedBy_written :
    (store.written project file).IsRevisedBy store (store.named project file) where
  definitions := (RowFormat.ofDefinitions.filter_exchanged_of_nodup _ _ intact.definitionIds
    (fun _ => IndexedFile.fileId_of_mem_definitionRows) (fun _ _ _ => rfl)).1
  dependencies := (RowFormat.ofDependencies.filter_exchanged_of_nodup _ _ intact.dependencyIds
    (fun _ => IndexedFile.fileId_of_mem_dependencyRows) (fun _ _ _ => rfl)).1
  chunks := (RowFormat.ofChunks.filter_exchanged_of_nodup _ _ intact.chunkIds
    (fun _ => IndexedFile.fileId_of_mem_chunkRows) (fun _ _ _ => rfl)).1
  complexities := by
    refine (RowFormat.ofComplexities.filter_exchanged_of_nodup _ _ intact.complexityFiles
      (fun _ => IndexedFile.fileId_of_mem_complexityRows) (fun _ _ same => same)).1.trans ?_
    apply RowFormat.map_revisedBy_eq_self
    intro row member known
    rcases List.mem_map.mp known with ⟨new, newMember, same⟩
    exact bne_iff_ne.mp (List.mem_filter.mp member).2
      (same.symm.trans (IndexedFile.fileId_of_mem_complexityRows newMember))

end

/-! ## What is confirmed when a file is written -/

theorem confirmedIds_append (kind : RowKind) (left right : List WriteAck) :
    confirmedIds kind (left ++ right) = confirmedIds kind left ++ confirmedIds kind right := by
  rw [confirmedIds, List.filter_append, List.filterMap_append]
  rfl

/-- The rows of one kind are all confirmed, and none of any other kind is. -/
theorem confirmedIds_map {α : Type} (kind own : RowKind) (idOf : α → String) (items : List α) :
    confirmedIds kind (items.map fun item => ⟨own, idOf item, some (idOf item)⟩) =
      if own = kind then items.map idOf else [] := by
  induction items with
  | nil => simp [confirmedIds]
  | cons item items induction =>
      rw [List.map_cons, ← List.singleton_append, confirmedIds_append, induction]
      by_cases same : own = kind
      · simp [confirmedIds, same]
      · simp [confirmedIds, same]

theorem confirmedIds_analysisAcks (kind : RowKind) (fileId : String) (analysis : Analysis) :
    confirmedIds kind (analysisAcks fileId analysis) =
      (if .definition = kind then analysis.definitions.map (·.id) else []) ++
      (if .dependency = kind then analysis.dependencies.map (·.id) else []) ++
      (if .chunk = kind then analysis.chunks.map (·.id) else []) ++
      (if .complexity = kind then [fileId] else []) := by
  have complexity := confirmedIds_map kind .complexity id [fileId]
  simp only [analysisAcks, confirmedIds_append, confirmedIds_map kind]
  exact congrArg _ complexity

/-- The rows that come with a file are those that its acknowledgements name. -/
theorem writtenIds_eq (file : IndexedFile) {kind : RowKind} (isExtracted : kind ≠ .file) :
    file.writtenIds kind =
      confirmedIds kind ((file.analysis.map (analysisAcks file.id)).getD []) := by
  cases analysed : file.analysis with
  | none =>
      cases kind <;> simp [confirmedIds, IndexedFile.writtenIds, IndexedFile.definitionRows,
        IndexedFile.dependencyRows, IndexedFile.chunkRows, IndexedFile.complexityRows, analysed]
        at isExtracted ⊢
  | some analysis =>
      rw [Option.map_some, Option.getD_some, confirmedIds_analysisAcks]
      cases kind <;> simp [IndexedFile.writtenIds, IndexedFile.definitionRows,
        IndexedFile.dependencyRows, IndexedFile.chunkRows, IndexedFile.complexityRows, analysed,
        Definition.stored, Dependency.stored, Chunk.stored] at isExtracted ⊢

/-- The acknowledgements of a file that has been written. -/
theorem acks_of_persist_eq_ok {project : String} {file : IndexedFile} {acks : List WriteAck}
    {after : Store} (persisted : store.persist project file = .ok (acks, after)) :
    acks = ⟨.file, file.id, some (store.durableId project file)⟩ ::
      ((file.analysis.map (analysisAcks (store.durableId project file))).getD []) := by
  cases put : store.putFile project file with
  | error error =>
      rw [persist, put] at persisted
      cases persisted
  | ok answer =>
      rcases putFile_eq_ok put with ⟨durable, -, -⟩
      rw [persist, put] at persisted
      simp only [bind, Except.bind] at persisted
      rw [← durable]
      cases analysed : file.analysis with
      | none =>
          rw [analysed] at persisted
          cases persisted
          rfl
      | some analysis =>
          rw [analysed] at persisted
          cases persisted
          rfl

/-- Of each kind, the rows that are written are confirmed. -/
theorem confirmedIds_of_persist {project : String} {file : IndexedFile} {acks : List WriteAck}
    {after : Store} (persisted : store.persist project file = .ok (acks, after)) {kind : RowKind}
    (isExtracted : kind ≠ .file) : confirmedIds kind acks =
      (store.named project file).writtenIds kind := by
  have ofFile : confirmedIds kind [⟨.file, file.id, some (store.durableId project file)⟩] = [] := by
    simp [confirmedIds, Ne.symm isExtracted]
  rw [acks_of_persist_eq_ok persisted, ← List.singleton_append, confirmedIds_append, ofFile,
    List.nil_append]
  exact (writtenIds_eq (store.named project file) isExtracted).symm

/-! ## The result -/

/-- If identifiers are told apart, as many as can be read are confirmed just if nothing is confirmed
twice or elsewhere. -/
theorem length_eq_and_subset_iff {confirmed readable elsewhere : List String}
    (distinct : readable.Nodup) (read : ∀ id, id ∈ readable ↔ id ∈ confirmed ∧ id ∉ elsewhere) :
    (confirmed.length = readable.length ∧ ∀ id ∈ confirmed, id ∈ readable) ↔
      confirmed.Nodup ∧ ∀ id ∈ confirmed, id ∉ elsewhere := by
  have within : readable ⊆ confirmed := fun id member => ((read id).mp member).1
  constructor
  · rintro ⟨count, readableIds⟩
    have same : readable.Perm confirmed :=
      (List.subperm_of_subset distinct within).perm_of_length_le (Nat.le_of_eq count)
    exact ⟨same.nodup_iff.mp distinct, fun id member => ((read id).mp (readableIds id member)).2⟩
  · rintro ⟨once, fresh⟩
    have readableIds : ∀ id ∈ confirmed, id ∈ readable :=
      fun id member => (read id).mpr ⟨member, fresh id member⟩
    have same : readable.Perm confirmed := (List.perm_ext_iff_of_nodup distinct once).mpr
      fun id => ⟨fun member => within member, readableIds id⟩
    exact ⟨same.length_eq.symm, readableIds⟩

/-- Where no identifier of a row that is confirmed is found elsewhere, nothing elsewhere changes. -/
theorem IsRevisedBy.agreesElsewhere {before after : Store} {file : IndexedFile}
    (revised : after.IsRevisedBy before file)
    (fresh : ∀ kind ≠ .file, ∀ id ∈ file.writtenIds kind, id ∉ before.idsElsewhere file.id kind) :
    after.AgreesElsewhere before file.id where
  definitions := revised.definitions.trans <| RowFormat.ofDefinitions.map_revisedBy_eq_self
    fun _ member known => fresh .definition nofun _ known (List.mem_map_of_mem member)
  dependencies := revised.dependencies.trans <| RowFormat.ofDependencies.map_revisedBy_eq_self
    fun _ member known => fresh .dependency nofun _ known (List.mem_map_of_mem member)
  chunks := revised.chunks.trans <| RowFormat.ofChunks.map_revisedBy_eq_self
    fun _ member known => fresh .chunk nofun _ known (List.mem_map_of_mem member)
  complexities := revised.complexities

/-- In every store that calls can leave, whatever identifiers they use: when a file is written, just
the rows that come with it are confirmed, each under its own identifier; of these, those can be read
that no other file has. So what is confirmed can be counted on just if nothing is confirmed twice or
belongs to another file. Rows of other files take over what the new rows of their identifiers let
them, and are the same where there are none. -/
theorem acks_of_persist_after (calls : List StoreCall) {project : String}
    {file written : IndexedFile} {acks : List WriteAck} {after : Store}
    (isWritten : written = (leftByAll {} calls).named project file)
    (persisted : (leftByAll {} calls).persist project file = .ok (acks, after)) :
    (∀ kind ≠ .file, confirmedIds kind acks = written.writtenIds kind ∧
      (after.readableIds written.id kind).Nodup ∧
      (∀ id, id ∈ after.readableIds written.id kind ↔ id ∈ confirmedIds kind acks ∧
        id ∉ (leftByAll {} calls).idsElsewhere written.id kind) ∧
      (after.Honours written.id acks kind ↔ (confirmedIds kind acks).Nodup ∧
        ∀ id ∈ confirmedIds kind acks, id ∉ (leftByAll {} calls).idsElsewhere written.id kind)) ∧
    after.IsRevisedBy (leftByAll {} calls) written ∧
    ((∀ kind ≠ .file, ∀ id ∈ confirmedIds kind acks,
        id ∉ (leftByAll {} calls).idsElsewhere written.id kind) →
      after.AgreesElsewhere (leftByAll {} calls) written.id) := by
  have intact := isIntact_empty.leftByAll calls
  generalize leftByAll {} calls = before at *
  subst isWritten
  rcases persist_eq_ok persisted with ⟨rfl, fresh⟩
  have intactAfter := intact.written fresh
  have confirmed : ∀ kind ≠ .file, confirmedIds kind acks =
      (before.named project file).writtenIds kind :=
    fun kind isExtracted => confirmedIds_of_persist persisted isExtracted
  have revised := intact.isRevisedBy_written project file
  refine ⟨?_, revised, ?_⟩
  · intro kind isExtracted
    have distinct := intactAfter.nodup_readableIds (before.named project file).id kind
    have read : ∀ id, id ∈ (before.written project file).readableIds
        (before.named project file).id kind ↔ id ∈ confirmedIds kind acks ∧
          id ∉ before.idsElsewhere (before.named project file).id kind := by
      intro id
      rw [(intactAfter.perm_readableIds _ kind).mem_iff, confirmed kind isExtracted]
      exact intact.mem_idsWhere_written project file isExtracted id
    refine ⟨confirmed kind isExtracted, distinct, read, ?_⟩
    rw [← length_eq_and_subset_iff distinct read]
    exact ⟨fun honours => ⟨honours.count, honours.readable⟩, fun both => ⟨both.1, both.2⟩⟩
  · intro elsewhere
    apply revised.agreesElsewhere
    intro kind isExtracted id member
    rw [← confirmed kind isExtracted] at member
    exact elsewhere kind isExtracted id member

/-- A file is written with a definition in it. -/
def sharingCalls : List StoreCall :=
  [.persist "p" (sampleFile "i" (some (measuredAnalysis 1.0)))]

/-- Another file has a longer definition of the same identifier. -/
def sharingFile : IndexedFile :=
  { sampleFile "j" (some { measuredAnalysis 1.0 with
      definitions := (measuredAnalysis 1.0).definitions.map ({ · with endLine := 9 }) }) with
    path := "b.rs" }

/-- The definition of the second file is confirmed, but cannot be read there: it remains that of the
first file, with the length it has in the second one. -/
theorem acks_of_persist_sharingFile :
    ∃ acks after, (leftByAll {} sharingCalls).persist "p" sharingFile = .ok (acks, after) ∧
      confirmedIds .definition acks = ["d"] ∧ "d" ∉ after.readableIds "j" .definition ∧
      ¬ after.Honours "j" acks .definition ∧
      after.definitions.map (fun row => (row.fileId, row.endLine)) = [("i", 9)] := by
  have persisted : (leftByAll {} sharingCalls).persist "p" sharingFile = .ok (_, _) := rfl
  have results := (acks_of_persist_after sharingCalls rfl persisted).1 .definition nofun
  have confirmed : confirmedIds .definition _ = ["d"] := results.1
  have elsewhere : "d" ∈ (leftByAll {} sharingCalls).idsElsewhere "j" .definition := by decide
  have named : "d" ∈ confirmedIds .definition _ := confirmed ▸ List.mem_cons_self
  refine ⟨_, _, persisted, confirmed, ?_, ?_, by decide⟩
  · exact fun member => ((results.2.2.1 "d").mp member).2 elsewhere
  · exact fun honours => (results.2.2.2.mp honours).2 "d" named elsewhere

end Store

end SourceIndex
