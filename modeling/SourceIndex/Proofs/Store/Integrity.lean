import SourceIndex.Proofs.Store.Rows
import Mathlib.Data.List.Nodup
import SourceIndex.Proofs.Store.Statements

/-! What stays true of a store whatever is written into it. Callers may choose identifiers as they
like, also such that belong to other files. A row that is there takes over from each new row of its
identifier what that lets it; the new rows that meet none are added behind, those of one identifier
as one row. -/

namespace SourceIndex

/-! ## Rows that meet others -/

section

variable {α : Type} {idOf : α → String} {revise : (old new : α) → α}

/-- A row whose identifier is there goes to the one row that has it. -/
theorem setRow_of_mem {row : α} {rows : List α} (distinct : (rows.map idOf).Nodup)
    (known : idOf row ∈ rows.map idOf) : setRow idOf revise row rows =
      rows.map fun other => if idOf row = idOf other then revise other row else other := by
  induction rows with
  | nil => exact absurd known List.not_mem_nil
  | cons other rows induction =>
      rw [List.map_cons, List.nodup_cons] at distinct
      rw [setRow, List.map_cons]
      by_cases same : idOf other = idOf row
      · have others : (rows.map fun other =>
            if idOf row = idOf other then revise other row else other) = rows := by
          apply map_eq_self
          intro later member
          apply if_neg
          intro sameLater
          exact distinct.1 (same ▸ sameLater ▸ List.mem_map_of_mem member)
        rw [if_pos same, if_pos same.symm, others]
      · have later : idOf row ∈ rows.map idOf :=
          (List.mem_cons.mp known).resolve_left fun first => same first.symm
        rw [if_neg same, if_neg (Ne.symm same), induction distinct.2 later]

/-- A row whose identifier is among the first ones leaves the others alone. -/
theorem setRow_append_of_mem {row : α} {left : List α} (known : idOf row ∈ left.map idOf)
    (right : List α) :
    setRow idOf revise row (left ++ right) = setRow idOf revise row left ++ right := by
  induction left with
  | nil => exact absurd known List.not_mem_nil
  | cons other left induction =>
      rw [List.cons_append, setRow, setRow]
      by_cases same : idOf other = idOf row
      · rw [if_pos same, if_pos same, List.cons_append]
      · have later : idOf row ∈ left.map idOf :=
          (List.mem_cons.mp known).resolve_left fun first => same first.symm
        rw [if_neg same, if_neg same, induction later, List.cons_append]

end

namespace RowFormat

variable {α : Type} (format : RowFormat α)

/-- Setting a row adds its identifier unless that is there. -/
theorem map_id_setRow (row : α) (rows : List α) :
    (setRow format.idOf format.revise row rows).map format.idOf =
      if format.idOf row ∈ rows.map format.idOf then rows.map format.idOf
      else rows.map format.idOf ++ [format.idOf row] := by
  induction rows with
  | nil => rfl
  | cons other rows induction =>
      rw [setRow]
      by_cases same : format.idOf other = format.idOf row
      · have first : format.idOf row ∈ (other :: rows).map format.idOf :=
          List.mem_map.mpr ⟨other, List.mem_cons_self, same⟩
        rw [if_pos same, if_pos first, List.map_cons, List.map_cons,
          format.id_revise other row same.symm]
      · rw [if_neg same, List.map_cons, induction, List.map_cons]
        simp only [List.mem_cons, Ne.symm same, false_or]
        split
        · rfl
        · rw [List.cons_append]

/-- However rows meet, every identifier stays that of one row only. -/
theorem nodup_put {rows : List α} (distinct : (rows.map format.idOf).Nodup) (new : List α) :
    ((format.put rows new).map format.idOf).Nodup := by
  induction new generalizing rows with
  | nil => exact distinct
  | cons row new induction =>
      rw [put_cons]
      apply induction
      rw [map_id_setRow]
      split
      · exact distinct
      · next fresh =>
          rw [List.nodup_append]
          refine ⟨distinct, List.pairwise_singleton _ _, ?_⟩
          intro id member other isNew same
          exact fresh (List.mem_singleton.mp isNew ▸ same ▸ member)

/-- The identifiers of the rows that are there and of those that are new are all there is. -/
theorem mem_map_id_put (rows new : List α) (id : String) :
    id ∈ (format.put rows new).map format.idOf ↔
      id ∈ rows.map format.idOf ∨ id ∈ new.map format.idOf := by
  induction new generalizing rows with
  | nil => exact ⟨.inl, fun known => known.resolve_right List.not_mem_nil⟩
  | cons row new induction =>
      rw [put_cons, induction, map_id_setRow, List.map_cons, List.mem_cons]
      split
      · next known =>
          constructor
          · exact Or.imp_right .inr
          · rintro (former | rfl | later)
            · exact .inl former
            · exact .inl known
            · exact .inr later
      · rw [List.mem_append, List.mem_singleton, or_assoc]

/-- A row with all that it takes over from new ones. -/
def revisedBy (new : List α) (row : α) : α :=
  new.foldl (fun former later =>
    if format.idOf later = format.idOf former then format.revise former later else former) row

/-- A row that no new one meets stays as it is. -/
theorem revisedBy_eq_self {new : List α} {row : α}
    (foreign : format.idOf row ∉ new.map format.idOf) : format.revisedBy new row = row := by
  induction new with
  | nil => rfl
  | cons later new induction =>
      rw [List.map_cons, List.mem_cons, not_or] at foreign
      have step : format.revisedBy (later :: new) row = format.revisedBy new
          (if format.idOf later = format.idOf row then format.revise row later else row) := rfl
      rw [step, if_neg (Ne.symm foreign.1), induction foreign.2]

theorem map_revisedBy_eq_self {rows new : List α}
    (foreign : ∀ row ∈ rows, format.idOf row ∉ new.map format.idOf) :
    rows.map (format.revisedBy new) = rows :=
  map_eq_self fun row member => format.revisedBy_eq_self (foreign row member)

/-- New rows that meet some of the first rows change those; the rest goes to the others. -/
theorem put_append_eq {left : List α} (distinct : (left.map format.idOf).Nodup)
    (right new : List α) : format.put (left ++ right) new =
      left.map (format.revisedBy new) ++
        format.put right (new.filter (format.idOf · ∉ left.map format.idOf)) := by
  induction new generalizing left right with
  | nil => exact congrArg (· ++ right) (List.map_id' left).symm
  | cons row new induction =>
      rw [put_cons]
      by_cases known : format.idOf row ∈ left.map format.idOf
      · have ids : (setRow format.idOf format.revise row left).map format.idOf =
            left.map format.idOf := by
          rw [map_id_setRow, if_pos known]
        rw [setRow_append_of_mem known, induction (ids ▸ distinct), ids,
          setRow_of_mem distinct known, List.map_map,
          List.filter_cons_of_neg (by simpa using known)]
        rfl
      · have foreign : ∀ other ∈ left, format.idOf other ≠ format.idOf row :=
          fun other member same => known (same ▸ List.mem_map_of_mem member)
        have met : left.map (format.revisedBy (row :: new)) = left.map (format.revisedBy new) := by
          apply List.map_congr_left
          intro other member
          exact congrArg (format.revisedBy new) (if_neg (Ne.symm (foreign other member)))
        rw [setRow_append foreign, induction distinct, met,
          List.filter_cons_of_pos (by simpa using known), put_cons]

/-- What becomes of rows when new ones are set: those that are met are changed, and the new ones
that meet none are added. -/
theorem put_eq {rows : List α} (distinct : (rows.map format.idOf).Nodup) (new : List α) :
    format.put rows new = rows.map (format.revisedBy new) ++
      format.merge (new.filter (format.idOf · ∉ rows.map format.idOf)) := by
  have appended := format.put_append_eq distinct [] new
  rwa [List.append_nil] at appended

end RowFormat

/-! ## What stays true of a store -/

namespace Store

/-- Whether the rows of a store fit together and every row has its identifier to itself. -/
structure IsIntact (store : Store) : Prop extends store.IsSound where
  definitionIds : (store.definitions.map (·.id)).Nodup
  dependencyIds : (store.dependencies.map (·.id)).Nodup
  chunkIds : (store.chunks.map (·.id)).Nodup
  complexityFiles : (store.complexities.map (·.fileId)).Nodup

variable {store : Store}

/-! ## What one call keeps -/

theorem isIntact_empty : IsIntact {} where
  toIsSound := isSound_empty
  definitionIds := .nil
  dependencyIds := .nil
  chunkIds := .nil
  complexityFiles := .nil

/-- Identifiers stay apart when rows are exchanged. -/
theorem nodup_exchanged {α : Type} (format : RowFormat α) {rows : List α}
    (distinct : (rows.map format.idOf).Nodup) (isKept : α → Bool) (new : List α) :
    ((format.put (rows.filter isKept) new).map format.idOf).Nodup :=
  format.nodup_put (distinct.sublist (List.filter_sublist.map _)) new

theorem IsIntact.written (intact : store.IsIntact) {project : String} {file : IndexedFile}
    (fresh : store.row? project file.path = none → file.id ∉ store.fileIds) :
    (store.written project file).IsIntact where
  toIsSound := intact.toIsSound.written fresh
  definitionIds := nodup_exchanged .ofDefinitions intact.definitionIds _ _
  dependencyIds := nodup_exchanged .ofDependencies intact.dependencyIds _ _
  chunkIds := nodup_exchanged .ofChunks intact.chunkIds _ _
  complexityFiles := nodup_exchanged .ofComplexities intact.complexityFiles _ _

theorem IsIntact.touch (intact : store.IsIntact) (project path : String) (time : FileTime) :
    (store.touch project path time).2.IsIntact where
  toIsSound := intact.toIsSound.touch project path time
  definitionIds := intact.definitionIds
  dependencyIds := intact.dependencyIds
  chunkIds := intact.chunkIds
  complexityFiles := intact.complexityFiles

theorem IsIntact.remove (intact : store.IsIntact) (project path : String) :
    (store.remove project path).2.IsIntact := by
  have sound := intact.toIsSound.remove project path
  rw [remove_eq] at sound ⊢
  cases found : store.row? project path with
  | none => exact intact
  | some row =>
      rw [found] at sound
      exact {
        toIsSound := sound
        definitionIds := intact.definitionIds.sublist (List.filter_sublist.map _)
        dependencyIds := intact.dependencyIds.sublist (List.filter_sublist.map _)
        chunkIds := intact.chunkIds.sublist (List.filter_sublist.map _)
        complexityFiles := intact.complexityFiles.sublist (List.filter_sublist.map _) }

theorem IsIntact.call (intact : store.IsIntact) {call : StoreCall} {answer : StoreAnswer}
    {after : Store} (answered : store.call call = .ok (answer, after)) : after.IsIntact := by
  cases call with
  | persist project file =>
      rw [Store.call] at answered
      cases persisted : store.persist project file with
      | error error =>
          rw [persisted] at answered
          cases answered
      | ok written =>
          rw [persisted] at answered
          cases answered
          rcases persist_eq_ok persisted with ⟨isWritten, fresh⟩
          rw [isWritten]
          exact intact.written fresh
  | touch project path time =>
      cases answered
      exact intact.touch project path time
  | remove project path =>
      cases answered
      exact intact.remove project path

/-! ## What sequences of calls keep -/

/-- The store that a call leaves, also when it fails. -/
def leftBy (store : Store) (call : StoreCall) : Store :=
  match call.inPlace.run store with
  | .ok _ after => after
  | .error _ after => after

/-- The store that calls leave. A call that fails does not keep the later ones from being made. -/
def leftByAll (store : Store) (calls : List StoreCall) : Store := calls.foldl leftBy store

theorem IsIntact.leftBy (intact : store.IsIntact) (call : StoreCall) :
    (store.leftBy call).IsIntact := by
  rw [Store.leftBy, intact.inPlace_eq call]
  cases answered : store.call call with
  | error error => exact intact
  | ok answer => exact intact.call answered

theorem IsIntact.leftByAll (intact : store.IsIntact) (calls : List StoreCall) :
    (store.leftByAll calls).IsIntact := by
  induction calls generalizing store with
  | nil => exact intact
  | cons call calls induction => exact induction (intact.leftBy call)

/-! ## What makes a call fail -/

end Store

/-- Whether a call would give a new file the identifier of another one. -/
def StoreCall.Clashes (store : Store) : StoreCall → Prop
  | .persist project file => store.row? project file.path = none ∧ file.id ∈ store.fileIds
  | .touch .. | .remove .. => False

namespace Store

theorem putFile_eq_error_iff (store : Store) (project : String) (file : IndexedFile)
    (error : StoreError) : store.putFile project file = .error error ↔
      error = .duplicateFileId ∧ store.row? project file.path = none ∧
        file.id ∈ store.fileIds := by
  have known : store.files.any (·.file.id == file.id) = true ↔ file.id ∈ store.fileIds := by
    rw [List.any_eq_true, fileIds, List.mem_map]
    simp only [beq_iff_eq]
  rw [putFile]
  cases store.row? project file.path with
  | some row => simp
  | none =>
      simp only [known, true_and]
      split
      · next clash => simp [clash, eq_comm]
      · next fresh => simp [fresh]

theorem call_eq_error_iff (store : Store) (call : StoreCall) (error : StoreError) :
    store.call call = .error error ↔ error = .duplicateFileId ∧ call.Clashes store := by
  cases call with
  | persist project file =>
      rw [StoreCall.Clashes, ← putFile_eq_error_iff, Store.call]
      cases put : store.putFile project file with
      | error other =>
          rw [persist, put]
          simp [Except.map, bind, Except.bind]
      | ok answer =>
          rw [persist_of_putFile put]
          simp [Except.map]
  | touch project path time => simp [Store.call, StoreCall.Clashes]
  | remove project path => simp [Store.call, StoreCall.Clashes]

/-! ## The result -/

/-- Whatever calls have been made, the store is intact. A call that fails then has changed nothing,
although nothing is undone; only one that would give a new file the identifier of another one does
fail. -/
theorem leftByAll_isIntact_and_fails_unchanged (calls : List StoreCall) :
    (leftByAll {} calls).IsIntact ∧
      (∀ (call : StoreCall) error left,
        call.inPlace.run (leftByAll {} calls) = .error error left → left = leftByAll {} calls) ∧
      (∀ (call : StoreCall) answer after,
        call.inPlace.run (leftByAll {} calls) = .ok answer after ↔
          (leftByAll {} calls).call call = .ok (answer, after)) ∧
      ∀ call error, (leftByAll {} calls).call call = .error error ↔
        error = .duplicateFileId ∧ call.Clashes (leftByAll {} calls) := by
  have intact := isIntact_empty.leftByAll calls
  refine ⟨intact, ?_, ?_, call_eq_error_iff _⟩
  · intro call error left failed
    rw [intact.inPlace_eq call] at failed
    cases answered : (leftByAll {} calls).call call with
    | error other =>
        rw [answered] at failed
        cases failed
        rfl
    | ok answer =>
        rw [answered] at failed
        cases failed
  · intro call answer after
    rw [intact.inPlace_eq call]
    cases (leftByAll {} calls).call call with
    | error error => simp [settledIn]
    | ok answer => simp [settledIn, Prod.ext_iff]

/-- A second file is refused the identifier of the first one, which then is still alone. -/
theorem leftByAll_of_clash :
    ∃ left, (StoreCall.persist "p" { sampleFile "i" none with path := "b.rs" }).inPlace.run
        (leftByAll {} [.persist "p" (sampleFile "i" none)]) = .error .duplicateFileId left ∧
      left.files.map FileRow.place = [("p", "a.rs")] ∧ left.fileIds = ["i"] := by
  have results := leftByAll_isIntact_and_fails_unchanged [.persist "p" (sampleFile "i" none)]
  have failed : (StoreCall.persist "p" { sampleFile "i" none with path := "b.rs" }).inPlace.run
      (leftByAll {} [.persist "p" (sampleFile "i" none)]) = .error .duplicateFileId
        (leftByAll {} [.persist "p" (sampleFile "i" none)]) := rfl
  refine ⟨_, failed, ?_⟩
  rw [results.2.1 _ _ _ failed]
  exact ⟨by decide, by decide⟩

end Store

end SourceIndex
