import SourceIndex.Proofs.Scan.Runs
import SourceIndex.Proofs.Store.Entries

/-! Runs as sequences of calls to the store, and what such a sequence leaves at each path. -/

namespace SourceIndex

/-! ## Performing calls -/

/-- The operation that a call asks for. -/
def StoreCall.operation : StoreCall → StoreOperation
  | .persist _ _ => .persist
  | .touch _ _ _ => .touch
  | .remove _ _ => .remove

namespace StoreGate

/-- What a call leaves at its path. One that is refused leaves what has been there. -/
def leaves (gate : StoreGate) (former : Option StoredEntry) (call : StoreCall) :
    Option StoredEntry :=
  match gate.refuses call.operation call.place.2 with
  | some _ => former
  | none => call.leaves former

/-- What is stored behind a call. One that is refused, or that fails, changes nothing. -/
def perform (gate : StoreGate) (store : Store) : StoreCall → Store
  | .persist project file => Indexer.storeAfter store (gate.persist store project file)
  | .touch project path time => Indexer.storeAfter store (gate.touch store project path time)
  | .remove project path => Indexer.storeAfter store (gate.remove store project path)

def performAll (gate : StoreGate) (store : Store) (calls : List StoreCall) : Store :=
  calls.foldl gate.perform store

variable (gate : StoreGate) {store : Store}

theorem performAll_append (store : Store) (calls later : List StoreCall) :
    gate.performAll store (calls ++ later) = gate.performAll (gate.performAll store calls) later :=
  List.foldl_append

/-- Calls none of which is refused are performed as by a store that refuses nothing. -/
theorem performAll_eq_accepting {calls : List StoreCall}
    (accepts : ∀ call ∈ calls, gate.refuses call.operation call.place.2 = none) (store : Store) :
    gate.performAll store calls = accepting.performAll store calls := by
  induction calls generalizing store with
  | nil => rfl
  | cons call calls induction =>
      rw [List.forall_mem_cons] at accepts
      have first : gate.perform store call = accepting.perform store call := by
        have accepted := accepts.1
        cases call with
        | persist _ _ | touch _ _ _ | remove _ _ =>
            simp only [StoreCall.operation, StoreCall.place] at accepted
            simp only [perform, StoreGate.persist, StoreGate.touch, StoreGate.remove, attempt,
              accepted]
            rfl
      exact (congrArg (gate.performAll · calls) first).trans (induction accepts.2 _)

/-- What a gate lets through is what the store answers. -/
theorem persist_eq_ok {gate : StoreGate} {project : String} {file : IndexedFile}
    {answer : List WriteAck × Store} (persisted : gate.persist store project file = .ok answer) :
    store.persist project file = .ok answer := by
  unfold StoreGate.persist attempt at persisted
  split at persisted
  · cases persisted
  · exact persisted

/-- What a call comes to: nothing if it is refused or fails, and otherwise a file written, touched
or removed. -/
theorem perform_cases (store : Store) (call : StoreCall) :
    gate.perform store call = store ∨
    (∃ project file, call = .persist project file ∧
      gate.perform store call = store.written project file ∧
      (store.row? project file.path = none → file.id ∉ store.fileIds)) ∨
    (∃ project path time, call = .touch project path time ∧
      gate.perform store call = (store.touch project path time).2) ∨
    (∃ project path, call = .remove project path ∧
      gate.perform store call = (store.remove project path).2) := by
  cases call with
  | persist project file =>
      cases persisted : gate.persist store project file with
      | error error =>
          left
          rw [perform, persisted]
          rfl
      | ok answer =>
          right
          left
          rcases Store.persist_eq_ok (persist_eq_ok persisted) with ⟨after, fresh⟩
          refine ⟨project, file, rfl, ?_, fresh⟩
          rw [perform, persisted]
          exact after
  | touch project path time =>
      simp only [perform, StoreGate.touch, attempt]
      cases gate.refuses .touch path with
      | some error => exact .inl rfl
      | none => exact .inr (.inr (.inl ⟨project, path, time, rfl, rfl⟩))
  | remove project path =>
      simp only [perform, StoreGate.remove, attempt]
      cases gate.refuses .remove path with
      | some error => exact .inl rfl
      | none => exact .inr (.inr (.inr ⟨project, path, rfl, rfl⟩))

/-- The rows of a store fit together whatever is called. -/
theorem isSound_perform (sound : store.IsSound) (call : StoreCall) :
    (gate.perform store call).IsSound := by
  rcases gate.perform_cases store call with same | ⟨project, file, -, done, fresh⟩ |
    ⟨project, path, time, -, done⟩ | ⟨project, path, -, done⟩
  · rwa [same]
  · rw [done]
    exact sound.written fresh
  · rw [done]
    exact sound.touch project path time
  · rw [done]
    exact sound.remove project path

theorem isSound_performAll (sound : store.IsSound) (calls : List StoreCall) :
    (gate.performAll store calls).IsSound := by
  induction calls generalizing store with
  | nil => exact sound
  | cons call calls induction => exact induction (gate.isSound_perform sound call)

/-- A call changes the row of no file but the one it is about. -/
theorem row?_perform_elsewhere (store : Store) {call : StoreCall} {project path : String}
    (elsewhere : call.place ≠ (project, path)) :
    (gate.perform store call).row? project path = store.row? project path := by
  rcases gate.perform_cases store call with same | ⟨project, file, rfl, done, -⟩ |
    ⟨project, path, time, rfl, done⟩ | ⟨project, path, rfl, done⟩
  · rw [same]
  · rw [done, Store.row?_written, if_neg fun same => elsewhere same.symm]
  · rw [done, Store.row?_touch, if_neg fun same => elsewhere same.symm]
  · rw [done, Store.remove_eq]
    split
    · rfl
    · rw [Store.row?_without, if_neg fun same => elsewhere same.symm]

theorem row?_performAll_elsewhere (calls : List StoreCall) {store : Store} {project path : String}
    (elsewhere : ∀ call ∈ calls, call.place ≠ (project, path)) :
    (gate.performAll store calls).row? project path = store.row? project path := by
  induction calls generalizing store with
  | nil => rfl
  | cons call calls induction =>
      rw [List.forall_mem_cons] at elsewhere
      rw [performAll, List.foldl_cons, ← gate.row?_perform_elsewhere store elsewhere.1]
      exact induction elsewhere.2

end StoreGate

/-! ## Identifiers that are spared -/

namespace StoredEntry

/-- The identifiers at a path where a file has been written are those of the file, apart from the
identifier of the file itself, which stays what it has been. -/
theorem mem_rowIds_writtenOver {file : IndexedFile} {former : Option StoredEntry} {kind : RowKind}
    {id : String} (member : id ∈ (writtenOver file former).rowIds kind) :
    id ∈ file.rowIds kind ∨ ∃ entry, former = some entry ∧ id ∈ entry.rowIds kind := by
  have own : id = (former.map (·.file.id)).getD file.id →
      id = file.id ∨ ∃ entry, former = some entry ∧ id = entry.file.id := by
    intro same
    cases former with
    | none => exact .inl same
    | some entry => exact .inr ⟨entry, rfl, same⟩
  cases kind with
  | file | complexity =>
      rcases own (List.mem_singleton.mp member) with same | ⟨entry, isFormer, same⟩
      · exact .inl (List.mem_singleton.mpr same)
      · exact .inr ⟨entry, isFormer, List.mem_singleton.mpr same⟩
  | definition =>
      rcases List.mem_map.mp member with ⟨row, rowMember, rfl⟩
      rcases RowFormat.ofDefinitions.id_of_mem_merge rowMember with ⟨given, isGiven, same⟩
      left
      rw [← file.map_id_definitionRows ((former.map (·.file.id)).getD file.id)]
      exact List.mem_map.mpr ⟨given, isGiven, same⟩
  | dependency =>
      rcases List.mem_map.mp member with ⟨row, rowMember, rfl⟩
      rcases RowFormat.ofDependencies.id_of_mem_merge rowMember with ⟨given, isGiven, same⟩
      left
      rw [← file.map_id_dependencyRows ((former.map (·.file.id)).getD file.id)]
      exact List.mem_map.mpr ⟨given, isGiven, same⟩
  | chunk =>
      rcases List.mem_map.mp member with ⟨row, rowMember, rfl⟩
      rcases RowFormat.ofChunks.id_of_mem_merge rowMember with ⟨given, isGiven, same⟩
      left
      rw [← file.map_id_chunkRows ((former.map (·.file.id)).getD file.id)]
      exact List.mem_map.mpr ⟨given, isGiven, same⟩

end StoredEntry

namespace Store

variable {store : Store} {source : FileSource}

/-- Whether all files of a source can be written without confusion. -/
def Spares (store : Store) (source : FileSource) : Prop :=
  ∀ project file, source project file → store.Fits project file

theorem spares_empty (source : FileSource) : Spares {} source := by
  intro project file given otherProject otherPath entry there
  cases there

theorem Spares.mono {larger : FileSource} (spares : store.Spares larger)
    (within : ∀ project file, source project file → larger project file) : store.Spares source :=
  fun project file given => spares project file (within project file given)

theorem Fits.of_bare {project : String} {file : IndexedFile}
    (fits : store.Fits project file.bare) : store.Fits project file := by
  intro otherProject otherPath entry there different kind id member
  exact fits otherProject otherPath entry there different kind id (file.rowIds_bare kind ▸ member)

/-- A file of a source in which identifiers tell files apart can be written with the others still
fitting. -/
theorem Spares.written (isApart : source.IsApart) (sound : store.IsSound)
    (spares : store.Spares source) {project : String} {file : IndexedFile}
    (given : source project file.bare) : (store.written project file).Spares source := by
  intro otherProject other otherGiven place path entry there different kind id member inside
  rw [entryAt?_written sound (spares project file.bare given).of_bare] at there
  split at there
  · next same =>
      cases Option.some.inj there
      rcases StoredEntry.mem_rowIds_writtenOver inside with shared | ⟨former, isFormer, shared⟩
      · refine isApart.apart otherProject other project file.bare otherGiven given ?_ kind id
          member ?_
        · rintro ⟨sameProject, samePath⟩
          rw [same, sameProject, samePath] at different
          exact different rfl
        · rwa [IndexedFile.rowIds_bare]
      · exact spares otherProject other otherGiven _ _ former isFormer (same ▸ different) kind id
          member shared
  · exact spares otherProject other otherGiven place path entry there different kind id member
      inside

end Store

/-- Whether the file that a call may write comes from a source, vectors aside. -/
def StoreCall.ComesFrom (source : FileSource) (call : StoreCall) : Prop :=
  ∀ project file, call = .persist project file → source project file.bare

namespace StoreGate

variable {gate : StoreGate} {store : Store} {source : FileSource}

theorem spares_perform (isApart : source.IsApart) (sound : store.IsSound)
    (spares : store.Spares source) {call : StoreCall} (comes : call.ComesFrom source) :
    (gate.perform store call).Spares source := by
  rcases gate.perform_cases store call with same | ⟨project, file, isPersist, done, -⟩ |
    ⟨project, path, time, -, done⟩ | ⟨project, path, -, done⟩
  · rwa [same]
  · rw [done]
    exact spares.written isApart sound (comes project file isPersist)
  · rw [done]
    intro otherProject other given place otherPath entry there different kind id member inside
    rw [Store.entryAt?_touch] at there
    split at there
    · next same =>
        rcases Option.map_eq_some_iff.mp there with ⟨former, isFormer, rfl⟩
        refine spares otherProject other given _ _ former isFormer (same ▸ different) kind id
          member ?_
        cases kind <;> exact inside
    · exact spares otherProject other given place otherPath entry there different kind id member
        inside
  · rw [done]
    intro otherProject other given place otherPath entry there
    rw [Store.entryAt?_remove sound] at there
    split at there
    · cases there
    · exact spares otherProject other given place otherPath entry there

theorem spares_performAll (isApart : source.IsApart) {calls : List StoreCall}
    (comes : ∀ call ∈ calls, call.ComesFrom source) (sound : store.IsSound)
    (spares : store.Spares source) : (gate.performAll store calls).Spares source := by
  induction calls generalizing store with
  | nil => exact spares
  | cons call calls induction =>
      rw [List.forall_mem_cons] at comes
      exact induction comes.2 (gate.isSound_perform sound call)
        (spares_perform isApart sound spares comes.1)

/-- A call leaves at its path what it is meant to leave unless it is refused, and all else as it
was. -/
theorem entryAt?_perform (sound : store.IsSound) (spares : store.Spares source) {call : StoreCall}
    (comes : call.ComesFrom source) (project path : String) :
    (gate.perform store call).entryAt? project path =
      if (project, path) = call.place then gate.leaves (store.entryAt? project path) call
      else store.entryAt? project path := by
  cases call with
  | persist otherProject file =>
      have fits := (spares otherProject file.bare (comes otherProject file rfl)).of_bare
      rcases Store.persist_of_fits sound fits with ⟨acks, persisted⟩
      unfold perform StoreGate.persist attempt leaves
      cases refused : gate.refuses .persist file.path with
      | some error =>
          simp only [StoreCall.operation, StoreCall.place, refused, Indexer.storeAfter, ite_self]
      | none =>
          simp only [StoreCall.operation, StoreCall.place, refused, persisted, Indexer.storeAfter]
          rw [Store.entryAt?_written sound fits]
          split
          · next same =>
              cases same
              rfl
          · rfl
  | touch otherProject otherPath time =>
      unfold perform StoreGate.touch attempt leaves
      cases refused : gate.refuses .touch otherPath with
      | some error =>
          simp only [StoreCall.operation, StoreCall.place, refused, Indexer.storeAfter, ite_self]
      | none =>
          simp only [StoreCall.operation, StoreCall.place, refused, Indexer.storeAfter]
          rw [Store.entryAt?_touch]
          split
          · next same =>
              cases same
              rfl
          · rfl
  | remove otherProject otherPath =>
      unfold perform StoreGate.remove attempt leaves
      cases refused : gate.refuses .remove otherPath with
      | some error =>
          simp only [StoreCall.operation, StoreCall.place, refused, Indexer.storeAfter, ite_self]
      | none =>
          simp only [StoreCall.operation, StoreCall.place, refused, Indexer.storeAfter]
          exact Store.entryAt?_remove sound otherProject otherPath project path

/-- What calls about different paths leave: each what it is meant to leave at its path unless it is
refused, and all of them nothing else. -/
theorem entryAt?_performAll (isApart : source.IsApart) {calls : List StoreCall}
    (comes : ∀ call ∈ calls, call.ComesFrom source) (once : (calls.map StoreCall.place).Nodup)
    {store : Store} (sound : store.IsSound) (spares : store.Spares source)
    (project path : String) :
    (∀ call ∈ calls, call.place = (project, path) →
      (gate.performAll store calls).entryAt? project path =
        gate.leaves (store.entryAt? project path) call) ∧
    ((∀ call ∈ calls, call.place ≠ (project, path)) →
      (gate.performAll store calls).entryAt? project path = store.entryAt? project path) := by
  induction calls generalizing store with
  | nil => exact ⟨nofun, fun _ => rfl⟩
  | cons call calls induction =>
      rw [List.forall_mem_cons] at comes
      rw [List.map_cons, List.nodup_cons] at once
      have first : (gate.perform store call).entryAt? project path = _ :=
        entryAt?_perform sound spares comes.1 project path
      have rest := induction comes.2 once.2 (gate.isSound_perform sound call)
        (spares_perform isApart sound spares comes.1)
      have step : gate.performAll store (call :: calls) =
          gate.performAll (gate.perform store call) calls := rfl
      rw [step]
      by_cases here : call.place = (project, path)
      · have elsewhere : ∀ later ∈ calls, later.place ≠ (project, path) := by
          intro later member same
          exact once.1 (List.mem_map.mpr ⟨later, member, same.trans here.symm⟩)
        rw [if_pos here.symm] at first
        refine ⟨?_, fun nowhere => absurd here (nowhere call List.mem_cons_self)⟩
        intro other member otherHere
        rcases List.mem_cons.mp member with rfl | member
        · rw [rest.2 elsewhere, first]
        · exact absurd otherHere (elsewhere other member)
      · rw [if_neg fun same => here same.symm] at first
        constructor
        · intro other member otherHere
          rcases List.mem_cons.mp member with rfl | member
          · exact absurd otherHere here
          · rw [rest.1 other member otherHere, first]
        · intro nowhere
          rw [rest.2 fun other member => nowhere other (List.mem_cons_of_mem _ member), first]

/-- Calls about different paths do not hinder one another: a call that is refused leaves its path as
it was, and where none is refused there is what a store leaves that refuses nothing. -/
theorem entryAt?_performAll_accepting (isApart : source.IsApart) {calls : List StoreCall}
    (comes : ∀ call ∈ calls, call.ComesFrom source) (once : (calls.map StoreCall.place).Nodup)
    (sound : store.IsSound) (spares : store.Spares source) (project path : String) :
    (∀ call ∈ calls, call.place = (project, path) → (gate.refuses call.operation path).isSome →
      (gate.performAll store calls).entryAt? project path = store.entryAt? project path) ∧
    ((∀ call ∈ calls, call.place = (project, path) → gate.refuses call.operation path = none) →
      (gate.performAll store calls).entryAt? project path =
        (StoreGate.accepting.performAll store calls).entryAt? project path) := by
  have performed : ∀ gate : StoreGate, _ := fun gate =>
    @entryAt?_performAll gate source isApart calls comes once store sound spares project path
  have hindered := performed gate
  have free := performed .accepting
  constructor
  · intro call member place refused
    rcases Option.isSome_iff_exists.mp refused with ⟨error, isRefused⟩
    rw [hindered.1 call member place, leaves, place]
    simp only [isRefused]
  · intro accepted
    by_cases isCalled : ∃ call ∈ calls, call.place = (project, path)
    · rcases isCalled with ⟨call, member, place⟩
      rw [hindered.1 call member place, free.1 call member place, leaves, leaves, place]
      simp only [accepted call member place]
      rfl
    · have nowhere : ∀ call ∈ calls, call.place ≠ (project, path) :=
        fun call member place => isCalled ⟨call, member, place⟩
      rw [hindered.2 nowhere, free.2 nowhere]

end StoreGate

end SourceIndex
