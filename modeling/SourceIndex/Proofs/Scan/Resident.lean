import SourceIndex.Proofs.Scan.Steps

/-! The files that an indexer keeps in memory. Whatever it has been asked to do and whatever its
store has refused, what it keeps of a file has the identifier and the digest of the row that is
stored of the file, and neither content nor analysis. -/

namespace SourceIndex

/-! ## Keys -/

namespace RecordIndex

theorem keys_set (file : IndexedFile) (records : RecordIndex) :
    (set file records).map (·.1) =
      if file.path ∈ records.map (·.1) then records.map (·.1)
      else records.map (·.1) ++ [file.path] := by
  induction records with
  | nil => rfl
  | cons entry records induction =>
      rcases entry with ⟨path, other⟩
      rw [set]
      by_cases isHere : path = file.path
      · rw [if_pos isHere, List.map_cons, if_pos (isHere ▸ List.mem_cons_self)]
        rfl
      · rw [if_neg isHere, List.map_cons, List.map_cons, induction]
        simp only [List.mem_cons, or_iff_right (Ne.symm isHere)]
        split <;> rfl

theorem nodup_set (file : IndexedFile) {records : RecordIndex}
    (once : (records.map (·.1)).Nodup) : ((set file records).map (·.1)).Nodup := by
  rw [keys_set]
  split
  · exact once
  · next new =>
      rw [← List.concat_eq_append]
      exact once.concat new

theorem nodup_erase (path : String) {records : RecordIndex} (once : (records.map (·.1)).Nodup) :
    ((erase records path).map (·.1)).Nodup :=
  once.sublist (List.filter_sublist.map _)

end RecordIndex

/-! ## Tags -/

namespace Store

/-- The identifier and the digest of what is stored of a file. -/
def tagAt? (store : Store) (project path : String) : Option (String × String) :=
  (store.row? project path).map fun row => (row.file.id, row.file.contentHash)

theorem tagAt?_states (store : Store) (project path : String) :
    store.tagAt? project path = (Indexer.recordOf? (store.states project) path).map fun known =>
      (known.id, known.contentHash) := by
  rw [Indexer.recordOf?, find?_states, Option.map_map]
  rfl

end Store

namespace StoreGate

variable (gate : StoreGate) (store : Store)

theorem tagAt?_perform_elsewhere {call : StoreCall} {project path : String}
    (elsewhere : call.place ≠ (project, path)) :
    (gate.perform store call).tagAt? project path = store.tagAt? project path := by
  rw [Store.tagAt?, gate.row?_perform_elsewhere store elsewhere]
  rfl

theorem tagAt?_perform_touch (project path : String) (time : FileTime)
    (otherProject otherPath : String) :
    (gate.perform store (.touch project path time)).tagAt? otherProject otherPath =
      store.tagAt? otherProject otherPath := by
  rw [perform_touch]
  split
  · rfl
  · rw [Store.tagAt?, Store.row?_touch]
    split
    · next same =>
        cases same
        rw [Option.map_map]
        rfl
    · rfl

/-- Removing a file leaves no tag at its path, or the one that was there if that is refused. -/
theorem tagAt?_perform_remove (project path : String) :
    (gate.perform store (.remove project path)).tagAt? project path = none ∨
      (gate.perform store (.remove project path)).tagAt? project path =
        store.tagAt? project path := by
  rcases gate.perform_cases store (.remove project path) with same | ⟨_, _, isPersist, -⟩ |
    ⟨_, _, _, isTouch, -⟩ | ⟨_, _, isRemove, removed⟩
  · rw [same]
    exact .inr rfl
  · cases isPersist
  · cases isTouch
  · cases isRemove
    rw [removed, Store.tagAt?, Store.remove_eq]
    cases found : store.row? project path with
    | none =>
        simp only [found]
        exact .inl rfl
    | some row =>
        simp only [Store.row?_without, if_true]
        exact .inl rfl

end StoreGate

/-! ## What is kept -/

/-- Whether what is kept in memory of the file at a path agrees with what is stored there. -/
structure IsKeptAt (store : Store) (project path : String) (record : IndexedFile) : Prop where
  path_eq : record.path = path
  content : record.content = ""
  analysis : record.analysis = none
  tag : store.tagAt? project path = some (record.id, record.contentHash)

namespace Indexer

/-- Whether what is kept in memory agrees with what is stored, and what has been recorded before
does so where nothing is kept. Identifiers are those that an indexer gives. -/
structure Coheres (indexer : Indexer) (stored : List FileState) (store : Store)
    (records : RecordIndex) : Prop where
  once : (records.map (·.1)).Nodup
  kept : ∀ path record, records.lookup path = some record →
    IsKeptAt store indexer.project path record
  named : ∀ path tag, store.tagAt? indexer.project path = some tag →
    tag.1 = fileId indexer.project path
  recorded : ∀ path known, recordOf? stored path = some known → records.lookup path = none →
    store.tagAt? indexer.project path = some (known.id, known.contentHash)

variable {indexer : Indexer} {stored : List FileState} {store later : Store}
  {records : RecordIndex} {run : Run}

namespace Coheres

/-- At first all that is recorded is as it is. -/
theorem start (coheres : indexer.Coheres [] store records) :
    indexer.Coheres (store.states indexer.project) store records where
  once := coheres.once
  kept := coheres.kept
  named := coheres.named
  recorded path known isKnown _ := by
    rw [Store.tagAt?_states, isKnown]
    rfl

theorem forget (coheres : indexer.Coheres stored store records) :
    indexer.Coheres [] store records :=
  ⟨coheres.once, coheres.kept, coheres.named, nofun⟩

theorem of_tags (coheres : indexer.Coheres stored store records)
    (tags : ∀ path, later.tagAt? indexer.project path = store.tagAt? indexer.project path) :
    indexer.Coheres stored later records where
  once := coheres.once
  kept path record found := by
    have kept := coheres.kept path record found
    exact ⟨kept.path_eq, kept.content, kept.analysis, (tags path).trans kept.tag⟩
  named path tag found := coheres.named path tag ((tags path).symm.trans found)
  recorded path known isKnown missing :=
    (tags path).trans (coheres.recorded path known isKnown missing)

/-- A file can be kept that agrees with what is stored, if nothing changes at other paths. -/
theorem set (coheres : indexer.Coheres stored store records) {record : IndexedFile}
    (kept : IsKeptAt later indexer.project record.path record)
    (isNamed : record.id = fileId indexer.project record.path)
    (elsewhere : ∀ path, path ≠ record.path →
      later.tagAt? indexer.project path = store.tagAt? indexer.project path) :
    indexer.Coheres stored later (RecordIndex.set record records) where
  once := RecordIndex.nodup_set record coheres.once
  kept path other found := by
    have looked := congrFun (RecordIndex.lookup_set record records) path
    simp only [found, Function.update_apply] at looked
    split at looked
    · next here =>
        cases looked
        exact here ▸ kept
    · next different =>
        have former := coheres.kept path other looked.symm
        exact ⟨former.path_eq, former.content, former.analysis,
          (elsewhere path different).trans former.tag⟩
  named path tag found := by
    by_cases here : path = record.path
    · have same := found.symm.trans (here ▸ kept.tag)
      rw [Option.some.inj same, here]
      exact isNamed
    · exact coheres.named path tag ((elsewhere path here).symm.trans found)
  recorded path known isKnown missing := by
    have looked := congrFun (RecordIndex.lookup_set record records) path
    simp only [missing, Function.update_apply] at looked
    split at looked
    · cases looked
    · next different =>
        exact (elsewhere path different).trans
          (coheres.recorded path known isKnown looked.symm)

/-- A file that is removed is not kept any more, even if the store refuses that. -/
theorem remove (coheres : indexer.Coheres [] store records) (path : String) :
    indexer.Coheres [] (indexer.gate.perform store (.remove indexer.project path))
      (RecordIndex.erase records path) := by
  have elsewhere : ∀ other, other ≠ path →
      (indexer.gate.perform store (.remove indexer.project path)).tagAt? indexer.project other =
        store.tagAt? indexer.project other := by
    intro other different
    apply indexer.gate.tagAt?_perform_elsewhere
    exact fun same => different (Prod.mk.inj same).2.symm
  refine ⟨RecordIndex.nodup_erase path coheres.once, ?_, ?_, nofun⟩
  · intro other record found
    have looked := congrFun (RecordIndex.lookup_erase records path) other
    simp only [found, Function.update_apply] at looked
    split at looked
    · cases looked
    · next different =>
        have former := coheres.kept other record looked.symm
        exact ⟨former.path_eq, former.content, former.analysis,
          (elsewhere other different).trans former.tag⟩
  · intro other tag found
    by_cases here : other = path
    · subst here
      rcases indexer.gate.tagAt?_perform_remove store indexer.project other with none | same
      · cases none.symm.trans found
      · exact coheres.named other tag (same.symm.trans found)
    · exact coheres.named other tag ((elsewhere other here).symm.trans found)

end Coheres

/-! ## Steps -/

theorem coheres_remember (coheres : indexer.Coheres stored run.store run.records) {path : String}
    {known : FileState} (isKnown : recordOf? stored path = some known) (time : FileTime)
    (size : Nat) :
    let remembered := indexer.remember path known time size run
    indexer.Coheres stored remembered.store remembered.records := by
  unfold remember
  cases found : run.records.lookup path with
  | some record =>
      have kept := coheres.kept path record found
      exact coheres.set ⟨rfl, kept.content, kept.analysis, kept.tag⟩
        (coheres.named path _ kept.tag) fun _ _ => rfl
  | none =>
      -- What has been recorded is still stored, since a file that is written is kept.
      have tag := coheres.recorded path known isKnown found
      exact coheres.set ⟨rfl, rfl, rfl, tag⟩ (coheres.named path _ tag) fun _ _ => rfl

theorem coheres_takeRead {reads : Reads}
    (coheres : indexer.Coheres stored reads.run.store reads.run.records) (place : Nat)
    (path : String) (outcome : ReadOutcome) :
    let taken := indexer.takeRead stored reads place path outcome
    indexer.Coheres stored taken.run.store taken.run.records := by
  cases outcome with
  | unchangedByTime size =>
      unfold takeRead
      simp only
      split
      · next known isKnown =>
          refine coheres_remember ?_ isKnown _ _
          exact coheres
      · exact coheres
  | ready _ | unchangedByContent _ | oversize | failed => exact coheres

theorem coheres_touch (coheres : indexer.Coheres stored run.store run.records) (path : String)
    (time : FileTime) :
    let touched := indexer.touch stored run path time
    indexer.Coheres stored touched.store touched.records := by
  have touched : indexer.Coheres stored
      (storeAfter run.store (indexer.gate.touch run.store indexer.project path time))
      run.records :=
    coheres.of_tags fun other =>
      indexer.gate.tagAt?_perform_touch run.store indexer.project path time _ other
  unfold touch
  simp only [store_count]
  cases answered : indexer.gate.touch run.store indexer.project path time with
  | error _ | ok _ =>
      rw [answered] at touched
      simp only
      split
      · next known isKnown =>
          refine coheres_remember ?_ isKnown _ _
          exact touched
      · exact touched

/-- A file that is written is kept as it has been written. -/
theorem coheres_persist (coheres : indexer.Coheres stored run.store run.records)
    {file : IndexedFile} (isNamed : file.id = fileId indexer.project file.path) :
    let persisted := indexer.persist run file
    indexer.Coheres stored persisted.store persisted.records := by
  unfold persist
  cases asked : indexer.gate.persist run.store indexer.project file with
  | error error => exact coheres
  | ok answer =>
      have written : answer.2 = run.store.written indexer.project file :=
        (Store.persist_eq_ok (StoreGate.persist_eq_ok asked)).1
      -- The row keeps the identifier that it has had, which is the one that the file is given.
      have durable : run.store.durableId indexer.project file = file.id := by
        unfold Store.durableId
        cases found : run.store.row? indexer.project file.path with
        | none => rfl
        | some row =>
            have tag : run.store.tagAt? indexer.project file.path = some _ :=
              congrArg (Option.map _) found
            exact (coheres.named file.path _ tag).trans isNamed.symm
      have tags : ∀ path, answer.2.tagAt? indexer.project path =
          if path = file.path then some (file.id, file.contentHash)
          else run.store.tagAt? indexer.project path := by
        intro path
        rw [written, Store.tagAt?, Store.row?_written, durable]
        simp only [Prod.mk.injEq, true_and]
        split <;> rfl
      refine coheres.set ⟨rfl, rfl, rfl, ?_⟩ isNamed ?_
      · exact (tags file.path).trans (if_pos rfl)
      · exact fun path different => (tags path).trans (if_neg different)

/-- Dropping what files in memory can do without leaves what they have to agree in. -/
theorem coheres_checkMemory (coheres : indexer.Coheres stored run.store run.records) :
    let checked := indexer.checkMemory run
    indexer.Coheres stored checked.store checked.records := by
  let strip := fun record : IndexedFile => { record.release with embedding := none }
  let drop := fun (entry : String × IndexedFile) => (entry.1, strip entry.2)
  have looked : ∀ (records : RecordIndex) path, (records.map drop).lookup path =
      (records.lookup path).map strip := lookup_map_value strip
  have dropped : indexer.Coheres stored run.store (run.records.map drop) := by
    constructor
    · rw [List.map_map]
      exact coheres.once
    · intro path record found
      rcases Option.map_eq_some_iff.mp ((looked run.records path).symm.trans found) with
        ⟨former, isFormer, rfl⟩
      have kept := coheres.kept path former isFormer
      exact ⟨kept.path_eq, rfl, rfl, kept.tag⟩
    · exact coheres.named
    · intro path known isKnown missing
      apply coheres.recorded path known isKnown
      exact Option.map_eq_none_iff.mp ((looked run.records path).symm.trans missing)
  unfold checkMemory
  simp only
  split
  · exact coheres
  · split
    · exact coheres
    · exact dropped

theorem coheres_prune (coheres : indexer.Coheres [] run.store run.records) (path : String) :
    let pruned := indexer.prune run path
    indexer.Coheres [] pruned.store pruned.records := by
  have records : (indexer.prune run path).records = RecordIndex.erase run.records path := by
    unfold prune
    simp only
    split <;> rfl
  intro pruned
  rw [records, indexer.store_prune]
  exact coheres.remove path

theorem coheres_removePaths {state : IndexState}
    (coheres : indexer.Coheres [] state.store state.records) (paths : List String)
    (removed : Nat) :
    let left := (indexer.removePaths paths removed state).2
    indexer.Coheres [] left.store left.records := by
  induction paths generalizing removed state with
  | nil => exact coheres
  | cons path paths induction =>
      have next := coheres.remove path
      unfold removePaths
      simp only [StoreGate.perform] at next
      cases answered : indexer.gate.remove state.store indexer.project path with
      | error error => exact coheres
      | ok answer =>
          rw [answered] at next
          exact induction next _

/-! ## Files -/

theorem id_finishedFiles {candidates : List Candidate} :
    ∀ file ∈ indexer.finishedFiles candidates, file.id = fileId indexer.project file.path := by
  intro file member
  rcases exists_of_mem_right (indexer.finishes_bare candidates) member with
    ⟨candidate, -, isFinished⟩
  have named : (indexer.outlineOf candidate).id =
      fileId indexer.project (indexer.outlineOf candidate).path := by
    unfold outlineOf analyzeFile
    split <;> rfl
  rw [← isFinished] at named
  exact named

theorem coheres_processBatch (coheres : indexer.Coheres stored run.store run.records)
    (force : Bool) (position : ScanPosition) (batch : List WalkedFile) :
    let processed := indexer.processBatch stored force position batch run
    indexer.Coheres stored processed.store processed.records := by
  rcases indexer.processBatch_eq stored force position batch run with ⟨ready, agrees, processed⟩
  let entered := run.enter .readingAndFiltering position
  have start : indexer.Coheres stored entered.store entered.records := coheres
  -- Vectors are fetched between reading and writing, which changes neither store nor memory.
  have read : indexer.Coheres stored ready.store ready.records := by
    rw [agrees.store, agrees.records, readBatch_eq]
    refine List.foldlRecOn (motive := fun run : Run =>
      indexer.Coheres stored run.store run.records) _ _ ?_
      fun run coheres touched _ => coheres_touch coheres _ _
    exact List.foldlRecOn (motive := fun reads : Reads =>
      indexer.Coheres stored reads.run.store reads.run.records) _ _ start
      fun reads coheres outcome _ => coheres_takeRead coheres _ _ _
  rw [processed]
  apply coheres_checkMemory
  exact List.foldlRecOn (motive := fun run : Run =>
    indexer.Coheres stored run.store run.records) _ _ read
    fun run coheres file member => coheres_persist coheres (id_finishedFiles file member)

theorem coheres_processFiles (coheres : indexer.Coheres stored run.store run.records)
    (force : Bool) (files : List WalkedFile) :
    let processed := indexer.processFiles stored force files run
    indexer.Coheres stored processed.store processed.records :=
  List.foldlRecOn (motive := fun reached : Run × ScanPosition =>
    indexer.Coheres stored reached.1.store reached.1.records) _ _ coheres
    fun _ coheres batch _ => coheres_processBatch coheres force _ batch

/-! ## Runs -/

section

variable {state : IndexState} (coheres : indexer.Coheres [] state.store state.records)

include coheres

theorem coheres_scan (disk : FileTree) (mode : ScanMode) :
    let scanned := (indexer.scan disk mode state).2
    indexer.Coheres [] scanned.store scanned.records := by
  unfold scan StoreGate.states StoreGate.attempt
  simp only
  split
  · exact coheres
  · next tree found =>
      cases indexer.gate.refuses .load "" with
      | some error => exact coheres
      | none =>
          let begun := indexer.begun mode (tree.walk indexer.options indexer.policy) state
          have started : indexer.Coheres (state.store.states indexer.project) begun.store
              begun.records := coheres.start
          have processed := coheres_processFiles started (mode = .force)
            (tree.walk indexer.options indexer.policy)
          simp only
          split
          · exact List.foldlRecOn (motive := fun run : Run =>
              indexer.Coheres [] run.store run.records) _ _ processed.forget
              fun run coheres path _ => coheres_prune coheres path
          · exact processed.forget

theorem coheres_indexPaths (disk : FileTree) (paths : List String) :
    let indexed := (indexer.indexPaths disk paths state).2
    indexer.Coheres [] indexed.store indexed.records := by
  let start := (indexer.begun .incremental (indexer.filesAt disk paths) state).toIndexState
  have started : indexer.Coheres [] start.store start.records := coheres
  have removed := coheres_removePaths started (gonePaths (paths.map (indexer.standing disk))) 0
  unfold start begun filesAt at removed
  unfold indexPaths StoreGate.states StoreGate.attempt
  simp only
  split
  · exact coheres
  · split
    · exact removed
    · split
      · exact removed
      · cases indexer.gate.refuses .load "" with
        | some error => exact removed
        | none => exact (coheres_processFiles removed.start false _).forget

theorem coheres_after (run : IndexerRun) :
    let left := indexer.after state run
    indexer.Coheres [] left.store left.records := by
  cases run with
  | scan disk mode => exact coheres_scan coheres disk mode
  | indexPaths disk paths => exact coheres_indexPaths coheres disk paths
  | removePaths paths => exact coheres_removePaths coheres paths 0
  | restart => exact ⟨.nil, nofun, coheres.named, nofun⟩

end

end Indexer

/-! ## Turns -/

/-- What may happen to a store that an indexer shares with those of other projects: either the
indexer does something, and the store may refuse some of it, or a file of another project is
written, touched or removed. -/
inductive Turn (project : String)
  | own (gate : StoreGate) (run : IndexerRun)
  | foreign (gate : StoreGate) (call : StoreCall) (isForeign : call.place.1 ≠ project)

namespace Indexer

variable (indexer : Indexer)

def afterTurn (state : IndexState) : Turn indexer.project → IndexState
  | .own gate run => { indexer with gate }.after state run
  | .foreign gate call _ => { state with store := gate.perform state.store call }

theorem coheres_afterTurn {indexer : Indexer} {state : IndexState}
    (coheres : indexer.Coheres [] state.store state.records) (turn : Turn indexer.project) :
    let left := indexer.afterTurn state turn
    indexer.Coheres [] left.store left.records := by
  cases turn with
  | own gate run =>
      have hindered : ({ indexer with gate } : Indexer).Coheres [] state.store state.records :=
        ⟨coheres.once, coheres.kept, coheres.named, nofun⟩
      have left := coheres_after hindered run
      exact ⟨left.once, left.kept, left.named, nofun⟩
  | foreign gate call isForeign =>
      refine coheres.of_tags fun path => gate.tagAt?_perform_elsewhere state.store ?_
      exact fun same => isForeign (congrArg Prod.fst same)

end Indexer

open Indexer in
/-- Whatever an indexer is asked to do, on whatever trees, and whatever its store refuses: each file
that it keeps in memory is kept once and under its path, without content and without analysis, and a
row is stored at this path that has the same identifier and the same digest. -/
theorem records_match_rows (indexer : Indexer) (turns : List (Turn indexer.project)) :
    let state := turns.foldl indexer.afterTurn {}
    (state.records.map (·.1)).Nodup ∧
      ∀ path record, (path, record) ∈ state.records →
        record.path = path ∧ record.content = "" ∧ record.analysis = none ∧
          ∃ row, state.store.row? indexer.project path = some row ∧
            row.file.id = record.id ∧ row.file.contentHash = record.contentHash := by
  intro state
  have empty : indexer.Coheres [] {} [] := ⟨.nil, nofun, nofun, nofun⟩
  have coheres : indexer.Coheres [] state.store state.records :=
    List.foldlRecOn (motive := fun state : IndexState =>
      indexer.Coheres [] state.store state.records) _ _ empty
      fun _ coheres turn _ => coheres_afterTurn coheres turn
  refine ⟨coheres.once, fun path record member => ?_⟩
  have kept := coheres.kept path record (lookup_of_mem coheres.once member)
  rcases Option.map_eq_some_iff.mp kept.tag with ⟨row, found, same⟩
  rw [Prod.mk.injEq] at same
  exact ⟨kept.path_eq, kept.content, kept.analysis, row, found, same.1, same.2⟩

end SourceIndex
