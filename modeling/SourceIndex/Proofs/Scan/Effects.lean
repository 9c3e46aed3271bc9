import SourceIndex.Proofs.Scan.Agreement
import SourceIndex.Proofs.Scan.Sequences
import SourceIndex.Proofs.Walk.Admission

/-! What runs leave at each path of a store that accepts everything, whatever has been stored in it
before. -/

namespace SourceIndex

theorem Store.find?_states_entry (store : Store) (project path : String) :
    Indexer.recordOf? (store.states project) path =
      (store.entryAt? project path).map (·.file.state) := by
  rw [entryAt?, Option.map_map]
  exact store.find?_states project path

namespace ReadOutcome

/-- Whether what has become of a file leaves the store as it is. -/
def changesNothing : ReadOutcome → Bool
  | unchangedByTime _ | oversize | failed => true
  | ready _ | unchangedByContent _ => false

end ReadOutcome

namespace Indexer

variable {indexer : Indexer} {source : FileSource} {finishes : Candidate → IndexedFile → Prop}
  {stored : List FileState} {force : Bool} {files : List WalkedFile} {store : Store}

/-! ## Files -/

/-- What working off a file leaves at its path, where there has been something or nothing before. -/
inductive LeavesAt (indexer : Indexer) (finishes : Candidate → IndexedFile → Prop)
    (file : WalkedFile) (former : Option StoredEntry) :
    ReadOutcome → Option StoredEntry → Prop
  | ready {candidate : Candidate} {finished : IndexedFile}
    (isFinished : finishes (Candidate.ofFile indexer.classifier file) finished) :
    LeavesAt indexer finishes file former (.ready candidate) (some (.writtenOver finished former))
  | unchangedByContent (time : FileTime) :
    LeavesAt indexer finishes file former (.unchangedByContent time)
      (former.map fun entry => { entry with file := { entry.file with time } })
  | unchangedByTime (size : Nat) :
    LeavesAt indexer finishes file former (.unchangedByTime size) former
  | oversize : LeavesAt indexer finishes file former .oversize former
  | failed : LeavesAt indexer finishes file former .failed former

/-- How the files of some runs are finished and where they may be written. -/
structure IsReady (indexer : Indexer) (source : FileSource)
    (finishes : Candidate → IndexedFile → Prop) : Prop where
  accepting : indexer.gate = .accepting
  isApart : source.IsApart
  each : indexer.Finishes finishes
  outlines : ∀ candidate finished, finishes candidate finished →
    finished.bare = indexer.outlineOf candidate

theorem IsReady.accepts (ready : indexer.IsReady source finishes) (operation : StoreOperation)
    (path : String) : indexer.gate.refuses operation path = none := by
  rw [ready.accepting]
  rfl

/-- A file that leaves the store as it is brings about no call. -/
theorem not_brings_of_changesNothing {file : WalkedFile}
    (idle : (indexer.outcomeOf stored force file).changesNothing = true) (call : StoreCall) :
    ¬ indexer.Brings finishes stored force file call := by
  intro brings
  cases outcome : indexer.outcomeOf stored force file with
  | ready _ | unchangedByContent _ => rw [outcome] at idle; cases idle
  | unchangedByTime _ | oversize | failed =>
      cases brings with
      | touch touched => rw [outcome] at touched; cases touched
      | persist isReady _ => rw [outcome] at isReady; cases isReady

section

variable (ready : indexer.IsReady source finishes)

include ready

theorem IsReady.path_eq {candidate : Candidate} {finished : IndexedFile}
    (isFinished : finishes candidate finished) : finished.path = candidate.path := by
  have same := congrArg IndexedFile.path (ready.outlines candidate finished isFinished)
  rwa [path_outlineOf] at same

variable (supplied : indexer.Supplies source files) (once : (files.map (·.path)).Nodup)
  (sound : store.IsSound) (spares : store.Spares source)

include supplied once sound spares

/-- Each call that working off some files consists of does what it is meant to do, and all of them
nothing else. -/
theorem IsReady.performed (stored : List FileState) (force : Bool) (project path : String) :
    (∀ call ∈ indexer.fileCalls stored force files, call.place = (project, path) →
      (indexer.gate.performAll store (indexer.fileCalls stored force files)).entryAt? project path =
        call.leaves (store.entryAt? project path)) ∧
    ((∀ call ∈ indexer.fileCalls stored force files, call.place ≠ (project, path)) →
      (indexer.gate.performAll store (indexer.fileCalls stored force files)).entryAt? project path =
        store.entryAt? project path) := by
  have accepted : ∀ former call, indexer.gate.leaves former call = call.leaves former := by
    rw [ready.accepting]
    exact fun _ _ => rfl
  simp only [← accepted]
  exact StoreGate.entryAt?_performAll ready.isApart (comesFrom_fileCalls supplied)
    (nodup_fileCalls ready.each (fun _ _ => ready.path_eq) once) sound spares project path

/-- Working off some files leaves at the path of each of them what it leaves by itself. -/
theorem IsReady.leavesAt {file : WalkedFile} (member : file ∈ files) :
    LeavesAt indexer finishes file (store.entryAt? indexer.project file.path)
      (indexer.outcomeOf stored force file)
      ((indexer.gate.performAll store (indexer.fileCalls stored force files)).entryAt?
        indexer.project file.path) := by
  have performed := ready.performed supplied once sound spares stored force indexer.project
    file.path
  -- Where the file brings about no call, neither does any other file of its path.
  have untouched : (indexer.outcomeOf stored force file).changesNothing = true →
      (indexer.gate.performAll store (indexer.fileCalls stored force files)).entryAt?
        indexer.project file.path = store.entryAt? indexer.project file.path := by
    intro idle
    apply performed.2
    intro call isCalled place
    rcases brings_of_mem_fileCalls ready.each isCalled with ⟨other, isOther, brings⟩
    rw [path_of_brings (fun _ _ => ready.path_eq) brings, Prod.mk.injEq] at place
    rw [List.inj_on_of_nodup_map once isOther member place.2] at brings
    exact not_brings_of_changesNothing idle call brings
  cases outcome : indexer.outcomeOf stored force file with
  | ready candidate =>
      have isReady : (indexer.outcomeOf stored force file).candidate?.isSome := by
        rw [outcome]
        rfl
      rcases exists_persist_mem_fileCalls ready.each member isReady with
        ⟨finished, isFinished, isCalled⟩
      have place : StoreCall.place (.persist indexer.project finished) =
          (indexer.project, file.path) := congrArg (indexer.project, ·) (ready.path_eq isFinished)
      rw [performed.1 _ isCalled place]
      exact .ready isFinished
  | unchangedByContent time =>
      have touched : (indexer.outcomeOf stored force file).touchTime? = some time := by
        rw [outcome]
        rfl
      rw [performed.1 _ (touch_mem_fileCalls member touched) rfl]
      exact .unchangedByContent time
  | unchangedByTime size =>
      rw [untouched (congrArg ReadOutcome.changesNothing outcome)]
      exact .unchangedByTime size
  | oversize =>
      rw [untouched (congrArg ReadOutcome.changesNothing outcome)]
      exact .oversize
  | failed =>
      rw [untouched (congrArg ReadOutcome.changesNothing outcome)]
      exact .failed

/-- Working off some files leaves all else as it was. -/
theorem IsReady.entryAt?_elsewhere {project path : String}
    (elsewhere : ∀ file ∈ files, (indexer.project, file.path) ≠ (project, path)) :
    (indexer.gate.performAll store (indexer.fileCalls stored force files)).entryAt? project path =
      store.entryAt? project path := by
  apply (ready.performed supplied once sound spares stored force project path).2
  intro call isCalled place
  rcases brings_of_mem_fileCalls ready.each isCalled with ⟨file, isFile, brings⟩
  rw [path_of_brings (fun _ _ => ready.path_eq) brings] at place
  exact elsewhere file isFile place

end

/-! ## Scans -/

theorem nodup_filesOn {disk : FileTree} (proper : disk.IsProper) :
    ((indexer.filesOn disk).map (·.path)).Nodup := by
  unfold filesOn
  split
  · exact .nil
  · next tree isThere =>
      have sorted := FileTree.pairwise_walk indexer.options indexer.policy
        (isProper_rootTree proper isThere)
      exact sorted.imp fun before => Std.ne_of_lt before

/-- Removing paths leaves nothing there, and all else as it was. -/
theorem entryAt?_removeCalls {paths : List String}
    (accepts : ∀ path ∈ paths, indexer.gate.refuses .remove path = none) {store : Store}
    (sound : store.IsSound) (project path : String) :
    (indexer.gate.performAll store (indexer.removeCalls paths)).entryAt? project path =
      if project = indexer.project ∧ path ∈ paths then none else store.entryAt? project path := by
  induction paths generalizing store with
  | nil => exact (if_neg fun both => absurd both.2 List.not_mem_nil).symm
  | cons first paths induction =>
      rw [List.forall_mem_cons] at accepts
      have once : indexer.gate.perform store (.remove indexer.project first) =
          (store.remove indexer.project first).2 := by
        simp only [StoreGate.perform, StoreGate.remove, StoreGate.attempt, accepts.1]
        rfl
      have step : indexer.gate.performAll store (indexer.removeCalls (first :: paths)) =
          indexer.gate.performAll (store.remove indexer.project first).2
            (indexer.removeCalls paths) := by
        rw [← once]
        rfl
      rw [step, induction accepts.2 (sound.remove indexer.project first),
        Store.entryAt?_remove sound]
      simp only [Prod.mk.injEq, List.mem_cons]
      by_cases isRest : project = indexer.project ∧ path ∈ paths
      · rw [if_pos isRest, if_pos ⟨isRest.1, .inr isRest.2⟩]
      · by_cases isFirst : project = indexer.project ∧ path = first
        · rw [if_neg isRest, if_pos isFirst, if_pos ⟨isFirst.1, .inl isFirst.2⟩]
        · rw [if_neg isRest, if_neg isFirst, if_neg]
          rintro ⟨sameProject, same | member⟩
          · exact isFirst ⟨sameProject, same⟩
          · exact isRest ⟨sameProject, member⟩

section

variable (ready : indexer.IsReady source finishes) {disk : FileTree} (proper : disk.IsProper)
  (isThere : (indexer.rootTree? disk).isSome)
  (supplied : indexer.Supplies source (indexer.filesOn disk)) (mode : ScanMode)
  {state : IndexState} (sound : state.store.IsSound) (spares : state.store.Spares source)

include ready isThere sound

/-- What a scan leaves is what working off the files that it comes upon leaves, but for the paths
that it removes. -/
theorem IsReady.entryAt?_scan (project path : String) :
    (indexer.scan disk mode state).2.store.entryAt? project path =
      if project = indexer.project ∧ indexer.config.scan.pruneMissing = true ∧
          path ∈ missingFrom (state.store.states indexer.project) (indexer.filesOn disk) then none
      else (indexer.gate.performAll state.store (indexer.fileCalls
        (state.store.states indexer.project) (mode = .force) (indexer.filesOn disk))).entryAt?
          project path := by
  rw [indexer.store_scan mode state isThere (ready.accepts .load ""), scanCalls,
    StoreGate.performAll_append]
  cases indexer.config.scan.pruneMissing with
  | true =>
      simp only [if_true, true_and]
      exact entryAt?_removeCalls (fun path _ => ready.accepts .remove path)
        (indexer.gate.isSound_performAll sound _) _ _
  | false =>
      simp only [Bool.false_eq_true, if_false, false_and, and_false]
      rfl

include proper supplied spares

/-- A scan leaves at the path of each file that it comes upon what the file leaves by itself. -/
theorem IsReady.leavesAt_scan {file : WalkedFile} (member : file ∈ indexer.filesOn disk) :
    LeavesAt indexer finishes file (state.store.entryAt? indexer.project file.path)
      (indexer.outcomeOf (state.store.states indexer.project) (mode = .force) file)
      ((indexer.scan disk mode state).2.store.entryAt? indexer.project file.path) := by
  rw [ready.entryAt?_scan isThere mode sound, if_neg]
  · exact ready.leavesAt supplied (nodup_filesOn proper) sound spares member
  · rintro ⟨-, -, isMissing⟩
    exact ((mem_missingFrom _).mp isMissing).2 file member rfl

/-- Where a scan comes upon no file it leaves nothing, if it is to prune. -/
theorem IsReady.entryAt?_scan_eq_none (prunes : indexer.config.scan.pruneMissing = true)
    {path : String} (nowhere : ∀ file ∈ indexer.filesOn disk, file.path ≠ path) :
    (indexer.scan disk mode state).2.store.entryAt? indexer.project path = none := by
  rw [ready.entryAt?_scan isThere mode sound]
  split
  · rfl
  · next notMissing =>
      rw [ready.entryAt?_elsewhere supplied (nodup_filesOn proper) sound spares]
      · rw [mem_missingFrom, Store.find?_states_entry, Option.isSome_map] at notMissing
        rw [← Option.not_isSome_iff_eq_none]
        exact fun isStored => notMissing ⟨rfl, prunes, isStored, nowhere⟩
      · intro file member same
        exact nowhere file member (Prod.mk.inj same).2

/-- A scan leaves other projects alone. -/
theorem IsReady.entryAt?_scan_other {project : String} (other : project ≠ indexer.project)
    (path : String) : (indexer.scan disk mode state).2.store.entryAt? project path =
      state.store.entryAt? project path := by
  rw [ready.entryAt?_scan isThere mode sound, if_neg fun both => other both.1]
  apply ready.entryAt?_elsewhere supplied (nodup_filesOn proper) sound spares
  intro file member same
  exact other (Prod.mk.inj same).1.symm

end

end Indexer

end SourceIndex
