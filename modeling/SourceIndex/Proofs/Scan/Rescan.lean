import SourceIndex.Proofs.Scan.Accounting
import SourceIndex.Proofs.Scan.Watching

/-! Scanning a tree again that has not changed. Once a scan has come through without failures and has
removed what is missing, there is nothing left to be done. -/

namespace SourceIndex

/-! ## Rows -/

/-- Where every key occurs once, an item stands among others with different keys. -/
theorem exists_append_of_nodup {α γ : Type} {key : α → γ} {items : List α}
    (once : (items.map key).Nodup) {item : α} (member : item ∈ items) :
    ∃ front rest, items = front ++ item :: rest ∧ (∀ other ∈ front, key other ≠ key item) ∧
      ∀ other ∈ rest, key other ≠ key item := by
  rcases List.append_of_mem member with ⟨front, rest, rfl⟩
  rw [List.map_append, List.map_cons, List.nodup_append, List.nodup_cons] at once
  rcases once with ⟨-, ⟨notLater, -⟩, apart⟩
  refine ⟨front, rest, rfl, ?_, ?_⟩
  · intro other isBefore
    exact apart _ (List.mem_map_of_mem isBefore) _ List.mem_cons_self
  · intro other isAfter same
    exact notLater (List.mem_map.mpr ⟨other, isAfter, same⟩)

/-- Of calls about different paths, the one about a certain path finds there what there has been
before them and leaves what there is behind them. -/
theorem StoreGate.exists_before (gate : StoreGate) (store : Store) {calls : List StoreCall}
    (once : (calls.map StoreCall.place).Nodup) {call : StoreCall} (member : call ∈ calls)
    {project path : String} (here : call.place = (project, path)) :
    ∃ front rest, calls = front ++ call :: rest ∧
      (gate.performAll store front).row? project path = store.row? project path ∧
      (gate.performAll store calls).row? project path =
        (gate.perform (gate.performAll store front) call).row? project path := by
  rcases exists_append_of_nodup once member with ⟨front, rest, rfl, before, after⟩
  rw [here] at before after
  refine ⟨front, rest, rfl, gate.row?_performAll_elsewhere front before, ?_⟩
  rw [gate.performAll_append]
  exact gate.row?_performAll_elsewhere rest after

namespace Indexer

variable {indexer : Indexer} {store : Store} {disk : FileTree} {mode : ScanMode}
  {state : IndexState} {file : WalkedFile}

/-- Where a path is removed there is no row. -/
theorem row?_removeCalls_of_mem {paths : List String} {path : String}
    (accepts : indexer.gate.refuses .remove path = none) (member : path ∈ paths) (store : Store) :
    (indexer.gate.performAll store (indexer.removeCalls paths)).row? indexer.project path =
      none := by
  rcases List.append_of_mem member with ⟨front, rest, rfl⟩
  let before := indexer.gate.performAll store (indexer.removeCalls front)
  have removed : (indexer.gate.perform before (.remove indexer.project path)).row?
      indexer.project path = none := by
    simp only [StoreGate.perform, StoreGate.remove, StoreGate.attempt, accepts, storeAfter,
      Store.remove_eq]
    split
    · next missing => exact missing
    · rw [Store.row?_without, if_pos rfl]
  have split : indexer.gate.performAll store (indexer.removeCalls (front ++ path :: rest)) =
      indexer.gate.performAll (indexer.gate.perform before (.remove indexer.project path))
        (indexer.removeCalls rest) := by
    rw [removeCalls, List.map_append, StoreGate.performAll_append]
    rfl
  rw [split]
  rcases indexer.row?_removeCalls rest (indexer.gate.perform before (.remove indexer.project path))
    indexer.project path with gone | same
  · exact gone
  · exact same.trans removed

theorem recordOf?_states (store : Store) (project path : String) :
    recordOf? (store.states project) path = (store.row? project path).map (·.file.state) :=
  store.find?_states project path

/-! ## Files for which there is nothing to be done -/

/-- Whether a file is too large or not later than what is stored of it. -/
def IsDone (indexer : Indexer) (store : Store) (file : WalkedFile) : Prop :=
  file.content.bytes.size > indexer.config.scan.maxFileBytes ∨
    ∃ row, store.row? indexer.project file.path = some row ∧
      file.content.time.isLaterThan row.file.time = false

theorem IsDone.outcomeOf_eq (done : indexer.IsDone store file) :
    indexer.outcomeOf (store.states indexer.project) false file = .oversize ∨
      indexer.outcomeOf (store.states indexer.project) false file =
        .unchangedByTime file.content.bytes.size := by
  rw [outcomeOf, Candidate.read_eq, recordOf?_states]
  rcases done with large | ⟨row, found, notLater⟩
  · exact .inl (if_pos large)
  · have settled : Detection.settledByTime false ((store.row? indexer.project file.path).map
        (·.file.state)) file.content.time = true := by
      rw [found]
      exact settledByTime_some.mpr ⟨rfl, notLater⟩
    rw [if_pos settled]
    split
    · exact .inl rfl
    · exact .inr rfl

/-! ## The first scan -/

section

variable {stored : List FileState} {force : Bool} {files : List WalkedFile}

/-- A file that brings about no call keeps its row. -/
theorem row?_fileCalls_of_idle (once : (files.map (·.path)).Nodup) (member : file ∈ files)
    (idle : (indexer.outcomeOf stored force file).changesNothing = true) (store : Store) :
    (indexer.gate.performAll store (indexer.fileCalls stored force files)).row? indexer.project
      file.path = store.row? indexer.project file.path := by
  apply indexer.gate.row?_performAll_elsewhere
  intro call isCalled place
  rcases brings_of_mem_fileCalls indexer.finishes_bare isCalled with ⟨other, isOther, brings⟩
  rw [path_of_brings (fun _ _ => path_of_bare) brings, Prod.mk.injEq] at place
  rw [List.inj_on_of_nodup_map once isOther member place.2] at brings
  exact not_brings_of_changesNothing idle call brings

variable (once : (files.map (·.path)).Nodup) (member : file ∈ files)

include once member

/-- A file of which only the time has changed has its new time in the store. -/
theorem row?_fileCalls_of_touched (accepts : indexer.gate.refuses .touch file.path = none)
    {time : FileTime} (touched : (indexer.outcomeOf stored force file).touchTime? = some time)
    (store : Store) :
    (indexer.gate.performAll store (indexer.fileCalls stored force files)).row? indexer.project
      file.path = (store.row? indexer.project file.path).map (·.timed time) := by
  rcases indexer.gate.exists_before store
    (nodup_fileCalls indexer.finishes_bare (fun _ _ => path_of_bare) once)
    (touch_mem_fileCalls member touched) rfl with ⟨front, rest, -, before, left⟩
  rw [left, StoreGate.perform_touch, accepts, if_neg (by exact Bool.false_ne_true),
    Store.row?_touch, if_pos rfl, before]
  rfl

/-- A file that has been written has its time in the store. -/
theorem row?_fileCalls_of_written (store : Store)
    (ready : (indexer.outcomeOf stored force file).candidate?.isSome)
    (written : ∀ writing ∈ indexer.gate.writings store (indexer.fileCalls stored force files),
      writing.isDone = true) :
    ∃ row, (indexer.gate.performAll store (indexer.fileCalls stored force files)).row?
        indexer.project file.path = some row ∧ row.file.time = file.content.time := by
  rcases exists_persist_mem_fileCalls indexer.finishes_bare member ready with
    ⟨finished, isFinished, isCalled⟩
  have path : finished.path = file.path := path_of_bare isFinished
  have time : finished.time = file.content.time :=
    (congrArg IndexedFile.time isFinished).trans (time_outlineOf _)
  rcases indexer.gate.exists_before store
    (nodup_fileCalls indexer.finishes_bare (fun _ _ => path_of_bare) once) isCalled
    (congrArg (indexer.project, ·) path) with ⟨front, rest, calls, -, left⟩
  have isDone : (indexer.gate.persist (indexer.gate.performAll store front) indexer.project
      finished).isOk = true := by
    apply written ⟨finished, _⟩
    rw [calls, StoreGate.writings_append]
    exact List.mem_append_right _ List.mem_cons_self
  rw [left]
  cases asked : indexer.gate.persist (indexer.gate.performAll store front) indexer.project
    finished with
  | error error =>
      rw [asked] at isDone
      cases isDone
  | ok answer =>
      have after : indexer.gate.perform (indexer.gate.performAll store front)
          (.persist indexer.project finished) =
            (indexer.gate.performAll store front).written indexer.project finished := by
        rw [StoreGate.perform, asked]
        exact (Store.persist_eq_ok (StoreGate.persist_eq_ok asked)).1
      rw [after, Store.row?_written, path, if_pos rfl]
      exact ⟨_, rfl, time⟩

end

section

variable (proper : disk.IsProper)
  (succeeds : (indexer.scan disk mode state).1.success = true)

include succeeds

/-- What there is at the path of a file behind a scan is what working off the files has left. -/
theorem row?_scan_of_mem (member : file ∈ indexer.filesOn disk) :
    (indexer.scan disk mode state).2.store.row? indexer.project file.path =
      (indexer.gate.performAll state.store
        (indexer.fileCalls (state.store.states indexer.project) (mode = .force)
          (indexer.filesOn disk))).row? indexer.project file.path := by
  rcases reaches_of_success succeeds with ⟨isThere, loads⟩
  rw [indexer.store_scan mode state isThere loads, scanCalls_eq, StoreGate.performAll_append]
  apply indexer.gate.row?_performAll_elsewhere
  intro call isRemoval place
  rcases List.mem_map.mp isRemoval with ⟨path, isMissing, rfl⟩
  exact apart_pruned path isMissing file member (Prod.mk.inj place).2.symm

/-- A scan that prunes leaves nothing where there is no file. -/
theorem row?_scan_of_missing (accepts : ∀ path, indexer.gate.refuses .remove path = none)
    (prunes : indexer.config.scan.pruneMissing = true) {path : String}
    (nowhere : ∀ file ∈ indexer.filesOn disk, file.path ≠ path) :
    (indexer.scan disk mode state).2.store.row? indexer.project path = none := by
  rcases reaches_of_success succeeds with ⟨isThere, loads⟩
  let stored := state.store.states indexer.project
  let missing := missingFrom stored (indexer.filesOn disk)
  let worked := indexer.gate.performAll state.store
    (indexer.fileCalls stored (mode = .force) (indexer.filesOn disk))
  have kept : worked.row? indexer.project path = state.store.row? indexer.project path := by
    apply indexer.gate.row?_performAll_elsewhere
    intro call isCalled place
    rcases brings_of_mem_fileCalls indexer.finishes_bare isCalled with ⟨file, isFile, brings⟩
    rw [path_of_brings (fun _ _ => path_of_bare) brings] at place
    exact nowhere file isFile (Prod.mk.inj place).2
  rw [indexer.store_scan mode state isThere loads, scanCalls, if_pos prunes,
    StoreGate.performAll_append]
  by_cases isMissing : path ∈ missing
  · exact row?_removeCalls_of_mem (accepts path) isMissing worked
  · -- Nothing has been stored at a path that is not removed.
    rw [mem_missingFrom, recordOf?_states, Option.isSome_map] at isMissing
    have nothing : state.store.row? indexer.project path = none := by
      rw [← Option.not_isSome_iff_eq_none]
      exact fun isStored => isMissing ⟨isStored, nowhere⟩
    rcases indexer.row?_removeCalls missing worked indexer.project path with gone | same
    · exact gone
    · exact same.trans (kept.trans nothing)

/-- A scan without failures has been able to read all files and to write those to be indexed. -/
theorem all_of_complete (complete : (indexer.scan disk mode state).1.stats.failed = 0) :
    let stored := state.store.states indexer.project
    (∀ file ∈ indexer.filesOn disk,
        ¬ (indexer.outcomeOf stored (mode = .force) file).isFailed = true) ∧
      ∀ writing ∈ indexer.gate.writings state.store
        (indexer.fileCalls stored (mode = .force) (indexer.filesOn disk)),
        writing.isDone = true := by
  intro stored
  have failed := congrArg ScanStats.failed (tally_scan succeeds)
  have none : 0 = 0 + (_ + _) := complete.symm.trans failed
  rcases Nat.add_eq_zero_iff.mp (none.trans (Nat.zero_add _)).symm with ⟨reads, writes⟩
  rw [List.countP_eq_zero] at reads writes
  constructor
  · exact fun file member => reads _ (List.mem_map_of_mem member)
  · intro writing member
    have isDone := writes writing member
    rwa [Bool.not_eq_true', Bool.not_eq_false] at isDone

variable (accepts : ∀ operation path, indexer.gate.refuses operation path = none)

include proper accepts

/-- Behind a scan without failures there is nothing to be done for any file. -/
theorem isDone_scan (complete : (indexer.scan disk mode state).1.stats.failed = 0)
    (member : file ∈ indexer.filesOn disk) :
    indexer.IsDone (indexer.scan disk mode state).2.store file := by
  let stored := state.store.states indexer.project
  let force : Bool := mode = .force
  have once : ((indexer.filesOn disk).map (·.path)).Nodup := nodup_filesOn proper
  rcases all_of_complete succeeds complete with ⟨reads, written⟩
  have outcome : indexer.outcomeOf stored force file = _ := Candidate.read_eq _ _ _ _ _
  rw [recordOf?_states] at outcome
  by_cases large : file.content.bytes.size > indexer.config.scan.maxFileBytes
  · exact .inl large
  right
  rw [if_neg large] at outcome
  rw [row?_scan_of_mem succeeds member]
  by_cases settled : Detection.settledByTime force ((state.store.row? indexer.project
      file.path).map (·.file.state)) file.content.time = true
  · rw [if_pos settled] at outcome
    rw [row?_fileCalls_of_idle once member (congrArg ReadOutcome.changesNothing outcome)]
    -- The row keeps its time, which need not be that of the file: the file may be older.
    cases found : state.store.row? indexer.project file.path with
    | none =>
        rw [found] at settled
        cases settled
    | some former =>
        rw [found] at settled
        exact ⟨former, rfl, (settledByTime_some.mp settled).2⟩
  rw [if_neg settled] at outcome
  by_cases unreadable : file.content.isReadable = false
  · rw [if_pos unreadable] at outcome
    exact absurd (congrArg ReadOutcome.isFailed outcome) (reads file member)
  rw [if_neg unreadable] at outcome
  by_cases unchanged : Detection.statusOf force ((state.store.row? indexer.project
      file.path).map (·.file.state)) (contentHash file.content.bytes) = .unchangedByContent
  · rw [if_pos unchanged] at outcome
    have touched := congrArg ReadOutcome.touchTime? outcome
    rw [row?_fileCalls_of_touched once member (accepts .touch file.path) touched]
    cases found : state.store.row? indexer.project file.path with
    | none =>
        rw [found] at unchanged
        cases unchanged
    | some former => exact ⟨_, rfl, isLaterThan_self _⟩
  · rw [if_neg unchanged] at outcome
    have ready : (indexer.outcomeOf stored force file).candidate?.isSome := by
      rw [outcome]
      rfl
    rcases row?_fileCalls_of_written once member state.store ready written with ⟨row, found, time⟩
    refine ⟨row, found, ?_⟩
    rw [time]
    exact isLaterThan_self _

end

/-! ## The second scan -/

section

variable (done : ∀ file ∈ indexer.filesOn disk, indexer.IsDone state.store file)

include done

theorem fileCalls_of_done :
    indexer.fileCalls (state.store.states indexer.project) false (indexer.filesOn disk) = [] := by
  rw [List.eq_nil_iff_forall_not_mem]
  intro call isCalled
  rcases brings_of_mem_fileCalls indexer.finishes_bare isCalled with ⟨file, member, brings⟩
  refine not_brings_of_changesNothing ?_ call brings
  rcases (done file member).outcomeOf_eq with large | settled
  · exact congrArg ReadOutcome.changesNothing large
  · exact congrArg ReadOutcome.changesNothing settled

/-- A scan that finds nothing to be done skips every file. -/
theorem tally_scan_of_done
    (succeeds : (indexer.scan disk .incremental state).1.success = true) :
    let stats := (indexer.scan disk .incremental state).1.stats
    stats.indexed = 0 ∧ stats.skippedByContent = 0 ∧ stats.failed = 0 ∧
      stats.skippedByTime + stats.skippedOversize = stats.totalFiles := by
  intro stats
  let outcomes := (indexer.filesOn disk).map
    (indexer.outcomeOf (state.store.states indexer.project) false)
  have tally : stats.tally = ({ totalFiles := (indexer.filesOn disk).length } : ScanStats).plus
      (ScanStats.ofWork outcomes []) := by
    have written : indexer.gate.writings state.store (indexer.fileCalls
        (state.store.states indexer.project) false (indexer.filesOn disk)) = [] := by
      rw [fileCalls_of_done done]
      rfl
    rw [← written]
    exact tally_scan succeeds
  have none : ∀ count : ReadOutcome → Bool, count .oversize = false →
      (∀ size, count (.unchangedByTime size) = false) → outcomes.countP count = 0 := by
    intro count large settled
    rw [List.countP_eq_zero]
    intro outcome member
    rcases List.mem_map.mp member with ⟨file, isFile, rfl⟩
    rcases (done file isFile).outcomeOf_eq with same | same
    · rw [same, large]
      exact Bool.false_ne_true
    · rw [same, settled]
      exact Bool.false_ne_true
  have ready := none (·.candidate?.isSome) rfl fun _ => rfl
  have touched := none (·.touchTime?.isSome) rfl fun _ => rfl
  have unread := none (·.isFailed) rfl fun _ => rfl
  have all := ReadOutcome.length_eq_countP outcomes
  have total : stats.totalFiles = outcomes.length :=
    (congrArg ScanStats.totalFiles tally).trans (List.length_map _).symm
  have byContent : stats.skippedByContent = 0 + _ := congrArg ScanStats.skippedByContent tally
  have byTime : stats.skippedByTime = 0 + outcomes.countP (·.isUnchangedByTime) :=
    congrArg ScanStats.skippedByTime tally
  have oversize : stats.skippedOversize = 0 + outcomes.countP (·.isOversize) :=
    congrArg ScanStats.skippedOversize tally
  have failed : stats.failed = 0 + (outcomes.countP (·.isFailed) + 0) :=
    congrArg ScanStats.failed tally
  refine ⟨congrArg ScanStats.indexed tally, byContent.trans ?_, failed.trans ?_, ?_⟩
  · rw [Nat.zero_add]
    exact touched
  · rw [unread]
  · rw [total, byTime, oversize]
    omega

end

end Indexer

/-! ## Scans without failures -/

/-- Files that fit into a store are written if the store accepts them. -/
theorem StoreGate.isDone_of_spares {gate : StoreGate} {source : FileSource}
    (isApart : source.IsApart) {calls : List StoreCall}
    (accepts : ∀ path, gate.refuses .persist path = none)
    (comes : ∀ call ∈ calls, call.ComesFrom source) {store : Store} (sound : store.IsSound)
    (spares : store.Spares source) :
    ∀ writing ∈ gate.writings store calls, writing.isDone = true := by
  induction calls generalizing store with
  | nil => exact List.forall_mem_nil _
  | cons call calls induction =>
      rw [List.forall_mem_cons] at comes
      have rest := induction comes.2 (gate.isSound_perform sound call)
        (spares_perform isApart sound spares comes.1)
      cases call with
      | touch _ _ _ | remove _ _ => exact rest
      | persist project file =>
          have fits := (spares project file.bare (comes.1 project file rfl)).of_bare
          rcases Store.persist_of_fits sound fits with ⟨acks, persisted⟩
          refine List.forall_mem_cons.mpr ⟨?_, rest⟩
          simp only [StoreGate.persist, attempt, accepts, persisted]
          rfl

namespace Indexer

theorem not_failed_of_isReadable {indexer : Indexer} {stored : List FileState} {force : Bool}
    {file : WalkedFile} (reads : file.content.isReadable = true) :
    ¬ (indexer.outcomeOf stored force file).isFailed = true := by
  rw [outcomeOf, Candidate.read_eq, reads]
  split
  · exact Bool.false_ne_true
  · split
    · exact Bool.false_ne_true
    · rw [if_neg (by decide)]
      split <;> exact Bool.false_ne_true

/-- A scan does not fail at any file if all of them can be read, identifiers tell them apart, and
the store accepts everything. -/
theorem failed_scan_eq_zero {indexer : Indexer} (accepting : indexer.gate = .accepting)
    {source : FileSource} (isApart : source.IsApart) {disk : FileTree} {mode : ScanMode}
    {state : IndexState} (succeeds : (indexer.scan disk mode state).1.success = true)
    (supplied : indexer.Supplies source (indexer.filesOn disk))
    (reads : ∀ file ∈ indexer.filesOn disk, file.content.isReadable = true)
    (sound : state.store.IsSound) (spares : state.store.Spares source) :
    (indexer.scan disk mode state).1.stats.failed = 0 := by
  let stored := state.store.states indexer.project
  have comes : ∀ call ∈ indexer.fileCalls stored (mode = .force) (indexer.filesOn disk),
      call.ComesFrom source := comesFrom_fileCalls supplied
  have accepts : ∀ path, indexer.gate.refuses .persist path = none := by
    rw [accepting]
    exact fun _ => rfl
  have written := StoreGate.isDone_of_spares isApart accepts comes sound spares
  have none : ((indexer.filesOn disk).map (indexer.outcomeOf stored (mode = .force))).countP
      (·.isFailed) = 0 := by
    rw [List.countP_eq_zero]
    intro outcome member
    rcases List.mem_map.mp member with ⟨file, isFile, rfl⟩
    exact not_failed_of_isReadable (reads file isFile)
  have all : (indexer.gate.writings state.store (indexer.fileCalls stored (mode = .force)
      (indexer.filesOn disk))).countP (! ·.isDone) = 0 := by
    rw [List.countP_eq_zero]
    intro writing member
    rw [written writing member]
    exact Bool.false_ne_true
  have failed : _ = 0 + (_ + _) := congrArg ScanStats.failed (tally_scan succeeds)
  refine failed.trans ?_
  rw [none, all]

end Indexer

open Indexer in
/-- When a scan that removes what is missing has come through without failures, scanning the same
tree again asks nothing of the store. Every file is skipped, by its time or by its size. -/
theorem rescan_changes_nothing {indexer : Indexer} (accepting : indexer.gate = .accepting)
    (prunes : indexer.config.scan.pruneMissing = true) {disk : FileTree} (proper : disk.IsProper)
    {mode : ScanMode} {state : IndexState} :
    let first := indexer.scan disk mode state
    let second := indexer.scan disk .incremental first.2.toIndexState
    first.1.success = true → first.1.stats.failed = 0 →
      second.1.success = true ∧
      indexer.callsOf first.2.toIndexState (.scan disk .incremental) = [] ∧
      second.2.store = first.2.store ∧
      second.1.stats.indexed = 0 ∧ second.1.stats.skippedByContent = 0 ∧
      second.1.stats.pruned = 0 ∧
      second.1.stats.skippedByTime + second.1.stats.skippedOversize =
        second.1.stats.totalFiles := by
  intro first second succeeds complete
  have accepts : ∀ operation path, indexer.gate.refuses operation path = none := by
    rw [accepting]
    exact fun _ _ => rfl
  rcases reaches_of_success succeeds with ⟨isThere, loads⟩
  have done : ∀ file ∈ indexer.filesOn disk, indexer.IsDone first.2.store file :=
    fun file member => isDone_scan proper succeeds accepts complete member
  have again : second = _ := indexer.scan_eq .incremental first.2.toIndexState isThere loads
  have succeedsAgain : second.1.success = true := congrArg (·.1.success) again
  -- All that the first scan has not come upon it has removed.
  have missing :
      missingFrom (first.2.store.states indexer.project) (indexer.filesOn disk) = [] := by
    rw [List.eq_nil_iff_forall_not_mem]
    intro path isMissing
    rw [mem_missingFrom, recordOf?_states, Option.isSome_map] at isMissing
    have nothing := row?_scan_of_missing succeeds (accepts .remove) prunes isMissing.2
    rw [nothing] at isMissing
    cases isMissing.1
  have calls : indexer.callsOf first.2.toIndexState (.scan disk .incremental) = [] := by
    have worked : indexer.fileCalls (first.2.store.states indexer.project)
        (ScanMode.incremental = .force) (indexer.filesOn disk) = [] := fileCalls_of_done done
    rw [callsOf, scanCalls, worked, missing]
    split <;> rfl
  have stored : second.2.store = _ :=
    indexer.store_scan .incremental first.2.toIndexState isThere loads
  have unpruned : second.1.stats.pruned = 0 := by
    rw [again]
    have removed : ∀ run, indexer.pruneMissing (first.2.store.states indexer.project)
        ((indexer.filesOn disk).map (·.path)) run = run :=
      fun run => congrArg (List.foldl indexer.prune run) missing
    unfold finish scanned
    simp only [removed, ite_self]
    exact indexer.pruned_processFiles _ _ _ _
  rcases tally_scan_of_done done succeedsAgain with ⟨indexed, byContent, -, skipped⟩
  exact ⟨succeedsAgain, calls, stored.trans (congrArg (indexer.gate.performAll _) calls), indexed,
    byContent, unpruned, skipped⟩

/-- Scanning a tree that has changed leaves nothing to be done for the next scan. -/
theorem rescan_laterFiles :
    let first := sampleIndexer.scan (.ofFiles laterFiles) .incremental formerIndex
    let second := sampleIndexer.scan (.ofFiles laterFiles) .incremental first.2.toIndexState
    first.1.success = true ∧ first.1.stats.failed = 0 ∧ second.2.store = first.2.store ∧
      second.1.stats.skippedByTime + second.1.stats.skippedOversize =
        second.1.stats.totalFiles := by
  intro first second
  have finds := findsBare_laterFiles
  have succeeds : first.1.success = true :=
    congrArg (·.1.success) (sampleIndexer.scan_eq .incremental formerIndex
      (Option.isSome_of_eq_some finds.isThere) rfl)
  have readable : ∀ file ∈ laterFiles, file.2.isReadable = true := by decide
  have complete : first.1.stats.failed = 0 :=
    Indexer.failed_scan_eq_zero rfl isApart_sampleSource succeeds
      (sampleIndexer.supplies_sourceOf fun _ member => List.mem_append_right _ member)
      (fun file member => readable _ (mem_of_mem_filesOn_ofFiles finds member))
      isSound_formerIndex spares_formerIndex
  have rescanned := rescan_changes_nothing rfl rfl finds.proper succeeds complete
  exact ⟨succeeds, complete, rescanned.2.2.1, rescanned.2.2.2.2.2.2⟩

end SourceIndex
