import SourceIndex.Proofs.Scan.Removals
import SourceIndex.Proofs.Scan.Steps

/-! What a run counts accounts for every file that it comes upon: each of them is indexed, skipped or
failed, and the rows that the store has confirmed are those of the files indexed. -/

namespace SourceIndex

/-! ## Writings -/

/-- How many rows a file comes to when it is written: its own one, those of what has been extracted
from it, and one for its complexity if it has been analysed. -/
def IndexedFile.rowCount (file : IndexedFile) : Nat :=
  1 + match file.analysis with
    | none => 0
    | some analysis =>
      analysis.definitions.length + analysis.dependencies.length + analysis.chunks.length + 1

/-- A file that the store has been asked to write, and whether it has been written. -/
structure Writing where
  file : IndexedFile
  isDone : Bool

/-- The file that a call asks to write. -/
def StoreCall.file? : StoreCall → Option IndexedFile
  | .persist _ file => some file
  | .touch _ _ _ | .remove _ _ => none

namespace StoreGate

variable (gate : StoreGate)

/-- What comes of writing files when calls are performed one after the other. -/
def writings : Store → List StoreCall → List Writing
  | _, [] => []
  | store, call :: calls =>
    let rest := writings (gate.perform store call) calls
    match call with
    | .persist project file => ⟨file, (gate.persist store project file).isOk⟩ :: rest
    | .touch _ _ _ | .remove _ _ => rest

theorem writings_append (store : Store) (calls later : List StoreCall) :
    gate.writings store (calls ++ later) =
      gate.writings store calls ++ gate.writings (gate.performAll store calls) later := by
  induction calls generalizing store with
  | nil => rfl
  | cons call calls induction =>
      cases call with
      | persist project file => exact congrArg (List.cons _) (induction _)
      | touch _ _ _ | remove _ _ => exact induction _

/-- Whether they are written or not, the files are those that the calls ask to write. -/
theorem map_file_writings (store : Store) (calls : List StoreCall) :
    (gate.writings store calls).map (·.file) = calls.filterMap StoreCall.file? := by
  induction calls generalizing store with
  | nil => rfl
  | cons call calls induction =>
      cases call with
      | persist project file => exact congrArg (List.cons file) (induction _)
      | touch _ _ _ | remove _ _ => exact induction _

theorem writings_eq_nil (store : Store) {calls : List StoreCall}
    (none : calls.filterMap StoreCall.file? = []) : gate.writings store calls = [] := by
  rw [← gate.map_file_writings store] at none
  exact List.map_eq_nil_iff.mp none

/-- A file that is written has all of its rows confirmed. -/
theorem acks_of_persist {gate : StoreGate} {store after : Store} {project : String}
    {file : IndexedFile} {acks : List WriteAck}
    (written : gate.persist store project file = .ok (acks, after)) :
    acks.length = file.rowCount ∧ acks.countP (·.isConfirmed) = acks.length := by
  have answered := persist_eq_ok written
  cases put : store.putFile project file with
  | error error =>
      rw [Store.persist, put] at answered
      cases answered
  | ok answer =>
      rw [Store.persist_of_putFile put] at answered
      cases answered
      unfold IndexedFile.rowCount Store.acksUnder
      cases file.analysis with
      | none => exact ⟨rfl, rfl⟩
      | some analysis =>
          rw [Option.map_some, Option.getD_some]
          constructor
          · simp only [Store.analysisAcks, List.length_cons, List.length_append, List.length_map,
              List.length_nil]
            omega
          · apply List.countP_eq_length.mpr
            simp only [Store.analysisAcks, List.forall_mem_cons, List.forall_mem_append,
              List.forall_mem_map]
            exact ⟨rfl, ⟨⟨fun _ _ => rfl, fun _ _ => rfl⟩, fun _ _ => rfl⟩, rfl,
              List.forall_mem_nil _⟩

end StoreGate

/-! ## Counts -/

namespace ReadOutcome

def isUnchangedByTime : ReadOutcome → Bool
  | unchangedByTime _ => true
  | _ => false

def isOversize : ReadOutcome → Bool
  | oversize => true
  | _ => false

def isFailed : ReadOutcome → Bool
  | failed => true
  | _ => false

/-- Every file is to be indexed, skipped or failed. -/
theorem length_eq_countP (outcomes : List ReadOutcome) :
    outcomes.length = outcomes.countP (·.candidate?.isSome) +
      outcomes.countP (·.isUnchangedByTime) + outcomes.countP (·.touchTime?.isSome) +
      outcomes.countP (·.isOversize) + outcomes.countP (·.isFailed) := by
  induction outcomes with
  | nil => rfl
  | cons outcome outcomes induction =>
      simp only [List.length_cons, List.countP_cons, induction]
      cases outcome with
      | ready _ | unchangedByTime _ | unchangedByContent _ | oversize | failed =>
          simp only [candidate?, touchTime?, isUnchangedByTime, isOversize, isFailed,
            Option.isSome_some, Option.isSome_none, Bool.false_eq_true, if_true, if_false]
          omega

end ReadOutcome

namespace ScanStats

/-- What is counted when some files have been read. -/
def ofReads (outcomes : List ReadOutcome) : ScanStats where
  processed := outcomes.length
  skippedByTime := outcomes.countP (·.isUnchangedByTime)
  skippedOversize := outcomes.countP (·.isOversize)
  failed := outcomes.countP (·.isFailed)

theorem ofReads_append (outcomes later : List ReadOutcome) :
    ofReads (outcomes ++ later) = (ofReads outcomes).plus (ofReads later) := by
  simp only [ofReads, plus, List.length_append, List.countP_append]

/-- What is counted of some files that have been read and touched and of the writings that
followed. -/
def ofWork (outcomes : List ReadOutcome) (writings : List Writing) : ScanStats where
  processed := outcomes.length
  indexed := writings.countP (·.isDone)
  totalLines := ((writings.filter (·.isDone)).map (·.file.lineCount)).sum
  skippedByTime := outcomes.countP (·.isUnchangedByTime)
  skippedByContent := outcomes.countP (·.touchTime?.isSome)
  skippedOversize := outcomes.countP (·.isOversize)
  ackSuccess := ((writings.filter (·.isDone)).map (·.file.rowCount)).sum
  ackFailed := writings.countP (! ·.isDone)
  failed := outcomes.countP (·.isFailed) + writings.countP (! ·.isDone)

theorem ofWork_append (outcomes laterOutcomes : List ReadOutcome)
    (writings laterWritings : List Writing) :
    ofWork (outcomes ++ laterOutcomes) (writings ++ laterWritings) =
      (ofWork outcomes writings).plus (ofWork laterOutcomes laterWritings) := by
  simp only [ofWork, plus, List.length_append, List.countP_append, List.filter_append,
    List.map_append, List.sum_append, Nat.add_add_add_comm]

/-- Whether what a run has counted accounts for every file, given what has come of its writings. -/
structure Accounts (stats : ScanStats) (writings : List Writing) : Prop where
  everyFile : stats.totalFiles = stats.processed
  once : stats.processed = stats.indexed + stats.skippedByTime + stats.skippedByContent +
    stats.skippedOversize + stats.failed
  indexed : stats.indexed = (writings.filter (·.isDone)).length
  ackFailed : stats.ackFailed = (writings.filter (! ·.isDone)).length
  ackSuccess : stats.ackSuccess = ((writings.filter (·.isDone)).map (·.file.rowCount)).sum

/-- The counts of a run account for its files if each that has to be indexed has been asked for. -/
theorem accounts_of_ofWork {stats : ScanStats} {outcomes : List ReadOutcome}
    {writings : List Writing} {total : Nat} (sized : outcomes.length = total)
    (isTally : stats.tally = ({ totalFiles := total } : ScanStats).plus (ofWork outcomes writings))
    (asked : writings.length = outcomes.countP (·.candidate?.isSome)) :
    stats.Accounts writings := by
  have all := ReadOutcome.length_eq_countP outcomes
  have parts := List.length_eq_countP_add_countP (·.isDone) (l := writings)
  have undone : writings.countP (fun writing => decide ¬ writing.isDone = true) =
      writings.countP (! ·.isDone) := by
    congr 1
    funext writing
    cases writing.isDone <;> rfl
  rw [undone] at parts
  simp only [tally, plus, ofWork, mk.injEq, Nat.zero_add] at isTally
  rcases isTally with ⟨totalFiles, processed, indexed, -, byTime, byContent, oversize, -, -,
    ackSuccess, ackFailed, failed, -, -⟩
  constructor
  · rw [totalFiles, processed, sized]
    rfl
  · rw [processed, indexed, byTime, byContent, oversize, failed]
    omega
  · rw [indexed, List.countP_eq_length_filter]
  · rw [ackFailed, List.countP_eq_length_filter]
  · exact ackSuccess

end ScanStats

namespace Indexer

variable (indexer : Indexer)

/-! ## Calls that write -/

theorem file?_persistCalls (files : List IndexedFile) :
    (indexer.persistCalls files).filterMap StoreCall.file? = files := by
  rw [persistCalls, List.filterMap_map]
  exact List.filterMap_some

theorem file?_touchCalls (touches : List (String × FileTime)) :
    (indexer.touchCalls touches).filterMap StoreCall.file? = [] := by
  rw [touchCalls, List.filterMap_map]
  exact List.filterMap_eq_nil_iff.mpr fun _ _ => rfl

theorem file?_removeCalls (paths : List String) :
    (indexer.removeCalls paths).filterMap StoreCall.file? = [] := by
  rw [removeCalls, List.filterMap_map]
  exact List.filterMap_eq_nil_iff.mpr fun _ _ => rfl

/-- The files that are asked to be written are those that have to be indexed, vectors aside. -/
theorem map_bare_fileCalls (stored : List FileState) (force : Bool) (files : List WalkedFile) :
    ((indexer.fileCalls stored force files).filterMap StoreCall.file?).map IndexedFile.bare =
      (indexer.candidatesOf stored force files).map indexer.outlineOf := by
  have ofBatch : ∀ batch,
      ((indexer.batchCalls stored force batch).filterMap StoreCall.file?).map IndexedFile.bare =
        (indexer.candidatesOf stored force batch).map indexer.outlineOf := by
    intro batch
    rw [batchCalls, List.filterMap_append, file?_touchCalls, file?_persistCalls, List.nil_append,
      map_bare_finishedFiles]
  have candidates : ∀ parts : List (List WalkedFile),
      (parts.flatMap fun batch => (indexer.candidatesOf stored force batch)) =
        indexer.candidatesOf stored force parts.flatten := by
    intro parts
    rw [candidatesOf, List.filterMap_flatten, List.flatMap]
    rfl
  unfold fileCalls
  rw [List.filterMap_flatMap, List.map_flatMap]
  simp only [ofBatch]
  rw [← List.map_flatMap, candidates,
    flatten_batches (batchSize_pos indexer.config.scan files.length)]

/-- As many files are asked to be written as have to be indexed. -/
theorem length_writings (store : Store) (stored : List FileState) (force : Bool)
    (files : List WalkedFile) :
    (indexer.gate.writings store (indexer.fileCalls stored force files)).length =
      (files.map (indexer.outcomeOf stored force)).countP (·.candidate?.isSome) := by
  have same := congrArg List.length (indexer.map_bare_fileCalls stored force files)
  rw [List.length_map, List.length_map, ← indexer.gate.map_file_writings store, List.length_map,
    candidatesOf, List.length_filterMap_eq_countP] at same
  rw [same, List.countP_map]
  rfl

/-! ## Steps -/

theorem stats_takeReads (stored : List FileState) (outcomes : List (Nat × String × ReadOutcome))
    (reads : Reads) :
    (outcomes.foldl (fun reads (place, path, outcome) =>
      indexer.takeRead stored reads place path outcome) reads).run.stats =
      reads.run.stats.plus (ScanStats.ofReads (outcomes.map (·.2.2))) := by
  induction outcomes generalizing reads with
  | nil => rfl
  | cons outcome outcomes induction =>
      have first : (indexer.takeRead stored reads outcome.1 outcome.2.1 outcome.2.2).run.stats =
          reads.run.stats.plus (ScanStats.ofReads [outcome.2.2]) := by
        have taken := indexer.result_takeRead stored reads outcome.1 outcome.2.1 outcome.2.2
        refine (congrArg (·.stats) taken).trans ?_
        cases outcome.2.2 <;> rfl
      rw [List.foldl_cons, induction, first, ScanStats.plus_assoc, ← ScanStats.ofReads_append]
      rfl

theorem stats_touches (stored : List FileState) (touches : List (String × FileTime)) (run : Run) :
    (touches.foldl (fun run (path, time) => indexer.touch stored run path time) run).stats =
      run.stats.plus { skippedByContent := touches.length } := by
  induction touches generalizing run with
  | nil => rfl
  | cons touched touches induction =>
      have first : (indexer.touch stored run touched.1 touched.2).stats =
          run.stats.plus { skippedByContent := 1 } :=
        congrArg (·.stats) (indexer.result_touch stored run touched.1 touched.2)
      rw [List.foldl_cons, induction, first, ScanStats.plus_assoc, List.length_cons, Nat.add_comm]
      rfl

/-- Writing a file counts it as indexed with all of its rows, or as failed. -/
theorem stats_persist (run : Run) (file : IndexedFile) :
    (indexer.persist run file).stats = run.stats.plus (ScanStats.ofWork []
      [⟨file, (indexer.gate.persist run.store indexer.project file).isOk⟩]) := by
  unfold persist
  cases asked : indexer.gate.persist run.store indexer.project file with
  | error error => rfl
  | ok answer =>
      rcases StoreGate.acks_of_persist asked with ⟨rows, confirmed⟩
      simp only [confirmed, rows, Nat.sub_self]
      rfl

theorem stats_persistAll (files : List IndexedFile) (run : Run) :
    (files.foldl indexer.persist run).stats = run.stats.plus (ScanStats.ofWork []
      (indexer.gate.writings run.store (indexer.persistCalls files))) := by
  induction files generalizing run with
  | nil => rfl
  | cons file files induction =>
      have stored : (indexer.persist run file).store =
          indexer.gate.perform run.store (.persist indexer.project file) :=
        indexer.store_persist run file
      rw [List.foldl_cons, induction, stats_persist, ScanStats.plus_assoc, stored,
        ← ScanStats.ofWork_append]
      rfl

/-! ## Batches -/

/-- Every file of a batch is counted once when it has been read. -/
theorem stats_readBatch (stored : List FileState) (force : Bool) (batch : List WalkedFile)
    (run : Run) : (indexer.readBatch stored force batch run).2.stats =
      run.stats.plus (ScanStats.ofWork (batch.map (indexer.outcomeOf stored force)) []) := by
  have outcomes : (indexer.outcomesOf stored force batch).map (·.2.2) =
      batch.map (indexer.outcomeOf stored force) := by
    unfold outcomesOf
    rw [List.map_map]
    conv => rhs; rw [← List.zipIdx_map_fst 0 batch, List.map_map]
    rfl
  have touches : (indexer.touchesOf stored force batch).length =
      (batch.map (indexer.outcomeOf stored force)).countP (·.touchTime?.isSome) := by
    rw [touchesOf, List.length_filterMap_eq_countP, List.countP_map]
    congr 1
    funext file
    exact Option.isSome_map
  rw [readBatch_eq, stats_touches, stats_takeReads, ScanStats.plus_assoc, outcomes, touches]
  congr 1
  simp only [ScanStats.plus, ScanStats.ofReads, ScanStats.ofWork, Nat.zero_add, Nat.add_zero]
  rfl

theorem tally_processBatch (stored : List FileState) (force : Bool) (position : ScanPosition)
    (batch : List WalkedFile) (run : Run) :
    (indexer.processBatch stored force position batch run).stats.tally =
      run.stats.tally.plus (ScanStats.ofWork (batch.map (indexer.outcomeOf stored force))
        (indexer.gate.writings run.store (indexer.batchCalls stored force batch))) := by
  let entered := run.enter .readingAndFiltering position
  rcases indexer.processBatch_eq stored force position batch run with ⟨ready, agrees, processed⟩
  have reads : (indexer.readBatch stored force batch entered).2.stats = _ :=
    indexer.stats_readBatch stored force batch entered
  have stores : (indexer.readBatch stored force batch entered).2.store =
      indexer.gate.performAll run.store
        (indexer.touchCalls (indexer.touchesOf stored force batch)) :=
    indexer.store_readBatch stored force batch entered
  have touched := indexer.gate.writings_eq_nil run.store
    (indexer.file?_touchCalls (indexer.touchesOf stored force batch))
  rw [processed, tally_checkMemory, stats_persistAll, ScanStats.tally_plus, agrees.tally, reads,
    agrees.store, stores, batchCalls, StoreGate.writings_append, touched, List.nil_append]
  have work := ScanStats.ofWork_append (batch.map (indexer.outcomeOf stored force)) [] []
    (indexer.gate.writings (indexer.gate.performAll run.store
      (indexer.touchCalls (indexer.touchesOf stored force batch)))
      (indexer.persistCalls (indexer.finishedFiles (indexer.candidatesOf stored force batch))))
  rw [List.append_nil, List.nil_append] at work
  rw [work, ← ScanStats.plus_assoc]
  rfl

/-- However files are cut into batches, every one of them is counted once. -/
theorem tally_processFiles (stored : List FileState) (force : Bool) (files : List WalkedFile)
    (run : Run) :
    (indexer.processFiles stored force files run).stats.tally =
      run.stats.tally.plus (ScanStats.ofWork (files.map (indexer.outcomeOf stored force))
        (indexer.gate.writings run.store (indexer.fileCalls stored force files))) := by
  -- Every batch starts with the store that the batches before it have left.
  have all : ∀ (parts : List (List WalkedFile)) (run : Run) (position : ScanPosition),
      (parts.foldl (indexer.batchStep stored force) (run, position)).1.stats.tally =
        run.stats.tally.plus
          (ScanStats.ofWork (parts.flatten.map (indexer.outcomeOf stored force))
            (indexer.gate.writings run.store
              (parts.flatMap (indexer.batchCalls stored force)))) := by
    intro parts
    induction parts with
    | nil => exact fun _ _ => rfl
    | cons part parts induction =>
        intro run position
        rw [List.foldl_cons, batchStep, induction, tally_processBatch, store_processBatch,
          List.flatten_cons, List.map_append, List.flatMap_cons, StoreGate.writings_append,
          ScanStats.ofWork_append, ScanStats.plus_assoc]
  have worked := all (batches (batchSize indexer.config.scan files.length) files) run
    { total := files.length
      batches := (batches (batchSize indexer.config.scan files.length) files).length }
  rw [flatten_batches (batchSize_pos indexer.config.scan files.length)] at worked
  exact worked

/-- What has been counted accounts for the files that have been worked off. -/
theorem accounts_of_tally {stats : ScanStats} {stored : List FileState} {force : Bool}
    {files : List WalkedFile} {store : Store}
    (tally : stats.tally = ({ totalFiles := files.length } : ScanStats).plus
      (ScanStats.ofWork (files.map (indexer.outcomeOf stored force))
        (indexer.gate.writings store (indexer.fileCalls stored force files)))) :
    stats.Accounts (indexer.gate.writings store (indexer.fileCalls stored force files)) :=
  ScanStats.accounts_of_ofWork (List.length_map _) tally
    (indexer.length_writings store stored force files)

/-! ## Runs -/

theorem tally_prune (run : Run) (path : String) :
    (indexer.prune run path).stats.tally = run.stats.tally := by
  unfold prune
  simp only
  split <;> rfl

/-- The calls that a run consists of, if it comes to its end. -/
def callsOf (state : IndexState) : IndexerRun → List StoreCall
  | .scan disk mode =>
    indexer.scanCalls (state.store.states indexer.project) (mode = .force) (indexer.filesOn disk)
  | .indexPaths disk paths =>
    indexer.removeCalls (indexer.goneAt disk paths) ++
      indexer.callsAt disk paths (indexer.leftAt disk paths state.store)
  | .removePaths paths => indexer.removeCalls paths
  | .restart => []

/-- What a run reports, if it indexes anything. -/
def reportOf (state : IndexState) : IndexerRun → Option ScanReport
  | .scan disk mode => some (indexer.scan disk mode state).1
  | .indexPaths disk paths => some (indexer.indexPaths disk paths state).1
  | .removePaths _ | .restart => none

variable {indexer}

/-- A scan that succeeds has found its root and has been able to read the store. -/
theorem reaches_of_success {disk : FileTree} {mode : ScanMode} {state : IndexState}
    (succeeds : (indexer.scan disk mode state).1.success = true) :
    (indexer.rootTree? disk).isSome ∧ indexer.gate.refuses .load "" = none := by
  unfold scan at succeeds
  cases found : indexer.rootTree? disk with
  | none =>
      simp only [found] at succeeds
      cases succeeds
  | some tree =>
      simp only [found, StoreGate.states, StoreGate.attempt] at succeeds
      cases loads : indexer.gate.refuses .load "" with
      | none => exact ⟨rfl, rfl⟩
      | some error =>
          simp only [loads] at succeeds
          cases succeeds

/-- What has been counted when a scan has succeeded. -/
theorem tally_scan {disk : FileTree} {mode : ScanMode} {state : IndexState}
    (succeeds : (indexer.scan disk mode state).1.success = true) :
    let stored := state.store.states indexer.project
    let files := indexer.filesOn disk
    (indexer.scan disk mode state).1.stats.tally =
      ({ totalFiles := files.length } : ScanStats).plus
        (ScanStats.ofWork (files.map (indexer.outcomeOf stored (mode = .force)))
          (indexer.gate.writings state.store
            (indexer.fileCalls stored (mode = .force) files))) := by
  intro stored files
  rcases reaches_of_success succeeds with ⟨isThere, loads⟩
  have processed := indexer.tally_processFiles stored (mode = .force) files
    (indexer.begun mode files state)
  have prunes := foldl_leaves (fun run : Run => run.stats.tally) indexer.tally_prune
  rw [indexer.scan_eq mode state isThere loads]
  refine Eq.trans ?_ processed
  unfold finish scanned
  simp only
  split
  · exact prunes _ _
  · rfl

/-- Paths all of which can be removed are removed up to the last one. -/
theorem accepts_of_removePaths {paths : List String} {removed count : Nat} {state left : IndexState}
    (isRemoved : indexer.removePaths paths removed state = (.ok count, left)) :
    ∀ path ∈ paths, indexer.gate.refuses .remove path = none := by
  induction paths generalizing removed state with
  | nil => exact List.forall_mem_nil _
  | cons path paths induction =>
      unfold removePaths StoreGate.remove StoreGate.attempt at isRemoved
      rw [List.forall_mem_cons]
      cases refused : indexer.gate.refuses .remove path with
      | some error =>
          simp only [refused] at isRemoved
          cases isRemoved
      | none =>
          simp only [refused] at isRemoved
          exact ⟨rfl, induction isRemoved⟩

theorem processFiles_nil (stored : List FileState) (force : Bool) (run : Run) :
    indexer.processFiles stored force [] run = run := by
  rw [processFiles, batches, if_pos (.inl rfl)]
  rfl

section

variable {disk : FileTree} {paths : List String} {state : IndexState}
  (succeeds : (indexer.indexPaths disk paths state).1.success = true)

include succeeds

/-- Indexing single paths that succeeds has found the root and has removed all that is gone. -/
theorem accepts_of_indexPaths : (indexer.rootTree? disk).isSome ∧
    ∀ path ∈ indexer.goneAt disk paths, indexer.gate.refuses .remove path = none := by
  unfold indexPaths at succeeds
  cases found : indexer.rootTree? disk with
  | none =>
      simp only [found] at succeeds
      cases succeeds
  | some tree =>
      refine ⟨rfl, ?_⟩
      unfold goneAt
      rcases removal : indexer.removePaths (gonePaths (paths.map (indexer.standing disk))) 0
        (indexer.begun .incremental (indexer.filesAt disk paths) state).toIndexState with
        ⟨error | removed, left⟩
      · unfold begun filesAt at removal
        simp only [found, removal] at succeeds
        cases succeeds
      · exact accepts_of_removePaths removal

/-- Indexing single paths that succeeds has worked off all files that are there. -/
theorem indexPaths_of_success :
    let run := indexer.cleared disk paths state
    indexer.indexPaths disk paths state =
      indexer.finish (indexer.processFiles (run.store.states indexer.project) false
        (indexer.filesAt disk paths) run) none := by
  rcases accepts_of_indexPaths succeeds with ⟨isThere, accepts⟩
  cases loads : indexer.gate.refuses .load "" with
  | none => exact indexPaths_eq isThere loads accepts state
  | some error =>
      -- The store has not been read, since there are no files.
      rcases Option.isSome_iff_exists.mp isThere with ⟨tree, found⟩
      have removal := removePaths_append accepts [] 0
        (indexer.begun .incremental (indexer.filesAt disk paths) state).toIndexState
      rw [List.append_nil, Nat.zero_add] at removal
      unfold begun filesAt goneAt at removal
      unfold indexPaths at succeeds ⊢
      simp only [found, removal, removePaths] at succeeds ⊢
      split
      · next none =>
          have nothing : indexer.filesAt disk paths = [] := List.isEmpty_iff.mp none
          rw [nothing, processFiles_nil]
          rfl
      · next some =>
          simp only [if_neg some, StoreGate.states, StoreGate.attempt, loads] at succeeds
          cases succeeds

/-- What has been counted when indexing single paths has succeeded. -/
theorem tally_indexPaths :
    let left := indexer.leftAt disk paths state.store
    let files := indexer.filesAt disk paths
    (indexer.indexPaths disk paths state).1.stats.tally =
      ({ totalFiles := files.length } : ScanStats).plus
        (ScanStats.ofWork (files.map (indexer.outcomeOf (left.states indexer.project) false))
          (indexer.gate.writings left (indexer.callsAt disk paths left))) := by
  intro left files
  rw [indexPaths_of_success succeeds]
  exact indexer.tally_processFiles _ false files (indexer.cleared disk paths state)

end

end Indexer

end SourceIndex
