import SourceIndex.Proofs.Scan.Failures
import SourceIndex.Proofs.Scan.Vectors

/-! What is told of a run while it goes on: that it begins, which batch it has come to and what is
done with it, which files have been indexed, and how it ends. -/

namespace SourceIndex

/-! ## Tales -/

/-- What is told of a file when it has been indexed. -/
def IndexedFile.told (file : IndexedFile) : ProgressEvent :=
  .fileIndexed file.path file.language file.lineCount file.embedding.isSome

/-- What has become of a batch: its files, and those of them that have been indexed unless there was
nothing to do. -/
structure BatchTale where
  files : List WalkedFile
  indexed? : Option (List IndexedFile)

namespace BatchTale

def indexed (tale : BatchTale) : List IndexedFile := tale.indexed?.getD []

/-- What is told of a batch. -/
def events (position : ScanPosition) (tale : BatchTale) : List ProgressEvent :=
  .entered .readingAndFiltering position ::
    match tale.indexed? with
    | none => []
    | some indexed =>
      [.entered .embedding position, .entered .analyzing position, .entered .persisting position] ++
        indexed.map IndexedFile.told

def fileCount (tales : List BatchTale) : Nat := (tales.map (·.files.length)).sum

/-- Where a run is in one of its batches. The batches are numbered from one on, and processed are
the files of the batches before. -/
def positionIn (tales : List BatchTale) (place : Nat) : ScanPosition where
  processed := fileCount (tales.take place)
  total := fileCount tales
  batch := place + 1
  batches := tales.length

/-- What is told of some batches, one after the other. -/
def allEvents (tales : List BatchTale) : List ProgressEvent :=
  (tales.mapIdx fun place tale => tale.events (positionIn tales place)).flatten

/-- What is told of batches from a position on. -/
def eventsFrom (position : ScanPosition) : List BatchTale → List ProgressEvent
  | [] => []
  | tale :: tales =>
    let position := { position with batch := position.batch + 1 }
    tale.events position ++
      eventsFrom { position with processed := position.processed + tale.files.length } tales

theorem eventsFrom_eq (position : ScanPosition) (tales : List BatchTale) :
    eventsFrom position tales = (tales.mapIdx fun place tale => tale.events
      { position with
        processed := position.processed + fileCount (tales.take place)
        batch := position.batch + (place + 1) }).flatten := by
  induction tales generalizing position with
  | nil => rfl
  | cons tale tales induction =>
      have counted : ∀ place, fileCount ((tale :: tales).take (place + 1)) =
          tale.files.length + fileCount (tales.take place) := by
        intro place
        rw [List.take_succ_cons, fileCount, List.map_cons, List.sum_cons]
        rfl
      rw [eventsFrom, induction, List.mapIdx_cons, List.flatten_cons]
      simp only [counted, Nat.add_assoc, Nat.add_comm 1]
      rfl

/-- All that is told of batches is what is told of them from the start on. -/
theorem eventsFrom_start (tales : List BatchTale) :
    eventsFrom { total := fileCount tales, batches := tales.length } tales = allEvents tales := by
  rw [eventsFrom_eq]
  simp only [Nat.zero_add]
  rfl

end BatchTale

/-! ## Files that are written -/

/-- The files that are written when calls are performed one after the other. -/
def StoreGate.filesWritten (gate : StoreGate) (store : Store) (calls : List StoreCall) :
    List IndexedFile :=
  ((gate.writings store calls).filter (·.isDone)).map (·.file)

theorem StoreGate.filesWritten_append (gate : StoreGate) (store : Store)
    (calls later : List StoreCall) : gate.filesWritten store (calls ++ later) =
      gate.filesWritten store calls ++ gate.filesWritten (gate.performAll store calls) later := by
  rw [filesWritten, writings_append, List.filter_append, List.map_append]
  rfl

theorem StoreGate.filesWritten_persist (gate : StoreGate) (store : Store) (project : String)
    (file : IndexedFile) : gate.filesWritten store [.persist project file] =
      if (gate.persist store project file).isOk then [file] else [] := by
  have asked : gate.writings store [.persist project file] =
      [⟨file, (gate.persist store project file).isOk⟩] := rfl
  rw [filesWritten, asked]
  cases (gate.persist store project file).isOk <;> rfl

namespace Indexer

variable (indexer : Indexer)

/-! ## Steps -/

theorem events_remember (path : String) (known : FileState) (time : FileTime) (size : Nat)
    (run : Run) : (indexer.remember path known time size run).events = run.events := by
  unfold remember
  split <;> rfl

theorem events_takeRead (stored : List FileState) (reads : Reads) (place : Nat) (path : String)
    (outcome : ReadOutcome) :
    (indexer.takeRead stored reads place path outcome).run.events = reads.run.events := by
  cases outcome with
  | unchangedByTime size =>
      unfold takeRead
      simp only
      split
      · exact indexer.events_remember _ _ _ _ _
      · rfl
  | ready _ | unchangedByContent _ | oversize | failed => rfl

theorem events_touch (stored : List FileState) (run : Run) (path : String) (time : FileTime) :
    (indexer.touch stored run path time).events = run.events := by
  unfold touch
  simp only
  split
  · rw [events_remember]
    split <;> rfl
  · split <;> rfl

/-- Nothing is told of files that are read. -/
theorem events_readBatch (stored : List FileState) (force : Bool) (batch : List WalkedFile)
    (run : Run) : (indexer.readBatch stored force batch run).2.events = run.events := by
  have touched := foldl_leaves (fun run : Run => run.events)
    fun run (touched : String × FileTime) => indexer.events_touch stored run touched.1 touched.2
  have taken := foldl_leaves (fun reads : Reads => reads.run.events)
    fun reads (outcome : Nat × String × ReadOutcome) =>
      indexer.events_takeRead stored reads outcome.1 outcome.2.1 outcome.2.2
  rw [readBatch_eq]
  exact (touched _ _).trans (taken _ _)

theorem events_embedFiles (candidates : List Candidate) (run : Run) :
    (indexer.embedFiles candidates run).2.2.events = run.events := by
  unfold embedFiles
  simp only
  split
  · rfl
  · split <;> rfl

theorem events_embedChunks (files : List IndexedFile) (run : Run) :
    (indexer.embedChunks files run).2.events = run.events := by
  unfold embedChunks
  simp only
  split
  · rfl
  · split <;> rfl

theorem events_checkMemory (run : Run) : (indexer.checkMemory run).events = run.events := by
  unfold checkMemory
  simp only
  split
  · rfl
  · split <;> rfl

theorem events_prune (run : Run) (path : String) :
    (indexer.prune run path).events = run.events := by
  unfold prune
  simp only
  split <;> rfl

/-- A file is told of once it has been written. -/
theorem events_persistAll (files : List IndexedFile) (run : Run) :
    (files.foldl indexer.persist run).events = run.events ++
      (indexer.gate.filesWritten run.store (indexer.persistCalls files)).map IndexedFile.told := by
  induction files generalizing run with
  | nil => exact (List.append_nil _).symm
  | cons file files induction =>
      have next : (indexer.persist run file).store =
          indexer.gate.perform run.store (.persist indexer.project file) :=
        indexer.store_persist run file
      have first : (indexer.persist run file).events = run.events ++
          (indexer.gate.filesWritten run.store
            [.persist indexer.project file]).map IndexedFile.told := by
        rw [StoreGate.filesWritten_persist]
        unfold persist
        cases indexer.gate.persist run.store indexer.project file with
        | error error => exact (List.append_nil _).symm
        | ok answer => rfl
      have calls : indexer.persistCalls (file :: files) =
          [.persist indexer.project file] ++ indexer.persistCalls files := rfl
      rw [List.foldl_cons, induction, first, next, calls, StoreGate.filesWritten_append,
        List.map_append, List.append_assoc]
      rfl

/-! ## Batches -/

/-- Of files that have to be indexed it is told that they are embedded, analysed and stored, and
then which of them have been written. -/
theorem events_indexCandidates (position : ScanPosition) (candidates : List Candidate)
    (run : Run) : (indexer.indexCandidates position candidates run).events = run.events ++
      ([.entered .embedding position, .entered .analyzing position, .entered .persisting position] ++
        (indexer.gate.filesWritten run.store
          (indexer.persistCalls (indexer.finishedFiles candidates))).map IndexedFile.told) := by
  have same := indexer.embedFiles_eq candidates (run.enter .embedding position)
  let embedded := (indexer.embedFiles candidates (run.enter .embedding position)).2.2
  have told : embedded.events = run.events ++ [.entered .embedding position] :=
    indexer.events_embedFiles candidates _
  have kept : embedded.store = run.store := indexer.store_embedFiles candidates _
  -- Whether chunks are embedded or not, the files are stored by a run that has told as much.
  have stored : ∀ (files : List IndexedFile) (ready : Run), ready.store = run.store →
      ready.events = embedded.events ++ [.entered .analyzing position] →
      (files.foldl indexer.persist (ready.enter .persisting position)).events = run.events ++
        ([.entered .embedding position, .entered .analyzing position,
          .entered .persisting position] ++
        (indexer.gate.filesWritten run.store (indexer.persistCalls files)).map
          IndexedFile.told) := by
    intro files ready sameStore isTold
    have entered : (ready.enter .persisting position).events =
        ready.events ++ [.entered .persisting position] := rfl
    have enteredStore : (ready.enter .persisting position).store = run.store := sameStore
    rw [events_persistAll, entered, enteredStore, isTold, told, List.append_assoc,
      List.append_assoc, List.append_assoc]
    rfl
  unfold indexCandidates finishedFiles
  simp only [← same.1, ← same.2]
  split
  · rw [← indexer.embedChunks_eq]
    refine stored _ _ ?_ (indexer.events_embedChunks _ _)
    exact (indexer.store_embedChunks _ _).trans kept
  · exact stored _ _ kept rfl

/-- What becomes of a batch. -/
def taleOf (stored : List FileState) (force : Bool) (store : Store) (batch : List WalkedFile) :
    BatchTale where
  files := batch
  indexed? :=
    if (indexer.candidatesOf stored force batch).isEmpty then none
    else some (indexer.gate.filesWritten store (indexer.batchCalls stored force batch))

theorem filesWritten_batchCalls (stored : List FileState) (force : Bool) (store : Store)
    (batch : List WalkedFile) :
    indexer.gate.filesWritten store (indexer.batchCalls stored force batch) =
      indexer.gate.filesWritten
        (indexer.gate.performAll store
          (indexer.touchCalls (indexer.touchesOf stored force batch)))
        (indexer.persistCalls (indexer.finishedFiles
          (indexer.candidatesOf stored force batch))) := by
  have touched := indexer.gate.writings_eq_nil store
    (indexer.file?_touchCalls (indexer.touchesOf stored force batch))
  have nothing : indexer.gate.filesWritten store
      (indexer.touchCalls (indexer.touchesOf stored force batch)) = [] := by
    rw [StoreGate.filesWritten, touched]
    rfl
  rw [batchCalls, StoreGate.filesWritten_append, nothing, List.nil_append]

/-- No file is written of a batch in which there is nothing to do. -/
theorem indexed_taleOf (stored : List FileState) (force : Bool) (store : Store)
    (batch : List WalkedFile) : (indexer.taleOf stored force store batch).indexed =
      indexer.gate.filesWritten store (indexer.batchCalls stored force batch) := by
  unfold taleOf BatchTale.indexed
  simp only
  split
  · next none =>
      have nothing : indexer.finishedFiles [] = [] :=
        List.map_eq_nil_iff.mp (indexer.map_bare_finishedFiles [])
      rw [filesWritten_batchCalls, List.isEmpty_iff.mp none, nothing]
      rfl
  · rfl

theorem events_processBatch (stored : List FileState) (force : Bool) (position : ScanPosition)
    (batch : List WalkedFile) (run : Run) :
    (indexer.processBatch stored force position batch run).events =
      run.events ++ (indexer.taleOf stored force run.store batch).events position := by
  let entered := run.enter .readingAndFiltering position
  have candidates := indexer.candidates_readBatch stored force batch entered
  have read : (indexer.readBatch stored force batch entered).2.events =
      run.events ++ [.entered .readingAndFiltering position] :=
    indexer.events_readBatch stored force batch entered
  have left : (indexer.readBatch stored force batch entered).2.store =
      indexer.gate.performAll run.store
        (indexer.touchCalls (indexer.touchesOf stored force batch)) :=
    indexer.store_readBatch stored force batch entered
  unfold processBatch taleOf BatchTale.events
  simp only
  rw [events_checkMemory, candidates]
  split
  · exact read
  · rw [events_indexCandidates, read, left, ← filesWritten_batchCalls, List.append_assoc]
    rfl

/-- What becomes of batches that are worked off one after the other. -/
def talesOf (stored : List FileState) (force : Bool) : Store → List (List WalkedFile) →
    List BatchTale
  | _, [] => []
  | store, batch :: parts =>
    indexer.taleOf stored force store batch ::
      talesOf stored force
        (indexer.gate.performAll store (indexer.batchCalls stored force batch)) parts

variable {stored : List FileState} {force : Bool}

theorem files_talesOf (store : Store) (parts : List (List WalkedFile)) :
    (indexer.talesOf stored force store parts).map (·.files) = parts := by
  induction parts generalizing store with
  | nil => rfl
  | cons batch parts induction => exact congrArg (List.cons batch) (induction _)

theorem flatMap_indexed_talesOf (store : Store) (parts : List (List WalkedFile)) :
    (indexer.talesOf stored force store parts).flatMap (·.indexed) =
      indexer.gate.filesWritten store
        (parts.flatMap (indexer.batchCalls stored force)) := by
  induction parts generalizing store with
  | nil => rfl
  | cons batch parts induction =>
      rw [talesOf, List.flatMap_cons, List.flatMap_cons, StoreGate.filesWritten_append, induction,
        indexed_taleOf]

theorem exists_taleOf {store : Store} {parts : List (List WalkedFile)} {tale : BatchTale}
    (member : tale ∈ indexer.talesOf stored force store parts) :
    ∃ before batch, tale = indexer.taleOf stored force before batch := by
  induction parts generalizing store with
  | nil => exact absurd member List.not_mem_nil
  | cons batch parts induction =>
      rcases List.mem_cons.mp member with rfl | member
      · exact ⟨store, batch, rfl⟩
      · exact induction member

theorem fileCount_talesOf (store : Store) (files : List WalkedFile) {size : Nat}
    (positive : 0 < size) :
    BatchTale.fileCount (indexer.talesOf stored force store (batches size files)) =
      files.length := by
  have lengths : (indexer.talesOf stored force store (batches size files)).map (·.files.length) =
      (batches size files).map List.length := by
    rw [← indexer.files_talesOf store (batches size files), List.map_map,
      indexer.files_talesOf store (batches size files)]
    rfl
  rw [BatchTale.fileCount, lengths, ← List.length_flatten, flatten_batches positive]

/-- Of files that are worked off it is told what becomes of their batches. -/
theorem events_processFiles (stored : List FileState) (force : Bool) (files : List WalkedFile)
    (run : Run) : (indexer.processFiles stored force files run).events = run.events ++
      BatchTale.allEvents (indexer.talesOf stored force run.store
        (batches (batchSize indexer.config.scan files.length) files)) := by
  -- Every batch starts where the batches before it have come to.
  have all : ∀ (parts : List (List WalkedFile)) (run : Run) (position : ScanPosition),
      (parts.foldl (indexer.batchStep stored force) (run, position)).1.events = run.events ++
        BatchTale.eventsFrom position (indexer.talesOf stored force run.store parts) := by
    intro parts
    induction parts with
    | nil => exact fun run _ => (List.append_nil run.events).symm
    | cons batch parts induction =>
        intro run position
        rw [List.foldl_cons, batchStep, induction, events_processBatch, store_processBatch,
          talesOf, BatchTale.eventsFrom, List.append_assoc]
        rfl
  have size := batchSize_pos indexer.config.scan files.length
  have count := congrArg List.length (@files_talesOf indexer stored force
    run.store (batches (batchSize indexer.config.scan files.length) files))
  rw [List.length_map] at count
  rw [← BatchTale.eventsFrom_start, indexer.fileCount_talesOf run.store files size, count]
  exact all _ run _

/-- The files told of in a batch are files of the batch, in their order. -/
theorem sublist_path_filesWritten (store : Store) (batch : List WalkedFile) :
    ((indexer.gate.filesWritten store (indexer.batchCalls stored force batch)).map
      (·.path)).Sublist (batch.map (·.path)) := by
  let calls := indexer.batchCalls stored force batch
  have written : (indexer.gate.filesWritten store calls).Sublist
      (calls.filterMap StoreCall.file?) := by
    rw [← indexer.gate.map_file_writings store]
    exact List.filter_sublist.map _
  have asked : calls.filterMap StoreCall.file? =
      indexer.finishedFiles (indexer.candidatesOf stored force batch) := by
    unfold calls batchCalls
    rw [List.filterMap_append, file?_touchCalls, file?_persistCalls, List.nil_append]
  have candidates : ((indexer.candidatesOf stored force batch).map (·.path)).Sublist
      (batch.map (·.path)) := by
    apply sublist_map_filterMap
    intro file candidate ready
    rw [indexer.candidate?_outcomeOf ready]
    rfl
  have paths := map_path_of_forall₂ (fun _ _ => path_of_bare)
    (indexer.finishes_bare (indexer.candidatesOf stored force batch))
  rw [asked] at written
  exact (written.map _).trans (paths ▸ candidates)

theorem sublist_path_talesOf (store : Store) (parts : List (List WalkedFile)) :
    (((indexer.talesOf stored force store parts).flatMap (·.indexed)).map (·.path)).Sublist
      (parts.flatten.map (·.path)) := by
  induction parts generalizing store with
  | nil => exact .slnil
  | cons batch parts induction =>
      rw [talesOf, List.flatMap_cons, List.map_append, indexed_taleOf, List.flatten_cons,
        List.map_append]
      exact (indexer.sublist_path_filesWritten store batch).append (induction _)

/-! ## Runs -/

/-- That a run begins to work off files, which is told unless it has failed before. -/
def startOf? : IndexerRun → Option ProgressEvent
  | .scan disk mode =>
    if (indexer.rootTree? disk).isSome && (indexer.gate.refuses .load "").isNone then
      some (.started indexer.project indexer.root mode (indexer.filesOn disk).length)
    else none
  | .indexPaths disk paths =>
    if (indexer.rootTree? disk).isSome then
      some (.started indexer.project indexer.root .incremental
        (indexer.filesAt disk paths).length)
    else none
  | .removePaths _ | .restart => none

/-- What is recorded of the files of a run when it begins to work them off. -/
def recordedFor (state : IndexState) : IndexerRun → List FileState
  | .scan _ _ => state.store.states indexer.project
  | .indexPaths disk paths => (indexer.leftAt disk paths state.store).states indexer.project
  | .removePaths _ | .restart => []

/-- Whether a file of a run has to be indexed. -/
def needsWork (state : IndexState) (run : IndexerRun) (file : WalkedFile) : Bool :=
  let force := match run with
    | .scan _ mode => mode = .force
    | _ => false
  (indexer.outcomeOf (indexer.recordedFor state run) force file).candidate?.isSome

/-- All that is told of a run. -/
def eventsOf (state : IndexState) : IndexerRun → List ProgressEvent
  | .scan disk mode => (indexer.scan disk mode state).2.events
  | .indexPaths disk paths => (indexer.indexPaths disk paths state).2.events
  | .removePaths _ | .restart => []

/-- Whether a run is told of by what has become of its batches. -/
structure TellsBy (state : IndexState) (run : IndexerRun) (report : ScanReport)
    (tales : List BatchTale) : Prop where
  events : indexer.eventsOf state run =
    .entered .scanning {} :: (indexer.startOf? run).toList ++ BatchTale.allEvents tales ++
      [.completed indexer.root report.stats report.success]
  unstarted : indexer.startOf? run = none → report.success = false
  batches : tales.map (·.files) =
    if report.success then indexer.batchesOf run else []
  worked : ∀ tale ∈ tales, tale.indexed?.isSome = tale.files.any (indexer.needsWork state run)
  within : ∀ tale ∈ tales,
    (tale.indexed.map (·.path)).Sublist (tale.files.map (·.path))
  inOrder : ((tales.flatMap (·.indexed)).map (·.path)).Pairwise (· < ·)
  indexed : (tales.flatMap (·.indexed)).length = report.stats.indexed
  totalLines : ((tales.flatMap (·.indexed)).map (·.lineCount)).sum = report.stats.totalLines

variable {indexer}

/-- A run that fails is told of without any batches. -/
theorem tellsBy_nil {state : IndexState} {run : IndexerRun} {report : ScanReport}
    (events : indexer.eventsOf state run = .entered .scanning {} ::
      (indexer.startOf? run).toList ++ [.completed indexer.root report.stats false])
    (fails : report.success = false) (indexed : report.stats.indexed = 0)
    (totalLines : report.stats.totalLines = 0) : indexer.TellsBy state run report [] where
  events := by
    rw [fails]
    exact events.trans (congrArg (· ++ _) (List.append_nil _).symm)
  unstarted _ := fails
  batches := by
    rw [fails]
    rfl
  worked := List.forall_mem_nil _
  within := List.forall_mem_nil _
  inOrder := .nil
  indexed := indexed.symm
  totalLines := totalLines.symm

theorem isSome_indexed?_taleOf (store : Store) (batch : List WalkedFile) :
    (indexer.taleOf stored force store batch).indexed?.isSome =
      batch.any fun file => (indexer.outcomeOf stored force file).candidate?.isSome := by
  have idle : (indexer.candidatesOf stored force batch).isEmpty =
      ! batch.any fun file => (indexer.outcomeOf stored force file).candidate?.isSome := by
    rw [Bool.eq_iff_iff, List.isEmpty_iff, candidatesOf, List.filterMap_eq_nil_iff,
      Bool.not_eq_true', List.any_eq_false]
    simp only [Bool.not_eq_true, Option.isSome_eq_false_iff, Option.isNone_iff_eq_none]
  unfold taleOf
  simp only [idle]
  cases batch.any fun file => (indexer.outcomeOf stored force file).candidate?.isSome <;> rfl

/-- A run that succeeds is told of by the batches of all its files. -/
theorem tellsBy_talesOf {state : IndexState} {run : IndexerRun} {report : ScanReport}
    (succeeds : report.success = true) {store : Store} {start : ProgressEvent}
    (starts : indexer.startOf? run = some start)
    (events : indexer.eventsOf state run = [.entered .scanning {}, start] ++
      BatchTale.allEvents (indexer.talesOf stored force store
        (indexer.batchesOf run)) ++ [.completed indexer.root report.stats true])
    (works : ∀ file, indexer.needsWork state run file =
      (indexer.outcomeOf stored force file).candidate?.isSome)
    (sorted : ((indexer.filesOf run).map (·.path)).Pairwise (· < ·))
    (isTally : report.stats.tally =
      ({ totalFiles := (indexer.filesOf run).length } : ScanStats).plus
        (ScanStats.ofWork ((indexer.filesOf run).map (indexer.outcomeOf stored force))
          (indexer.gate.writings store (indexer.fileCalls stored force (indexer.filesOf run))))) :
    indexer.TellsBy state run report
      (indexer.talesOf stored force store (indexer.batchesOf run)) := by
  have indexed := congrArg (·.indexed) isTally
  have totalLines := congrArg (·.totalLines) isTally
  simp only [ScanStats.tally, ScanStats.plus, ScanStats.ofWork, Nat.zero_add] at indexed totalLines
  have written : (indexer.talesOf stored force store (indexer.batchesOf run)).flatMap (·.indexed) =
      indexer.gate.filesWritten store (indexer.fileCalls stored force (indexer.filesOf run)) :=
    indexer.flatMap_indexed_talesOf store _
  constructor
  · rw [events, starts, succeeds]
    rfl
  · intro unstarted
    rw [starts] at unstarted
    cases unstarted
  · rw [files_talesOf, succeeds]
    rfl
  · intro tale member
    rcases indexer.exists_taleOf member with ⟨before, batch, rfl⟩
    rw [isSome_indexed?_taleOf]
    congr 1
    funext file
    exact (works file).symm
  · intro tale member
    rcases indexer.exists_taleOf member with ⟨before, batch, rfl⟩
    rw [indexed_taleOf]
    exact indexer.sublist_path_filesWritten before batch
  · have paths := @sublist_path_talesOf indexer stored force store (indexer.batchesOf run)
    rw [flatten_batchesOf] at paths
    exact sorted.sublist paths
  · rw [written, indexed, StoreGate.filesWritten, List.length_map, List.countP_eq_length_filter]
  · rw [written, totalLines, StoreGate.filesWritten, List.map_map]
    rfl

/-! ## Scans -/

theorem started_scan {disk : FileTree} {mode : ScanMode} {state : IndexState}
    (succeeds : (indexer.scan disk mode state).1.success = true) :
    indexer.startOf? (.scan disk mode) =
      some (.started indexer.project indexer.root mode (indexer.filesOn disk).length) := by
  rcases reaches_of_success succeeds with ⟨isThere, loads⟩
  rw [startOf?, isThere, loads]
  rfl

theorem events_scan {disk : FileTree} {mode : ScanMode} {state : IndexState}
    (succeeds : (indexer.scan disk mode state).1.success = true) :
    let files := indexer.filesOn disk
    let scanned := indexer.scan disk mode state
    scanned.2.events =
      [.entered .scanning {}, .started indexer.project indexer.root mode files.length] ++
        BatchTale.allEvents (indexer.talesOf (state.store.states indexer.project) (mode = .force)
          state.store (indexer.batchesOf (.scan disk mode))) ++
        [.completed indexer.root scanned.1.stats true] := by
  intro files scanned
  rcases reaches_of_success succeeds with ⟨isThere, loads⟩
  have ended : scanned = indexer.finish (indexer.scanned disk mode state) none :=
    indexer.scan_eq mode state isThere loads
  have worked := indexer.events_processFiles (state.store.states indexer.project)
    (mode = .force) files (indexer.begun mode files state)
  have prunes := foldl_leaves (fun run : Run => run.events) indexer.events_prune
  have told : (indexer.scanned disk mode state).events =
      (indexer.processFiles (state.store.states indexer.project) (mode = .force) files
        (indexer.begun mode files state)).events := by
    unfold Indexer.scanned
    simp only
    split
    · exact prunes _ _
    · rfl
  rw [ended]
  exact congrArg (· ++ _) (told.trans worked)

theorem tellsBy_scan {disk : FileTree} (proper : disk.IsProper) (mode : ScanMode)
    (state : IndexState) :
    ∃ tales, indexer.TellsBy state (.scan disk mode) (indexer.scan disk mode state).1 tales := by
  cases ends : (indexer.scan disk mode state).1.success with
  | true =>
      refine ⟨_, tellsBy_talesOf ends (started_scan ends) (events_scan ends) (fun _ => rfl) ?_
        (tally_scan ends)⟩
      rcases Option.isSome_iff_exists.mp (reaches_of_success ends).1 with ⟨tree, isThere⟩
      have walked : indexer.filesOf (.scan disk mode) = _ := filesOn_eq isThere
      rw [walked]
      exact FileTree.pairwise_walk _ _ (isProper_rootTree proper isThere)
  | false =>
      rcases scan_of_failed ends with ⟨error, ended⟩
      refine ⟨[], tellsBy_nil ?_ ends (by rw [ended]; rfl) (by rw [ended]; rfl)⟩
      have unstarted : indexer.startOf? (.scan disk mode) = none := by
        rw [startOf?, if_neg]
        rw [Bool.and_eq_true, Option.isNone_iff_eq_none]
        rintro ⟨isThere, loads⟩
        rcases success_scan_eq_false_iff.mp ends with missing | refused
        · rw [missing] at isThere
          cases isThere
        · rw [loads] at refused
          cases refused
      rw [unstarted, eventsOf, ended]
      rfl

/-! ## Paths -/

section

variable {disk : FileTree} {paths : List String} {state : IndexState}

theorem started_indexPaths (isThere : (indexer.rootTree? disk).isSome) :
    indexer.startOf? (.indexPaths disk paths) = some
      (.started indexer.project indexer.root .incremental (indexer.filesAt disk paths).length) :=
  if_pos isThere

theorem events_indexPaths (succeeds : (indexer.indexPaths disk paths state).1.success = true) :
    let left := indexer.leftAt disk paths state.store
    let files := indexer.filesAt disk paths
    let ended := indexer.indexPaths disk paths state
    ended.2.events =
      [.entered .scanning {},
        .started indexer.project indexer.root .incremental files.length] ++
        BatchTale.allEvents (indexer.talesOf (left.states indexer.project) false left
          (indexer.batchesOf (.indexPaths disk paths))) ++
        [.completed indexer.root ended.1.stats true] := by
  intro left files ended
  have worked := indexer.events_processFiles (left.states indexer.project) false files
    (indexer.cleared disk paths state)
  have same : ended = _ := indexPaths_of_success succeeds
  rw [same]
  exact congrArg (· ++ _) worked

/-- What indexing paths does when its root is there. -/
theorem indexPaths_begun (isThere : (indexer.rootTree? disk).isSome) :
    let files := indexer.filesAt disk paths
    let begun := indexer.begun .incremental files state
    let removal := indexer.removePaths (indexer.goneAt disk paths) 0 begun.toIndexState
    let run : Run := { begun with toIndexState := removal.2 }
    indexer.indexPaths disk paths state =
      match removal.1 with
      | .error error => indexer.finish run (some (.store error))
      | .ok removed =>
        let run := run.count fun stats => { stats with pruned := stats.pruned + removed }
        if files.isEmpty then indexer.finish run none
        else
          match indexer.gate.states run.store indexer.project with
          | .error error => indexer.finish run (some (.store error))
          | .ok stored => indexer.finish (indexer.processFiles stored false files run) none := by
  rcases Option.isSome_iff_exists.mp isThere with ⟨tree, found⟩
  unfold indexPaths
  rw [found]
  rfl

/-- Indexing paths that fails has told how many files there are unless the root is not there, and
nothing of them. -/
theorem indexPaths_of_failed
    (fails : (indexer.indexPaths disk paths state).1.success = false) :
    ∃ (run : Run) (error : ScanError),
      indexer.indexPaths disk paths state = indexer.finish run (some error) ∧
      run.events =
        .entered .scanning {} :: (indexer.startOf? (.indexPaths disk paths)).toList ∧
      run.stats.indexed = 0 ∧ run.stats.totalLines = 0 := by
  cases found : indexer.rootTree? disk with
  | none =>
      refine ⟨(Run.ofState state).enter .scanning {}, .invalidRoot indexer.root, ?_, ?_, rfl, rfl⟩
      · unfold indexPaths
        rw [found]
      · rw [startOf?, found]
        rfl
  | some tree =>
      have isThere := Option.isSome_of_eq_some found
      let begun := indexer.begun .incremental (indexer.filesAt disk paths) state
      let removal := indexer.removePaths (indexer.goneAt disk paths) 0 begun.toIndexState
      let run : Run := { begun with toIndexState := removal.2 }
      rw [started_indexPaths isThere]
      rw [indexPaths_begun isThere] at fails ⊢
      cases removed : removal.1 with
      | error error => exact ⟨run, .store error, rfl, rfl, rfl, rfl⟩
      | ok count =>
          simp only [removal, begun] at removed
          simp only [removed] at fails ⊢
          split at fails
          · cases fails
          · next some =>
              rw [if_neg some]
              split at fails
              · next error refused =>
                  refine ⟨run.count fun stats => { stats with pruned := stats.pruned + count },
                    .store error, rfl, rfl, rfl, rfl⟩
              · cases fails

theorem tellsBy_indexPaths (disk : FileTree) (paths : List String) (state : IndexState) :
    ∃ tales, indexer.TellsBy state (.indexPaths disk paths)
      (indexer.indexPaths disk paths state).1 tales := by
  cases ends : (indexer.indexPaths disk paths state).1.success with
  | true =>
      refine ⟨_, tellsBy_talesOf ends (started_indexPaths (accepts_of_indexPaths ends).1)
        (events_indexPaths ends) (fun _ => rfl) ?_ (tally_indexPaths ends)⟩
      exact List.pairwise_map.mpr (pairwise_dropRepeats (pairwise_mergeSort_key WalkedFile.path _))
  | false =>
      rcases indexPaths_of_failed ends with ⟨run, error, ended, told, indexed, totalLines⟩
      rw [ended] at ends ⊢
      refine ⟨[], tellsBy_nil ?_ ends indexed totalLines⟩
      rw [eventsOf, ended]
      exact congrArg (· ++ _) told

end

end Indexer

/-- What is told of a scan, or of indexing some paths: that it begins, unless it has failed by then,
then batch by batch what is done with it and which of its files have been indexed, and how the run
has ended. The batches are numbered and the files before them are counted; there is nothing to do
but with batches that have a file which is new or has changed; the files come in the order of their
paths, and they and their lines are as many as the report says. -/
theorem run_tells_progress {indexer : Indexer} {state : IndexState} {run : IndexerRun}
    {report : ScanReport} (reports : indexer.reportOf state run = some report)
    (proper : ∀ disk mode, run = .scan disk mode → disk.IsProper) :
    ∃ tales, indexer.TellsBy state run report tales := by
  cases run with
  | scan disk mode =>
      cases reports
      exact Indexer.tellsBy_scan (proper disk mode rfl) mode state
  | indexPaths disk paths =>
      cases reports
      exact Indexer.tellsBy_indexPaths disk paths state
  | removePaths paths => cases reports
  | restart => cases reports

/-- A scan that indexes a file which is new, and cannot write one that has changed, has told of
both as files of a batch that has been worked off. -/
theorem scan_tells_progress :
    let indexer := hinderedIndexer [(.persist, "a.rs")]
    let disk := FileTree.ofFiles laterFiles
    let ended := indexer.scan disk .force formerIndex
    ended.1.success = true ∧
      ∃ tales, indexer.TellsBy formerIndex (.scan disk .force) ended.1 tales ∧
        ∃ tale ∈ tales, ⟨"a.rs", sampleContent "struct X;" 2⟩ ∈ tale.files ∧
          tale.indexed?.isSome := by
  intro indexer disk ended
  have finds := findsBare_hinderedIndexer [(.persist, "a.rs")]
  rcases @run_tells_progress indexer formerIndex (.scan disk .force) ended.1 rfl
    (fun _ _ same => by cases same; exact finds.proper) with ⟨tales, tells⟩
  have succeeds : ended.1.success = true := by
    rw [← Bool.not_eq_false]
    intro fails
    rcases Indexer.success_scan_eq_false_iff.mp fails with missing | refused
    · cases missing.symm.trans finds.isThere
    · cases refused
  refine ⟨succeeds, tales, tells, ?_⟩
  have batches := tells.batches
  rw [if_pos succeeds] at batches
  let changed : WalkedFile := ⟨"a.rs", sampleContent "struct X;" 2⟩
  have isThere : changed ∈ indexer.filesOf (.scan disk .force) :=
    finds.mem_filesOn.mpr ⟨["a.rs"], rfl, rfl, by decide⟩
  rw [← Indexer.flatten_batchesOf, ← batches, List.mem_flatten] at isThere
  rcases isThere with ⟨files, member, isThere⟩
  rcases List.mem_map.mp member with ⟨tale, isTold, rfl⟩
  refine ⟨tale, isTold, isThere, ?_⟩
  rw [tells.worked tale isTold, List.any_eq_true]
  exact ⟨changed, isThere, Indexer.isSome_candidate_forced (by decide) (by decide) _⟩

end SourceIndex
