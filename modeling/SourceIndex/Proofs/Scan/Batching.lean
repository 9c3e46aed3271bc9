import SourceIndex.Proofs.Scan.Following
import SourceIndex.Proofs.Scan.Steps

/-! How files are cut into batches makes no difference to what a scan comes to, nor does the order
in which the reads of a batch come in: it comes to the same as working off one file after the other.
-/

namespace SourceIndex

/-! ## Two passes as one -/

/-- Two passes over some items are one if what the second one does with an item can change places
with what the first one does with later items. -/
theorem foldl_foldl_eq {α β : Type} {first second : β → α → β} {items : List α}
    (apart : items.Pairwise fun item later => ∀ state,
      first (second state item) later = second (first state later) item) (state : β) :
    items.foldl second (items.foldl first state) =
      items.foldl (fun state item => second (first state item) item) state := by
  induction items generalizing state with
  | nil => rfl
  | cons item items induction =>
      rw [List.pairwise_cons] at apart
      have moved : ∀ (rest : List α), (∀ later ∈ rest, ∀ state,
          first (second state item) later = second (first state later) item) → ∀ state,
          second (rest.foldl first state) item = rest.foldl first (second state item) := by
        intro rest
        induction rest with
        | nil => exact fun _ _ => rfl
        | cons later rest induction =>
            intro apart state
            rw [List.forall_mem_cons] at apart
            rw [List.foldl_cons, List.foldl_cons, induction apart.2, apart.1]
      rw [List.foldl_cons, List.foldl_cons, List.foldl_cons, moved items apart.1,
        induction apart.2]

/-! ## Batches and reads -/

/-- How files are cut into batches, and how many of them are read at a time. -/
structure Batching where
  floor : Nat
  ceiling : Nat
  count : Nat
  concurrency : Nat

/-- An order in which the reads of each batch come in, whatever makes it up. -/
structure Arrival where
  order : (batch : Nat) → List (Nat × String × ReadOutcome) → List (Nat × String × ReadOutcome)
  isPerm : ∀ batch outcomes, (order batch outcomes).Perm outcomes

def Arrival.inOrder : Arrival := ⟨fun _ outcomes => outcomes, fun _ _ => .rfl⟩

def Arrival.reversed : Arrival :=
  ⟨fun _ outcomes => outcomes.reverse, fun _ outcomes => outcomes.reverse_perm⟩

namespace Indexer

/-- An indexer that cuts files into other batches. -/
def batched (indexer : Indexer) (batching : Batching) : Indexer :=
  { indexer with
    config.scan.batchFloor := batching.floor
    config.scan.batchCeiling := batching.ceiling
    config.scan.targetBatchCount := batching.count
    config.scan.readConcurrency := batching.concurrency }

variable (indexer : Indexer)

def readArriving (arrival : Arrival) (number : Nat) (stored : List FileState) (force : Bool)
    (batch : List WalkedFile) (run : Run) : List Candidate × Run :=
  indexer.collectReads stored run (arrival.order number (indexer.outcomesOf stored force batch))

def processBatchArriving (arrival : Arrival) (stored : List FileState) (force : Bool)
    (position : ScanPosition) (batch : List WalkedFile) (run : Run) : Run :=
  let run := run.enter .readingAndFiltering position
  let (candidates, run) := indexer.readArriving arrival position.batch stored force batch run
  let run := if candidates.isEmpty then run else indexer.indexCandidates position candidates run
  indexer.checkMemory run

def processFilesArriving (arrival : Arrival) (stored : List FileState) (force : Bool)
    (files : List WalkedFile) (run : Run) : Run :=
  let parts := batches (batchSize indexer.config.scan files.length) files
  let start : ScanPosition := { total := files.length, batches := parts.length }
  (parts.foldl (fun (run, position) batch =>
    let position := { position with batch := position.batch + 1 }
    (indexer.processBatchArriving arrival stored force position batch run,
      { position with processed := position.processed + batch.length })) (run, start)).1

/-- A scan whose reads come in in a certain order. -/
def scanArriving (arrival : Arrival) (disk : FileTree) (mode : ScanMode) (state : IndexState) :
    ScanReport × Run :=
  let run := (Run.ofState state).enter .scanning {}
  match indexer.rootTree? disk with
  | none => indexer.finish run (some (.invalidRoot indexer.root))
  | some tree =>
    let files := tree.walk indexer.options indexer.policy
    match indexer.gate.states run.store indexer.project with
    | .error error => indexer.finish run (some (.store error))
    | .ok stored =>
      let run := run.count fun stats => { stats with totalFiles := files.length }
      let run := run.emit (.started indexer.project indexer.root mode files.length)
      let run := indexer.processFilesArriving arrival stored (mode = .force) files run
      let run := if indexer.config.scan.pruneMissing
        then indexer.pruneMissing stored (files.map (·.path)) run else run
      indexer.finish run none

/-- A scan is one whose reads come in in the order of the batch. -/
theorem scanArriving_inOrder : indexer.scanArriving .inOrder = indexer.scan := rfl

/-! ## One file -/

/-- What has come of a file when it has been read, and touched if only its time has changed. -/
def noted (stored : List FileState) (force : Bool) (result : RunResult) (file : WalkedFile) :
    RunResult :=
  let outcome := indexer.outcomeOf stored force file
  let read := result.note indexer file.path (indexer.readNote stored file.path outcome)
  match outcome.touchTime? with
  | some time => read.note indexer file.path (indexer.touchNote stored file.path time)
  | none => read

/-- What is counted when a file to be indexed has got its vector. -/
def embeddedCount (candidate : Candidate) : ScanStats where
  embedded :=
    if indexer.config.embedding.enabled && candidate.fileClass.isEmbeddable then 1 else 0

/-- What has come of a file when it has been written, if it has to be indexed. -/
def written (vectorOf : String → Embedding) (stored : List FileState) (force : Bool)
    (result : RunResult) (file : WalkedFile) : RunResult :=
  match (indexer.outcomeOf stored force file).candidate? with
  | some candidate =>
    (result.count (indexer.embeddedCount candidate)).persist indexer
      (indexer.finishedBy vectorOf candidate)
  | none => result

/-- What has come of a file when it has been worked off. -/
def workedOff (vectorOf : String → Embedding) (stored : List FileState) (force : Bool)
    (result : RunResult) (file : WalkedFile) : RunResult :=
  indexer.written vectorOf stored force (indexer.noted stored force result file) file

variable {indexer} {vectorOf : String → Embedding} {stored : List FileState} {force : Bool}

/-! ## Reading -/

/-- What several steps come to is what each of them comes to in turn. -/
theorem result_foldl {α : Type} {step : Run → α → Run} (next : RunResult → α → RunResult)
    (each : ∀ run item, (step run item).result = next run.result item) (items : List α)
    (run : Run) :
    (items.foldl step run).result = items.foldl next run.result := by
  induction items generalizing run with
  | nil => rfl
  | cons item items induction => rw [List.foldl_cons, List.foldl_cons, induction, each]

theorem result_takeReads (outcomes : List (Nat × String × ReadOutcome)) (reads : Reads) :
    (outcomes.foldl (fun reads (place, path, outcome) =>
      indexer.takeRead stored reads place path outcome) reads).run.result =
      outcomes.foldl (fun result outcome =>
        result.note indexer outcome.2.1 (indexer.readNote stored outcome.2.1 outcome.2.2))
        reads.run.result := by
  induction outcomes generalizing reads with
  | nil => rfl
  | cons outcome outcomes induction =>
      rw [List.foldl_cons, List.foldl_cons, induction, indexer.result_takeRead]

theorem result_touches (touches : List (String × FileTime)) (run : Run) :
    (touches.foldl (fun run (path, time) => indexer.touch stored run path time) run).result =
      touches.foldl (fun result touched => result.note indexer touched.1
        (indexer.touchNote stored touched.1 touched.2)) run.result :=
  result_foldl _ (fun run touched => indexer.result_touch stored run touched.1 touched.2) touches
    run

/-- Notes about files of different paths come to the same in any order. -/
theorem foldl_note_perm {α : Type} {pathOf : α → String} {noteOf : α → FileNote}
    {items arrived : List α} (isPerm : arrived.Perm items) (once : (items.map pathOf).Nodup)
    (result : RunResult) :
    arrived.foldl (fun result item => result.note indexer (pathOf item) (noteOf item)) result =
      items.foldl (fun result item => result.note indexer (pathOf item) (noteOf item)) result := by
  apply isPerm.foldl_eq'
  intro item member other otherMember result
  by_cases same : pathOf item = pathOf other
  · have sameItem := List.inj_on_of_nodup_map once (isPerm.mem_iff.mp member)
      (isPerm.mem_iff.mp otherMember) same
    rw [sameItem]
  · exact RunResult.note_comm same _ _

variable {batch : List WalkedFile} (once : (batch.map (·.path)).Nodup)

theorem map_path_outcomesOf :
    (indexer.outcomesOf stored force batch).map (·.2.1) = batch.map (·.path) := by
  unfold outcomesOf
  rw [List.map_map]
  conv => rhs; rw [← List.zipIdx_map_fst 0 batch, List.map_map]
  rfl

theorem foldl_outcomesOf (result : RunResult) :
    (indexer.outcomesOf stored force batch).foldl (fun result outcome =>
      result.note indexer outcome.2.1 (indexer.readNote stored outcome.2.1 outcome.2.2)) result =
      batch.foldl (fun result file => result.note indexer file.path
        (indexer.readNote stored file.path (indexer.outcomeOf stored force file))) result := by
  unfold outcomesOf
  rw [List.foldl_map]
  conv => rhs; rw [← List.zipIdx_map_fst 0 batch, List.foldl_map]

/-- The files to be indexed are put in the order of the batch again. -/
theorem mergeSort_ready {arrived : List (Nat × String × ReadOutcome)}
    (isPerm : arrived.Perm (indexer.outcomesOf stored force batch)) :
    (arrived.filterMap readyOf).mergeSort (fun left right => left.1 ≤ right.1) =
      (indexer.outcomesOf stored force batch).filterMap readyOf := by
  have inOrder := indexer.places_pairwise stored force batch
  have places : ((indexer.outcomesOf stored force batch).map (·.1)).Nodup := by
    unfold outcomesOf
    rw [List.map_map]
    have numbers : batch.zipIdx.map Prod.snd = List.range' 0 batch.length :=
      List.zipIdx_map_snd 0 batch
    exact numbers ▸ List.nodup_range'
  have distinct :
      (((indexer.outcomesOf stored force batch).filterMap readyOf).map (·.1)).Nodup := by
    refine places.sublist (sublist_map_filterMap ?_ _)
    intro outcome ready isReady
    rcases Option.map_eq_some_iff.mp isReady with ⟨candidate, -, rfl⟩
    rfl
  have samePerm : ((arrived.filterMap readyOf).mergeSort fun left right => left.1 ≤ right.1).Perm
      ((indexer.outcomesOf stored force batch).filterMap readyOf) :=
    (List.mergeSort_perm _ _).trans (isPerm.filterMap _)
  refine samePerm.eq_of_pairwise ?_ (List.pairwise_mergeSort ?_ ?_ _) inOrder
  · intro ready other member otherMember before after
    apply List.inj_on_of_nodup_map distinct (samePerm.mem_iff.mp member) otherMember
    exact Nat.le_antisymm (of_decide_eq_true before) (of_decide_eq_true after)
  · intro first second third before after
    exact decide_eq_true (Nat.le_trans (of_decide_eq_true before) (of_decide_eq_true after))
  · intro first second
    rw [Bool.or_eq_true, decide_eq_true_eq, decide_eq_true_eq]
    exact Nat.le_total first.1 second.1

theorem candidates_collectReads {arrived : List (Nat × String × ReadOutcome)}
    (isPerm : arrived.Perm (indexer.outcomesOf stored force batch)) (run : Run) :
    (indexer.collectReads stored run arrived).1 = indexer.candidatesOf stored force batch := by
  have taken := (indexer.takeReads_eq stored arrived { run }).2.1
  have takenInOrder :=
    (indexer.takeReads_eq stored (indexer.outcomesOf stored force batch) { run }).2.1
  rw [List.nil_append] at taken takenInOrder
  rw [← indexer.candidates_readBatch stored force batch run]
  unfold readBatch collectReads
  simp only
  unfold outcomesOf outcomeOf at takenInOrder
  rw [taken, takenInOrder, mergeSort_ready isPerm]
  exact congrArg (List.map _) (mergeSort_ready .rfl).symm

theorem foldl_touchesOf (result : RunResult) :
    (indexer.touchesOf stored force batch).foldl (fun result touched =>
      result.note indexer touched.1 (indexer.touchNote stored touched.1 touched.2)) result =
      batch.foldl (fun result file =>
        match (indexer.outcomeOf stored force file).touchTime? with
        | some time => result.note indexer file.path (indexer.touchNote stored file.path time)
        | none => result) result := by
  rw [touchesOf, List.foldl_filterMap]
  congr 1
  funext result file
  cases (indexer.outcomeOf stored force file).touchTime? with
  | some time => rfl
  | none => rfl

include once

theorem nodup_touchesOf : ((indexer.touchesOf stored force batch).map (·.1)).Nodup := by
  refine once.sublist (sublist_map_filterMap ?_ batch)
  intro file touched isTouched
  rcases Option.map_eq_some_iff.mp isTouched with ⟨time, -, rfl⟩
  rfl

/-- Reading a batch comes to what reading each of its files comes to, in whatever order the reads
come in. -/
theorem result_collectReads {arrived : List (Nat × String × ReadOutcome)}
    (isPerm : arrived.Perm (indexer.outcomesOf stored force batch)) (run : Run) :
    (indexer.collectReads stored run arrived).2.result =
      batch.foldl (indexer.noted stored force) run.result := by
  have touches : (arrived.filterMap touchOf).Perm (indexer.touchesOf stored force batch) := by
    have inOrder : (indexer.outcomesOf stored force batch).filterMap touchOf =
        indexer.touchesOf stored force batch :=
      indexer.filterMap_outcomesOf stored force batch fun outcome =>
        outcome.2.touchTime?.map fun time => (outcome.1, time)
    exact inOrder ▸ isPerm.filterMap _
  have taken := (indexer.takeReads_eq stored arrived { run }).2.2
  rw [List.nil_append] at taken
  unfold collectReads
  simp only
  rw [taken, result_touches, foldl_note_perm touches (nodup_touchesOf once), result_takeReads,
    foldl_note_perm isPerm (map_path_outcomesOf ▸ once), foldl_outcomesOf, foldl_touchesOf]
  -- The first pass notes what has been read, the second one what is touched.
  apply foldl_foldl_eq
  refine (List.pairwise_map.mp once).imp fun apart result => ?_
  split
  · exact RunResult.note_comm apart _ _
  · rfl

omit once

/-! ## Writing -/

theorem path_finishedBy (candidate : Candidate) :
    (indexer.finishedBy vectorOf candidate).path = candidate.path := by
  unfold finishedBy analyzeFile
  simp only
  split <;> split <;> rfl

/-- What is counted of several files is how many of them get a vector. -/
theorem foldl_embeddedCount (candidates : List Candidate) (result : RunResult) :
    candidates.foldl (fun result candidate => result.count (indexer.embeddedCount candidate))
        result =
      result.count { embedded := candidates.countP fun candidate =>
        indexer.config.embedding.enabled && candidate.fileClass.isEmbeddable } := by
  induction candidates generalizing result with
  | nil => rfl
  | cons candidate candidates induction =>
      rw [List.foldl_cons, induction, List.countP_cons, Nat.add_comm]
      exact RunResult.ext rfl rfl (ScanStats.plus_assoc _ _ _) rfl

variable (gives : indexer.embedder.Gives vectorOf)

include gives

/-- When no text fails to be embedded, all that is counted is how many files get a vector. -/
theorem result_embedFiles (candidates : List Candidate) (run : Run) :
    (indexer.embedFiles candidates run).2.2.result =
      candidates.foldl (fun result candidate => result.count (indexer.embeddedCount candidate))
        run.result := by
  rw [foldl_embeddedCount]
  unfold embedFiles
  simp only [gives _]
  cases indexer.config.embedding.enabled with
  | false =>
      simp only [Bool.false_and, List.countP_false]
      rfl
  | true =>
      simp only [Bool.not_true, Bool.false_or, Bool.true_and, List.countP_eq_length_filter]
      split
      · next none =>
          rw [List.isEmpty_iff.mp none]
          rfl
      · rw [List.length_map, List.length_map]
        rfl

theorem embedChunks_run (files : List IndexedFile) (run : Run) :
    (indexer.embedChunks files run).2 = run := by
  unfold embedChunks
  simp only
  split
  · rfl
  · rw [gives]

theorem result_indexCandidates (position : ScanPosition) (candidates : List Candidate) (run : Run) :
    (indexer.indexCandidates position candidates run).result =
      candidates.foldl (fun result candidate =>
        (result.count (indexer.embeddedCount candidate)).persist indexer
          (indexer.finishedBy vectorOf candidate)) run.result := by
  have persisted : ∀ (files : List IndexedFile) (later : Run),
      (files.foldl indexer.persist (later.enter .persisting position)).result =
        files.foldl (fun result file => result.persist indexer file) later.result := by
    intro files later
    rw [result_foldl (fun result file => result.persist indexer file) indexer.result_persist,
      result_enter]
  have embedded := indexer.embedFiles_eq candidates (run.enter .embedding position)
  have written : (indexer.indexCandidates position candidates run).result =
      (indexer.finishedFiles candidates).foldl (fun result file => result.persist indexer file)
        ((indexer.embedFiles candidates (run.enter .embedding position)).2.2.enter
          .analyzing position).result := by
    unfold indexCandidates finishedFiles
    simp only [← embedded.1, ← embedded.2]
    split
    · rw [persisted, embedChunks_run gives, indexer.embedChunks_eq]
    · rw [persisted]
  rw [written, result_enter, result_embedFiles gives, result_enter, finishedFiles_of_gives gives,
    List.foldl_map]
  -- The first pass counts vectors, the second one writes.
  apply foldl_foldl_eq
  exact List.pairwise_of_forall fun candidate later result => (RunResult.count_persist _ _).symm

/-- Writing the files of a batch comes to what writing each of them comes to. -/
theorem result_indexBatch (position : ScanPosition) (batch : List WalkedFile) (run : Run) :
    (indexer.indexCandidates position (indexer.candidatesOf stored force batch) run).result =
      batch.foldl (indexer.written vectorOf stored force) run.result := by
  rw [result_indexCandidates gives, candidatesOf, List.foldl_filterMap]
  congr 1
  funext result file
  unfold written
  cases (indexer.outcomeOf stored force file).candidate? <;> rfl

/-! ## Working off -/

omit gives in
theorem persist_written_note {result : RunResult} {file : WalkedFile} {path : String}
    (apart : file.path ≠ path) (note : FileNote) :
    (indexer.written vectorOf stored force result file).note indexer path note =
      indexer.written vectorOf stored force (result.note indexer path note) file := by
  unfold written
  cases ready : (indexer.outcomeOf stored force file).candidate? with
  | none => rfl
  | some candidate =>
      have place : (indexer.finishedBy vectorOf candidate).path = file.path := by
        rw [path_finishedBy, indexer.candidate?_outcomeOf ready]
        rfl
      rw [RunResult.persist_note (place ▸ apart), RunResult.count_note]

omit gives in
theorem noted_written {result : RunResult} {file later : WalkedFile}
    (apart : file.path ≠ later.path) :
    indexer.noted stored force (indexer.written vectorOf stored force result file) later =
      indexer.written vectorOf stored force (indexer.noted stored force result later) file := by
  unfold noted
  simp only
  cases (indexer.outcomeOf stored force later).touchTime? with
  | none => exact persist_written_note apart _
  | some time => simp only [persist_written_note apart]

/-- Whether the memory in use stays below the mark from which on files in memory are stripped. -/
def HasRoom (indexer : Indexer) : Prop :=
  ∀ resident ∈ indexer.residentBytes,
    resident ≤ min (indexer.config.scan.memoryHighWaterMb * 0x100000) 0xffffffffffffffff

omit gives in
theorem checkMemory_of_hasRoom (roomy : indexer.HasRoom) (run : Run) :
    indexer.checkMemory run = run := by
  unfold checkMemory
  cases known : indexer.residentBytes with
  | none => rfl
  | some resident => exact if_pos (roomy resident known)

variable (roomy : indexer.HasRoom)

include roomy

/-- A batch comes to what working off its files one after the other comes to. -/
theorem result_processBatch (arrival : Arrival) (position : ScanPosition)
    (once : (batch.map (·.path)).Nodup) (run : Run) :
    (indexer.processBatchArriving arrival stored force position batch run).result =
      batch.foldl (indexer.workedOff vectorOf stored force) run.result := by
  have isPerm := arrival.isPerm position.batch (indexer.outcomesOf stored force batch)
  let read := indexer.readArriving arrival position.batch stored force batch
    (run.enter .readingAndFiltering position)
  have candidates : read.1 = indexer.candidatesOf stored force batch :=
    candidates_collectReads isPerm _
  have result : read.2.result = batch.foldl (indexer.noted stored force) run.result :=
    (result_collectReads once isPerm _).trans (by rw [result_enter])
  have passes : batch.foldl (indexer.written vectorOf stored force) read.2.result =
      batch.foldl (indexer.workedOff vectorOf stored force) run.result := by
    rw [result]
    apply foldl_foldl_eq
    exact (List.pairwise_map.mp once).imp fun apart result => noted_written apart
  have indexed : (indexer.indexCandidates position (indexer.candidatesOf stored force batch)
      read.2).result = batch.foldl (indexer.written vectorOf stored force) read.2.result :=
    result_indexBatch gives position batch read.2
  have processed : indexer.processBatchArriving arrival stored force position batch run =
      if read.1.isEmpty then read.2 else indexer.indexCandidates position read.1 read.2 :=
    checkMemory_of_hasRoom roomy _
  rw [processed, candidates, ← passes, ← indexed]
  split
  · next nothing =>
      rw [List.isEmpty_iff.mp nothing, result_indexCandidates gives]
      rfl
  · rfl

/-- Files come to what working them off one after the other comes to, however they are cut into
batches. -/
theorem result_processFiles (arrival : Arrival) {files : List WalkedFile}
    (once : (files.map (·.path)).Nodup) (run : Run) :
    (indexer.processFilesArriving arrival stored force files run).result =
      files.foldl (indexer.workedOff vectorOf stored force) run.result := by
  have all : ∀ (parts : List (List WalkedFile)), (∀ part ∈ parts, (part.map (·.path)).Nodup) →
      ∀ (run : Run) (position : ScanPosition),
      (parts.foldl (fun (run, position) batch =>
        let position := { position with batch := position.batch + 1 }
        (indexer.processBatchArriving arrival stored force position batch run,
          { position with processed := position.processed + batch.length }))
        (run, position)).1.result =
          parts.flatten.foldl (indexer.workedOff vectorOf stored force) run.result := by
    intro parts
    induction parts with
    | nil => exact fun _ _ _ => rfl
    | cons part parts induction =>
        intro once run position
        rw [List.forall_mem_cons] at once
        rw [List.foldl_cons, induction once.2, List.flatten_cons, List.foldl_append,
          result_processBatch gives roomy arrival _ once.1]
  have flattened := flatten_batches (batchSize_pos indexer.config.scan files.length) files
  have parted := once
  rw [← flattened, List.map_flatten, List.nodup_flatten] at parted
  have worked := all (batches (batchSize indexer.config.scan files.length) files)
    (fun part member => parted.1 _ (List.mem_map_of_mem member)) run
  rw [flattened] at worked
  exact worked _

/-! ## Scans -/

/-- What a scan comes to that finds its root and a store that can be read. -/
def scanResult (indexer : Indexer) (vectorOf : String → Embedding) (disk : FileTree)
    (mode : ScanMode) (state : IndexState) : RunResult :=
  let files := indexer.filesOn disk
  let stored := state.store.states indexer.project
  let worked := files.foldl (indexer.workedOff vectorOf stored (mode = .force))
    (indexer.begun mode files state).result
  if indexer.config.scan.pruneMissing then
    (missingFrom stored files).foldl (fun result path => result.prune indexer path) worked
  else worked

omit gives roomy in
/-- A scan that does not find its root or cannot read the store ends before there are any files. -/
theorem scanArriving_of_hindered {disk : FileTree}
    (hindered : ¬ ((indexer.rootTree? disk).isSome ∧ indexer.gate.refuses .load "" = none))
    (mode : ScanMode) (state : IndexState) :
    ∃ error, ∀ batching arrival, (indexer.batched batching).scanArriving arrival disk mode state =
      indexer.finish ((Run.ofState state).enter .scanning {}) (some error) := by
  have sameTree : ∀ batching, (indexer.batched batching).rootTree? disk =
      indexer.rootTree? disk := fun _ => rfl
  cases found : indexer.rootTree? disk with
  | none =>
      refine ⟨.invalidRoot indexer.root, fun batching arrival => ?_⟩
      unfold scanArriving
      simp only [sameTree, found]
      rfl
  | some tree =>
      cases loads : indexer.gate.refuses .load "" with
      | none => exact absurd ⟨Option.isSome_of_eq_some found, loads⟩ hindered
      | some error =>
          refine ⟨.store error, fun batching arrival => ?_⟩
          have refused : ∀ store, (indexer.batched batching).gate.states store
              (indexer.batched batching).project = .error error := by
            intro store
            have sameGate : (indexer.batched batching).gate = indexer.gate := rfl
            unfold StoreGate.states StoreGate.attempt
            rw [sameGate, loads]
          unfold scanArriving
          simp only [sameTree, found, refused]
          rfl

theorem result_scanArriving (arrival : Arrival) {disk : FileTree} (proper : disk.IsProper)
    (isThere : (indexer.rootTree? disk).isSome) (loads : indexer.gate.refuses .load "" = none)
    (mode : ScanMode) (state : IndexState) :
    let scanned := indexer.scanArriving arrival disk mode state
    let result := indexer.scanResult vectorOf disk mode state
    scanned.1 = ⟨indexer.project, result.stats, none⟩ ∧ scanned.2.result = result := by
  intro scanned result
  rcases Option.isSome_iff_exists.mp isThere with ⟨tree, found⟩
  let files := indexer.filesOn disk
  let stored := state.store.states indexer.project
  let worked := indexer.processFilesArriving arrival stored (mode = .force) files
    (indexer.begun mode files state)
  let pruned := if indexer.config.scan.pruneMissing
    then indexer.pruneMissing stored (files.map (·.path)) worked else worked
  have walked : files = tree.walk indexer.options indexer.policy := filesOn_eq found
  have finished : scanned = indexer.finish pruned none := by
    have states := states_of_loads loads ((Run.ofState state).enter .scanning {}).store
    unfold scanned scanArriving
    simp only [found, states, ← walked]
    rfl
  have prunes : ∀ (paths : List String) (run : Run), (paths.foldl indexer.prune run).result =
      paths.foldl (fun result path => result.prune indexer path) run.result :=
    result_foldl _ indexer.result_prune
  have worksOff : worked.result = _ :=
    result_processFiles gives roomy arrival (nodup_filesOn proper) _
  have same : pruned.result = result := by
    unfold pruned result scanResult
    simp only
    split
    · refine (prunes _ _).trans ?_
      rw [worksOff]
      rfl
    · exact worksOff
  rw [finished, ← same, result_finish]
  exact ⟨rfl, rfl⟩

omit gives roomy

/-! ## Every file once -/

theorem processed_workedOff (result : RunResult) (file : WalkedFile) :
    (indexer.workedOff vectorOf stored force result file).stats.processed =
      result.stats.processed + 1 := by
  have noted : (indexer.noted stored force result file).stats.processed =
      result.stats.processed + 1 := by
    unfold noted
    cases indexer.outcomeOf stored force file <;> rfl
  rw [← noted]
  unfold workedOff written
  split
  · unfold RunResult.persist
    split <;> rfl
  · rfl

theorem processed_foldl (files : List WalkedFile) (result : RunResult) :
    (files.foldl (indexer.workedOff vectorOf stored force) result).stats.processed =
      result.stats.processed + files.length := by
  induction files generalizing result with
  | nil => rfl
  | cons file files induction =>
      rw [List.foldl_cons, induction, processed_workedOff, List.length_cons]
      omega

theorem processed_scanResult (disk : FileTree) (mode : ScanMode) (state : IndexState) :
    (indexer.scanResult vectorOf disk mode state).stats.processed =
      (indexer.filesOn disk).length := by
  have prunes : ∀ (paths : List String) (result : RunResult),
      (paths.foldl (fun result path => result.prune indexer path) result).stats.processed =
        result.stats.processed := by
    intro paths
    induction paths with
    | nil => exact fun _ => rfl
    | cons path paths induction =>
        intro result
        rw [List.foldl_cons, induction]
        unfold RunResult.prune
        simp only
        split <;> rfl
  have worked : ∀ files : List WalkedFile, (files.foldl (indexer.workedOff vectorOf
      (state.store.states indexer.project) (mode = .force))
      (indexer.begun mode (indexer.filesOn disk) state).result).stats.processed = files.length :=
    fun files => (processed_foldl files _).trans (Nat.zero_add _)
  unfold scanResult
  simp only
  split
  · rw [prunes, worked]
  · exact worked _

end Indexer

end SourceIndex
