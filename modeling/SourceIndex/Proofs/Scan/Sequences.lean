import SourceIndex.Proofs.Scan.Calls
import Mathlib.Data.List.Forall2

/-! The calls to the store that runs consist of: which they are does not depend on what is counted
and told on the way, and no path is the matter of two of them. -/

namespace SourceIndex.Indexer

variable (indexer : Indexer)

/-! ## Files to be stored -/

/-- The files of a batch as they are to be stored, with the vectors that they get. -/
def finishedFiles (candidates : List Candidate) : List IndexedFile :=
  let embedded := indexer.embedFiles candidates {}
  let files := embedded.1.map fun (candidate, embedding) =>
    indexer.analyzeFile candidate (indexer.build candidate embedding)
  let embedding := indexer.config.embedding
  if embedding.enabled && embedding.embedChunks && embedded.2.1 then
    (indexer.embedChunks files {}).1
  else files

theorem embedFiles_eq (candidates : List Candidate) (run : Run) :
    (indexer.embedFiles candidates run).1 = (indexer.embedFiles candidates {}).1 ∧
      (indexer.embedFiles candidates run).2.1 = (indexer.embedFiles candidates {}).2.1 := by
  unfold embedFiles
  simp only
  split
  · exact ⟨rfl, rfl⟩
  · split
    · exact ⟨rfl, rfl⟩
    · exact ⟨rfl, rfl⟩

theorem embedChunks_eq (files : List IndexedFile) (run : Run) :
    (indexer.embedChunks files run).1 = (indexer.embedChunks files {}).1 := by
  unfold embedChunks
  simp only
  split
  · rfl
  · split <;> rfl

/-- The files that are stored are those that have to be indexed, vectors aside. -/
theorem map_bare_finishedFiles (candidates : List Candidate) :
    (indexer.finishedFiles candidates).map IndexedFile.bare =
      candidates.map indexer.outlineOf := by
  have outlines : (((indexer.embedFiles candidates {}).1.map fun (candidate, embedding) =>
      indexer.analyzeFile candidate (indexer.build candidate embedding)).map IndexedFile.bare) =
      candidates.map indexer.outlineOf := by
    conv => rhs; rw [← indexer.map_fst_embedFiles candidates {}]
    rw [List.map_map, List.map_map]
    apply List.map_congr_left
    exact fun entry _ => indexer.bare_analyzeFile entry.1 entry.2
  unfold finishedFiles
  simp only
  split
  · exact (indexer.map_bare_embedChunks _ _).trans outlines
  · exact outlines

/-! ## Steps -/

/-- A step that makes one call, taken for several items, makes one call for each. -/
theorem store_foldl {α : Type} {step : Run → α → Run} {callOf : α → StoreCall}
    (each : ∀ run item, (step run item).store = indexer.gate.perform run.store (callOf item))
    (items : List α) (run : Run) :
    (items.foldl step run).store = indexer.gate.performAll run.store (items.map callOf) := by
  induction items generalizing run with
  | nil => rfl
  | cons item items induction =>
      rw [List.foldl_cons, induction, each]
      rfl

def persistCalls (files : List IndexedFile) : List StoreCall :=
  files.map (.persist indexer.project)

def touchCalls (touches : List (String × FileTime)) : List StoreCall :=
  touches.map fun (path, time) => .touch indexer.project path time

def removeCalls (paths : List String) : List StoreCall := paths.map (.remove indexer.project)

theorem store_indexCandidates (position : ScanPosition) (candidates : List Candidate) (run : Run) :
    (indexer.indexCandidates position candidates run).store =
      indexer.gate.performAll run.store
        (indexer.persistCalls (indexer.finishedFiles candidates)) := by
  have persisted : ∀ (files : List IndexedFile) (run : Run),
      (files.foldl indexer.persist run).store =
        indexer.gate.performAll run.store (indexer.persistCalls files) :=
    indexer.store_foldl indexer.store_persist
  have same := indexer.embedFiles_eq candidates (run.enter .embedding position)
  have kept : (indexer.embedFiles candidates (run.enter .embedding position)).2.2.store =
      run.store := indexer.store_embedFiles candidates (run.enter .embedding position)
  have embedded : ∀ (files : List IndexedFile) (later : Run), later.store = run.store →
      ((indexer.embedChunks files later).1.foldl indexer.persist
          ((indexer.embedChunks files later).2.enter .persisting position)).store =
        indexer.gate.performAll run.store
          (indexer.persistCalls (indexer.embedChunks files {}).1) := by
    intro files later sameStore
    have sameRun : ((indexer.embedChunks files later).2.enter .persisting position).store =
        run.store := (indexer.store_embedChunks files later).trans sameStore
    rw [persisted, sameRun, indexer.embedChunks_eq]
  unfold indexCandidates finishedFiles
  simp only [← same.1, ← same.2]
  split
  · exact embedded _ _ kept
  · rw [persisted]
    exact congrArg (indexer.gate.performAll · _) kept

/-! ## Batches -/

theorem store_readBatch (stored : List FileState) (force : Bool) (batch : List WalkedFile)
    (run : Run) : (indexer.readBatch stored force batch run).2.store =
      indexer.gate.performAll run.store
        (indexer.touchCalls (indexer.touchesOf stored force batch)) := by
  have touched : ∀ (touches : List (String × FileTime)) (run : Run),
      (touches.foldl (fun run (path, time) => indexer.touch stored run path time) run).store =
        indexer.gate.performAll run.store (indexer.touchCalls touches) :=
    indexer.store_foldl fun run (path, time) => indexer.store_touch stored run path time
  have reads := indexer.takeReads_eq stored (indexer.outcomesOf stored force batch) { run }
  have touches : (indexer.outcomesOf stored force batch).filterMap touchOf =
      indexer.touchesOf stored force batch :=
    indexer.filterMap_outcomesOf stored force batch fun outcome =>
      outcome.2.touchTime?.map fun time => (outcome.1, time)
  have taken := reads.2.2
  rw [List.nil_append, touches] at taken
  unfold readBatch collectReads
  simp only
  unfold outcomesOf outcomeOf at taken reads
  rw [touched, taken, reads.1]

/-- The calls that working off a batch consists of: new times first, then new files. -/
def batchCalls (stored : List FileState) (force : Bool) (batch : List WalkedFile) :
    List StoreCall :=
  indexer.touchCalls (indexer.touchesOf stored force batch) ++
    indexer.persistCalls (indexer.finishedFiles (indexer.candidatesOf stored force batch))

theorem store_processBatch (stored : List FileState) (force : Bool) (position : ScanPosition)
    (batch : List WalkedFile) (run : Run) :
    (indexer.processBatch stored force position batch run).store =
      indexer.gate.performAll run.store (indexer.batchCalls stored force batch) := by
  have reading := indexer.candidates_readBatch stored force batch
    (run.enter .readingAndFiltering position)
  have read := indexer.store_readBatch stored force batch (run.enter .readingAndFiltering position)
  have start : (run.enter .readingAndFiltering position).store = run.store := rfl
  have nothing : indexer.finishedFiles [] = [] :=
    List.map_eq_nil_iff.mp (indexer.map_bare_finishedFiles [])
  rw [start] at read
  unfold processBatch batchCalls
  simp only
  rw [store_checkMemory, reading, StoreGate.performAll_append, ← read]
  split
  · next empty =>
      rw [List.isEmpty_iff.mp empty, nothing]
      rfl
  · exact indexer.store_indexCandidates position _ _

/-- The calls that working off some files consists of. -/
def fileCalls (stored : List FileState) (force : Bool) (files : List WalkedFile) :
    List StoreCall :=
  (batches (batchSize indexer.config.scan files.length) files).flatMap
    (indexer.batchCalls stored force)

theorem store_processFiles (stored : List FileState) (force : Bool) (files : List WalkedFile)
    (run : Run) : (indexer.processFiles stored force files run).store =
      indexer.gate.performAll run.store (indexer.fileCalls stored force files) := by
  have all : ∀ (parts : List (List WalkedFile)) (run : Run) (position : ScanPosition),
      (parts.foldl (indexer.batchStep stored force) (run, position)).1.store =
          indexer.gate.performAll run.store (parts.flatMap (indexer.batchCalls stored force)) := by
    intro parts
    induction parts with
    | nil => exact fun _ _ => rfl
    | cons part parts induction =>
        intro run position
        rw [List.foldl_cons, batchStep, induction, List.flatMap_cons, StoreGate.performAll_append,
          indexer.store_processBatch]
  exact all _ run _

/-! ## Runs -/

/-- A run that has come upon some files, with nothing done for them yet. -/
def begun (mode : ScanMode) (files : List WalkedFile) (state : IndexState) : Run :=
  (((Run.ofState state).enter .scanning {}).count fun stats =>
    { stats with totalFiles := files.length }).emit
    (.started indexer.project indexer.root mode files.length)

variable {indexer} in
theorem states_of_loads (loads : indexer.gate.refuses .load "" = none) (store : Store) :
    indexer.gate.states store indexer.project = .ok (store.states indexer.project) := by
  unfold StoreGate.states StoreGate.attempt
  rw [loads]

/-- The calls that a scan consists of that has come upon some files. -/
def scanCalls (stored : List FileState) (force : Bool) (files : List WalkedFile) :
    List StoreCall :=
  indexer.fileCalls stored force files ++
    if indexer.config.scan.pruneMissing then indexer.removeCalls (missingFrom stored files) else []

/-- What a scan comes to with nothing in its way: it works off the files that it comes upon, and
then removes what is missing if it is to. -/
def scanned (disk : FileTree) (mode : ScanMode) (state : IndexState) : Run :=
  let files := indexer.filesOn disk
  let stored := state.store.states indexer.project
  let run := indexer.processFiles stored (mode = .force) files (indexer.begun mode files state)
  if indexer.config.scan.pruneMissing then
    indexer.pruneMissing stored (files.map (·.path)) run
  else run

theorem scan_eq {disk : FileTree} (mode : ScanMode) (state : IndexState)
    (isThere : (indexer.rootTree? disk).isSome) (loads : indexer.gate.refuses .load "" = none) :
    indexer.scan disk mode state = indexer.finish (indexer.scanned disk mode state) none := by
  rcases Option.isSome_iff_exists.mp isThere with ⟨tree, found⟩
  have states := states_of_loads loads ((Run.ofState state).enter .scanning {}).store
  unfold scan scanned
  simp only [found, states, filesOn_eq found]
  rfl

theorem store_scan {disk : FileTree} (mode : ScanMode) (state : IndexState)
    (isThere : (indexer.rootTree? disk).isSome) (loads : indexer.gate.refuses .load "" = none) :
    (indexer.scan disk mode state).2.store =
      indexer.gate.performAll state.store
        (indexer.scanCalls (state.store.states indexer.project) (mode = .force)
          (indexer.filesOn disk)) := by
  have pruned : ∀ (paths : List String) (run : Run), (paths.foldl indexer.prune run).store =
      indexer.gate.performAll run.store (indexer.removeCalls paths) :=
    indexer.store_foldl indexer.store_prune
  have finished : (indexer.finish (indexer.scanned disk mode state) none).2.store =
      (indexer.scanned disk mode state).store := rfl
  rw [indexer.scan_eq mode state isThere loads, finished, scanCalls,
    StoreGate.performAll_append]
  unfold scanned
  simp only
  split
  · refine (pruned _ _).trans ?_
    rw [store_processFiles]
    rfl
  · exact indexer.store_processFiles _ _ _ _

/-! ## Removing -/

/-- How many of some paths are those of files when they are removed one after the other. -/
def countStored (project : String) : (paths : List String) → Store → Nat
  | [], _ => 0
  | path :: paths, store =>
    (if (store.row? project path).isSome then 1 else 0) +
      countStored project paths (store.remove project path).2

/-- What is left when some paths have been removed. -/
def without (paths : List String) (state : IndexState) : IndexState :=
  { state with
    store := indexer.gate.performAll state.store (indexer.removeCalls paths)
    records := paths.foldl RecordIndex.erase state.records }

variable {indexer} in
/-- Paths that are not refused are removed, and those behind them come next. -/
theorem removePaths_append {front : List String}
    (accepts : ∀ path ∈ front, indexer.gate.refuses .remove path = none) (rest : List String)
    (removed : Nat) (state : IndexState) :
    indexer.removePaths (front ++ rest) removed state =
      indexer.removePaths rest (removed + countStored indexer.project front state.store)
        (indexer.without front state) := by
  induction front generalizing removed state with
  | nil => rfl
  | cons path front induction =>
      rw [List.forall_mem_cons] at accepts
      have asked : indexer.gate.remove state.store indexer.project path =
          .ok (state.store.remove indexer.project path) := by
        unfold StoreGate.remove StoreGate.attempt
        rw [accepts.1]
      have wasThere : (state.store.remove indexer.project path).1 =
          (state.store.row? indexer.project path).isSome := by
        unfold Store.remove
        cases state.store.row? indexer.project path <;> rfl
      have performed : indexer.gate.perform state.store (.remove indexer.project path) =
          (state.store.remove indexer.project path).2 := by
        rw [StoreGate.perform, asked]
        rfl
      have left : indexer.without (path :: front) state =
          indexer.without front
            { state with
              store := (state.store.remove indexer.project path).2
              records := RecordIndex.erase state.records path } := by
        rw [← performed]
        rfl
      rw [List.cons_append, removePaths, asked]
      simp only
      rw [induction accepts.2, left, countStored, wasThere, ← Nat.add_assoc]
      split
      · rfl
      · rfl

/-- Paths are removed up to the first one that the store refuses. -/
theorem store_removePaths (paths : List String) (removed : Nat) (state : IndexState) :
    ∃ done, (indexer.removePaths paths removed state).2.store =
        indexer.gate.performAll state.store (indexer.removeCalls done) := by
  induction paths generalizing removed state with
  | nil => exact ⟨[], rfl⟩
  | cons path paths induction =>
      unfold removePaths
      cases answered : indexer.gate.remove state.store indexer.project path with
      | error error => exact ⟨[], rfl⟩
      | ok answer =>
          rcases answer with ⟨wasThere, store⟩
          rcases induction (if wasThere then removed + 1 else removed)
            { state with store, records := RecordIndex.erase state.records path } with
            ⟨done, performed⟩
          have first : indexer.gate.perform state.store (.remove indexer.project path) = store := by
            rw [StoreGate.perform, answered]
            rfl
          refine ⟨path :: done, ?_⟩
          have step : indexer.gate.performAll state.store (indexer.removeCalls (path :: done)) =
              indexer.gate.performAll (indexer.gate.perform state.store
                (.remove indexer.project path)) (indexer.removeCalls done) := rfl
          rw [step, first]
          exact performed

/-! ## Single paths -/

/-- Indexing single paths removes some of those that are gone and then works off the files that are
there, if it comes to that. -/
theorem store_indexPaths (disk : FileTree) (paths : List String) (state : IndexState) :
    ∃ removed calls, (indexer.indexPaths disk paths state).2.store =
        indexer.gate.performAll state.store (indexer.removeCalls removed ++ calls) ∧
      (calls = [] ∨
        ∃ stored, calls = indexer.fileCalls stored false (indexer.filesAt disk paths)) := by
  let files := indexer.filesAt disk paths
  rcases indexer.store_removePaths (gonePaths (paths.map (indexer.standing disk))) 0
    (indexer.begun .incremental files state).toIndexState with ⟨done, removed⟩
  have started : (indexer.begun .incremental files state).toIndexState.store = state.store := rfl
  rw [started] at removed
  unfold indexPaths
  simp only
  split
  · exact ⟨[], [], rfl, .inl rfl⟩
  · split
    · exact ⟨done, [], by rw [List.append_nil]; exact removed, .inl rfl⟩
    · split
      · exact ⟨done, [], by rw [List.append_nil]; exact removed, .inl rfl⟩
      · split
        · exact ⟨done, [], by rw [List.append_nil]; exact removed, .inl rfl⟩
        · next stored _ =>
            refine ⟨done, indexer.fileCalls stored false files, ?_, .inr ⟨stored, rfl⟩⟩
            rw [StoreGate.performAll_append, ← removed]
            exact indexer.store_processFiles stored false files _

/-- A run for single paths when those that are gone have been removed. -/
def cleared (disk : FileTree) (paths : List String) (state : IndexState) : Run :=
  let gone := gonePaths (paths.map (indexer.standing disk))
  let run := indexer.begun .incremental (indexer.filesAt disk paths) state
  ({ run with toIndexState := indexer.without gone run.toIndexState } : Run).count fun stats =>
    { stats with pruned := stats.pruned + countStored indexer.project gone state.store }

variable {indexer} in
/-- If none of the paths that are gone is refused, the files that are there are worked off. -/
theorem indexPaths_eq {disk : FileTree} (isThere : (indexer.rootTree? disk).isSome)
    (loads : indexer.gate.refuses .load "" = none) {paths : List String}
    (accepts : ∀ path ∈ gonePaths (paths.map (indexer.standing disk)),
      indexer.gate.refuses .remove path = none) (state : IndexState) :
    let run := indexer.cleared disk paths state
    indexer.indexPaths disk paths state =
      indexer.finish (indexer.processFiles (run.store.states indexer.project) false
        (indexer.filesAt disk paths) run) none := by
  rcases Option.isSome_iff_exists.mp isThere with ⟨tree, found⟩
  intro run
  have removal := removePaths_append accepts [] 0
    (indexer.begun .incremental (indexer.filesAt disk paths) state).toIndexState
  rw [List.append_nil, Nat.zero_add] at removal
  unfold begun filesAt at removal
  unfold indexPaths
  simp only [found, removal, removePaths]
  split
  · next none =>
      have nothing : indexer.filesAt disk paths = [] := List.isEmpty_iff.mp none
      rw [nothing, processFiles, batches, if_pos (.inl rfl)]
      rfl
  · simp only [Run.count, states_of_loads loads]
    rfl

/-- A store that refuses none of the paths that are gone is brought in line with all paths. -/
theorem store_indexPaths_of_accepted {disk : FileTree} (isThere : (indexer.rootTree? disk).isSome)
    (loads : indexer.gate.refuses .load "" = none) {paths : List String}
    (accepts : ∀ path ∈ gonePaths (paths.map (indexer.standing disk)),
      indexer.gate.refuses .remove path = none) (state : IndexState) :
    let left := indexer.gate.performAll state.store
      (indexer.removeCalls (gonePaths (paths.map (indexer.standing disk))))
    (indexer.indexPaths disk paths state).2.store = indexer.gate.performAll left
      (indexer.fileCalls (left.states indexer.project) false (indexer.filesAt disk paths)) := by
  intro left
  rw [indexPaths_eq isThere loads accepts]
  exact indexer.store_processFiles _ _ _ _

/-! ## Which calls there are -/

/-- What working off a file brings about: a new time if only that has changed, and the file itself,
as it is finished, if it has to be indexed. -/
inductive Brings (finishes : Candidate → IndexedFile → Prop) (stored : List FileState)
    (force : Bool) (file : WalkedFile) : StoreCall → Prop
  | touch {time : FileTime}
    (touched : (indexer.outcomeOf stored force file).touchTime? = some time) :
    Brings finishes stored force file (.touch indexer.project file.path time)
  | persist {finished : IndexedFile}
    (ready : (indexer.outcomeOf stored force file).candidate?.isSome)
    (isFinished : finishes (Candidate.ofFile indexer.classifier file) finished) :
    Brings finishes stored force file (.persist indexer.project finished)

/-- Whether files that have to be indexed are finished one by one in some way. -/
def Finishes (finishes : Candidate → IndexedFile → Prop) : Prop :=
  ∀ candidates, List.Forall₂ finishes candidates (indexer.finishedFiles candidates)

/-- However files are embedded, each is finished as told by itself, vectors aside. -/
theorem finishes_bare :
    indexer.Finishes fun candidate finished => finished.bare = indexer.outlineOf candidate := by
  intro candidates
  have outlines := indexer.map_bare_finishedFiles candidates
  rw [eq_comm, ← List.forall₂_eq_eq_eq, List.forall₂_map_left_iff, List.forall₂_map_right_iff]
    at outlines
  exact outlines.imp fun candidate finished same => same.symm

section

variable {indexer} {finishes : Candidate → IndexedFile → Prop} {stored : List FileState}
  {force : Bool} {files : List WalkedFile}

theorem exists_of_mem_right {α β : Type} {related : α → β → Prop} {left : List α} {right : List β}
    (all : List.Forall₂ related left right) {item : β} (member : item ∈ right) :
    ∃ other ∈ left, related other item := by
  induction all with
  | nil => exact absurd member List.not_mem_nil
  | cons first _ induction =>
      rcases List.mem_cons.mp member with rfl | member
      · exact ⟨_, List.mem_cons_self, first⟩
      · rcases induction member with ⟨other, otherMember, same⟩
        exact ⟨other, List.mem_cons_of_mem _ otherMember, same⟩

theorem brings_of_mem_batchCalls (each : indexer.Finishes finishes) {batch : List WalkedFile}
    {call : StoreCall} (member : call ∈ indexer.batchCalls stored force batch) :
    ∃ file ∈ batch, indexer.Brings finishes stored force file call := by
  rcases List.mem_append.mp member with member | member
  · rcases List.mem_map.mp member with ⟨⟨path, time⟩, touched, rfl⟩
    rcases List.mem_filterMap.mp touched with ⟨file, inside, isTouched⟩
    rcases Option.map_eq_some_iff.mp isTouched with ⟨newTime, isTime, same⟩
    cases same
    exact ⟨file, inside, .touch isTime⟩
  · rcases List.mem_map.mp member with ⟨finished, isThere, rfl⟩
    rcases exists_of_mem_right (each _) isThere with ⟨candidate, isCandidate, isFinished⟩
    rcases List.mem_filterMap.mp isCandidate with ⟨file, inside, ready⟩
    rw [indexer.candidate?_outcomeOf ready] at isFinished
    exact ⟨file, inside, .persist (Option.isSome_of_eq_some ready) isFinished⟩

/-- Every call that working off files consists of is what one of them brings about. -/
theorem brings_of_mem_fileCalls (each : indexer.Finishes finishes) {call : StoreCall}
    (member : call ∈ indexer.fileCalls stored force files) :
    ∃ file ∈ files, indexer.Brings finishes stored force file call := by
  rcases List.mem_flatMap.mp member with ⟨batch, isBatch, inside⟩
  rcases brings_of_mem_batchCalls each inside with ⟨file, fileMember, brings⟩
  refine ⟨file, ?_, brings⟩
  rw [← flatten_batches (batchSize_pos indexer.config.scan files.length) files]
  exact List.mem_flatten_of_mem isBatch fileMember

/-- A file that has to be indexed is written. -/
theorem exists_persist_mem_fileCalls (each : indexer.Finishes finishes) {file : WalkedFile}
    (member : file ∈ files) (ready : (indexer.outcomeOf stored force file).candidate?.isSome) :
    ∃ finished, finishes (Candidate.ofFile indexer.classifier file) finished ∧
      .persist indexer.project finished ∈ indexer.fileCalls stored force files := by
  rw [← flatten_batches (batchSize_pos indexer.config.scan files.length) files,
    List.mem_flatten] at member
  rcases member with ⟨batch, isBatch, inside⟩
  rcases Option.isSome_iff_exists.mp ready with ⟨candidate, isReady⟩
  have isCandidate : candidate ∈ indexer.candidatesOf stored force batch :=
    List.mem_filterMap.mpr ⟨file, inside, isReady⟩
  rw [indexer.candidate?_outcomeOf isReady] at isCandidate
  rcases exists_of_mem_right (each (indexer.candidatesOf stored force batch)).flip isCandidate with
    ⟨finished, isThere, isFinished⟩
  refine ⟨finished, isFinished, List.mem_flatMap.mpr ⟨batch, isBatch, ?_⟩⟩
  exact List.mem_append_right _ (List.mem_map_of_mem isThere)

/-- A file of which only the time has changed is touched. -/
theorem touch_mem_fileCalls {file : WalkedFile} (member : file ∈ files) {time : FileTime}
    (touched : (indexer.outcomeOf stored force file).touchTime? = some time) :
    .touch indexer.project file.path time ∈ indexer.fileCalls stored force files := by
  rw [← flatten_batches (batchSize_pos indexer.config.scan files.length) files,
    List.mem_flatten] at member
  rcases member with ⟨batch, isBatch, inside⟩
  refine List.mem_flatMap.mpr ⟨batch, isBatch, List.mem_append_left _ ?_⟩
  refine List.mem_map.mpr ⟨(file.path, time), List.mem_filterMap.mpr ⟨file, inside, ?_⟩, rfl⟩
  rw [touched]
  rfl

/-! ## Each path once -/

theorem path_of_brings (places : ∀ candidate finished, finishes candidate finished →
      finished.path = candidate.path) {file : WalkedFile} {call : StoreCall}
    (brings : indexer.Brings finishes stored force file call) :
    call.place = (indexer.project, file.path) := by
  cases brings with
  | touch touched => rfl
  | persist ready isFinished =>
      exact congrArg (indexer.project, ·) (places _ _ isFinished)

theorem sublist_map_filterMap {α β γ : Type} {pick : α → Option β} {of : β → γ} {keyOf : α → γ}
    (same : ∀ item picked, pick item = some picked → of picked = keyOf item) (items : List α) :
    ((items.filterMap pick).map of).Sublist (items.map keyOf) := by
  induction items with
  | nil => exact .slnil
  | cons item items induction =>
      rw [List.filterMap_cons, List.map_cons]
      cases picked : pick item with
      | none => exact induction.cons _
      | some found =>
          rw [List.map_cons, same item found picked]
          exact induction.cons_cons _

theorem map_path_of_forall₂ (places : ∀ candidate finished, finishes candidate finished →
      finished.path = candidate.path) {candidates : List Candidate} {finished : List IndexedFile}
    (all : List.Forall₂ finishes candidates finished) :
    finished.map (·.path) = candidates.map (·.path) := by
  induction all with
  | nil => rfl
  | cons first _ induction => rw [List.map_cons, List.map_cons, places _ _ first, induction]

theorem nodup_batchCalls (each : indexer.Finishes finishes)
    (places : ∀ candidate finished, finishes candidate finished → finished.path = candidate.path)
    {batch : List WalkedFile} (once : (batch.map (·.path)).Nodup) :
    ((indexer.batchCalls stored force batch).map StoreCall.place).Nodup := by
  have placed : ∀ paths : List String, paths.Sublist (batch.map (·.path)) →
      (paths.map fun path => (indexer.project, path)).Nodup := by
    intro paths within
    apply (once.sublist within).map
    intro path other same
    exact (Prod.mk.inj same).2
  have touches : ((indexer.touchesOf stored force batch).map (·.1)).Sublist
      (batch.map (·.path)) := by
    apply sublist_map_filterMap
    intro file touched isTouched
    rcases Option.map_eq_some_iff.mp isTouched with ⟨time, -, rfl⟩
    rfl
  have candidates : ((indexer.candidatesOf stored force batch).map (·.path)).Sublist
      (batch.map (·.path)) := by
    apply sublist_map_filterMap
    intro file candidate ready
    rw [indexer.candidate?_outcomeOf ready]
    rfl
  rw [← map_path_of_forall₂ places (each _)] at candidates
  have touchPlaces := placed _ touches
  have persistPlaces := placed _ candidates
  rw [List.map_map] at touchPlaces persistPlaces
  rw [batchCalls, List.map_append, List.nodup_append, touchCalls, persistCalls, List.map_map,
    List.map_map]
  refine ⟨touchPlaces, persistPlaces, ?_⟩
  intro place isTouched other isPersisted same
  rcases List.mem_map.mp isTouched with ⟨⟨path, time⟩, touched, rfl⟩
  rcases List.mem_map.mp isPersisted with ⟨finished, isThere, rfl⟩
  rcases List.mem_filterMap.mp touched with ⟨file, fileMember, isTime⟩
  rcases exists_of_mem_right (each _) isThere with ⟨candidate, isCandidate, isFinished⟩
  rcases List.mem_filterMap.mp isCandidate with ⟨otherFile, otherMember, ready⟩
  rcases Option.map_eq_some_iff.mp isTime with ⟨newTime, touchTime, sameTouch⟩
  have path_eq : file.path = path := congrArg Prod.fst sameTouch
  have otherPath : finished.path = otherFile.path := by
    rw [places _ _ isFinished, indexer.candidate?_outcomeOf ready]
    rfl
  have samePath : file.path = otherFile.path :=
    path_eq.trans ((Prod.mk.inj same).2.trans otherPath)
  -- A file whose content has not changed is not indexed.
  rw [← List.inj_on_of_nodup_map once fileMember otherMember samePath] at ready
  cases outcome : indexer.outcomeOf stored force file with
  | ready _ | unchangedByTime _ | oversize | failed => rw [outcome] at touchTime; cases touchTime
  | unchangedByContent _ => rw [outcome] at ready; cases ready

/-- Files of different paths bring about calls about different paths. -/
theorem nodup_fileCalls (each : indexer.Finishes finishes)
    (places : ∀ candidate finished, finishes candidate finished → finished.path = candidate.path)
    (once : (files.map (·.path)).Nodup) :
    ((indexer.fileCalls stored force files).map StoreCall.place).Nodup := by
  rw [fileCalls, List.map_flatMap, List.nodup_flatMap]
  have flattened := flatten_batches (batchSize_pos indexer.config.scan files.length) files
  rw [← flattened, List.map_flatten, List.nodup_flatten] at once
  constructor
  · intro batch member
    apply nodup_batchCalls each places
    exact once.1 _ (List.mem_map_of_mem member)
  · apply (List.pairwise_map.mp once.2).imp
    intro batch other apart place member otherMember
    rcases List.mem_map.mp member with ⟨call, inside, rfl⟩
    rcases List.mem_map.mp otherMember with ⟨otherCall, otherInside, same⟩
    rcases brings_of_mem_batchCalls each inside with ⟨file, fileMember, brings⟩
    rcases brings_of_mem_batchCalls each otherInside with ⟨otherFile, otherFileMember, otherBrings⟩
    rw [path_of_brings places brings, path_of_brings places otherBrings, Prod.mk.injEq] at same
    exact apart (List.mem_map_of_mem fileMember)
      (List.mem_map.mpr ⟨otherFile, otherFileMember, same.2⟩)

end

/-! ## What calls leave true of a store -/

section

variable {indexer} {source : FileSource} {stored : List FileState} {force : Bool}
  {files : List WalkedFile}

/-- Whether a call is one that some files bring about, or removes a file. -/
def IsCalledFor (indexer : Indexer) (files : List WalkedFile) (call : StoreCall) : Prop :=
  (∃ path, call = .remove indexer.project path) ∨ ∃ file ∈ files, ∃ stored force,
    indexer.Brings (fun candidate finished => finished.bare = indexer.outlineOf candidate) stored
      force file call

theorem isCalledFor_fileCalls :
    ∀ call ∈ indexer.fileCalls stored force files, indexer.IsCalledFor files call := by
  intro call member
  rcases brings_of_mem_fileCalls indexer.finishes_bare member with ⟨file, isFile, brings⟩
  exact .inr ⟨file, isFile, stored, force, brings⟩

theorem isCalledFor_removeCalls (files : List WalkedFile) (paths : List String) :
    ∀ call ∈ indexer.removeCalls paths, indexer.IsCalledFor files call := by
  intro call member
  rcases List.mem_map.mp member with ⟨path, -, rfl⟩
  exact .inl ⟨path, rfl⟩

theorem IsCalledFor.comesFrom (supplied : indexer.Supplies source files) {call : StoreCall}
    (called : indexer.IsCalledFor files call) : call.ComesFrom source := by
  intro project finished isPersist
  subst isPersist
  rcases called with ⟨path, isRemove⟩ | ⟨file, isFile, stored, force, brings⟩
  · cases isRemove
  · cases brings with
    | persist isReady isFinished =>
        rw [isFinished]
        exact supplied file isFile

theorem comesFrom_fileCalls (supplied : indexer.Supplies source files) :
    ∀ call ∈ indexer.fileCalls stored force files, call.ComesFrom source :=
  fun call member => (isCalledFor_fileCalls call member).comesFrom supplied

theorem comesFrom_removeCalls (source : FileSource) (paths : List String) :
    ∀ call ∈ indexer.removeCalls paths, call.ComesFrom source :=
  fun call member => (isCalledFor_removeCalls [] paths call member).comesFrom
    (List.forall_mem_nil _)

/-- Whatever is run, what becomes of the store is that calls are performed for the files that the
run comes upon. -/
theorem exists_calls_after (indexer : Indexer) (state : IndexState) (run : IndexerRun) :
    ∃ calls, (indexer.after state run).store = indexer.gate.performAll state.store calls ∧
      ∀ call ∈ calls, indexer.IsCalledFor (indexer.filesOf run) call := by
  cases run with
  | scan disk mode =>
      show ∃ calls, (indexer.scan disk mode state).2.store = _ ∧ _
      cases isThere : indexer.rootTree? disk with
      | none => exact ⟨[], indexer.store_scan_of_missing isThere mode state, nofun⟩
      | some tree =>
          cases loads : indexer.gate.refuses .load "" with
          | some error => exact ⟨[], indexer.store_scan_of_refused loads disk mode state, nofun⟩
          | none =>
              refine ⟨_, indexer.store_scan mode state (by rw [isThere]; rfl) loads, ?_⟩
              intro call member
              rcases List.mem_append.mp member with member | member
              · exact isCalledFor_fileCalls call member
              · split at member
                · exact isCalledFor_removeCalls _ _ call member
                · exact absurd member List.not_mem_nil
  | indexPaths disk paths =>
      rcases indexer.store_indexPaths disk paths state with ⟨removed, calls, same, worked⟩
      refine ⟨_, same, ?_⟩
      intro call member
      rcases List.mem_append.mp member with member | member
      · exact isCalledFor_removeCalls _ _ call member
      · rcases worked with rfl | ⟨stored, rfl⟩
        · exact absurd member List.not_mem_nil
        · exact isCalledFor_fileCalls call member
  | removePaths paths =>
      rcases indexer.store_removePaths paths 0 state with ⟨done, same⟩
      exact ⟨_, same, isCalledFor_removeCalls _ done⟩
  | restart => exact ⟨[], rfl, nofun⟩

/-- The rows of a store fit together behind every run. -/
theorem isSound_after (run : IndexerRun) {state : IndexState} (sound : state.store.IsSound) :
    (indexer.after state run).store.IsSound := by
  rcases indexer.exists_calls_after state run with ⟨calls, same, -⟩
  rw [same]
  exact indexer.gate.isSound_performAll sound calls

theorem spares_after (isApart : source.IsApart) {run : IndexerRun}
    (supplied : indexer.Supplies source (indexer.filesOf run)) {state : IndexState}
    (sound : state.store.IsSound) (spares : state.store.Spares source) :
    (indexer.after state run).store.Spares source := by
  rcases indexer.exists_calls_after state run with ⟨calls, same, called⟩
  rw [same]
  exact StoreGate.spares_performAll isApart
    (fun call member => (called call member).comesFrom supplied) sound spares

/-- An indexer that has found nothing at first has a store that fits together and into which the
files that it has come upon fit. -/
theorem afterAll_spares (isApart : source.IsApart) {runs : List IndexerRun}
    (supplied : ∀ run ∈ runs, indexer.Supplies source (indexer.filesOf run)) :
    (indexer.afterAll runs).store.IsSound ∧ (indexer.afterAll runs).store.Spares source := by
  have all : ∀ (runs : List IndexerRun),
      (∀ run ∈ runs, indexer.Supplies source (indexer.filesOf run)) →
      ∀ state : IndexState, state.store.IsSound → state.store.Spares source →
      (runs.foldl indexer.after state).store.IsSound ∧
        (runs.foldl indexer.after state).store.Spares source := by
    intro runs
    induction runs with
    | nil => exact fun _ state sound spares => ⟨sound, spares⟩
    | cons run runs induction =>
        intro supplied state sound spares
        rw [List.forall_mem_cons] at supplied
        exact induction supplied.2 _ (isSound_after run sound)
          (spares_after isApart supplied.1 sound spares)
  exact all runs supplied {} Store.isSound_empty (Store.spares_empty source)

end

end SourceIndex.Indexer
