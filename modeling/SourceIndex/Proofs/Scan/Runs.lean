import SourceIndex.Proofs.Scan.Indexing
import SourceIndex.Scan.Paths

/-! What whole runs come to: a scan works off the files of a tree batch by batch and then removes
what is gone. -/

namespace SourceIndex

theorem flatten_batches {α : Type} {size : Nat} (positive : 0 < size) (items : List α) :
    (batches size items).flatten = items := by
  fun_induction batches size items with
  | case1 items stops =>
      rcases stops with empty | zero
      · exact (List.isEmpty_iff.mp empty).symm
      · omega
  | case2 items goesOn induction =>
      rw [List.flatten_cons, induction, List.take_append_drop]

namespace Indexer

variable (indexer : Indexer) {source : FileSource} {run : Run} {view : FileMap}

/-- What may be stored when some files are indexed. -/
def outline (file : WalkedFile) : IndexedFile :=
  indexer.outlineOf (Candidate.ofFile indexer.classifier file)

/-- Whether all that may be stored when some files are indexed comes from a source. -/
def Supplies (source : FileSource) (files : List WalkedFile) : Prop :=
  ∀ file ∈ files, source indexer.project (indexer.outline file)

/-! ## Batches -/

theorem candidate?_outcomeOf {stored : List FileState} {force : Bool} {file : WalkedFile}
    {candidate : Candidate}
    (isReady : (indexer.outcomeOf stored force file).candidate? = some candidate) :
    candidate = Candidate.ofFile indexer.classifier file := by
  unfold outcomeOf at isReady
  rw [Candidate.read_eq] at isReady
  split at isReady
  · cases isReady
  · split at isReady
    · cases isReady
    · split at isReady
      · cases isReady
      · split at isReady
        · cases isReady
        · exact (Option.some.inj isReady).symm

/-- What is stored when a batch has been worked off: new times first, then new files. -/
def batchIn (stored : List FileState) (force : Bool) (view : FileMap) (batch : List WalkedFile) :
    FileMap :=
  indexer.persistAllIn (indexer.touchAllIn view (indexer.touchesOf stored force batch))
    ((indexer.candidatesOf stored force batch).map indexer.outlineOf)

@[simp] theorem store_checkMemory (run : Run) : (indexer.checkMemory run).store = run.store := by
  unfold checkMemory
  simp only
  split
  · rfl
  · split
    · rfl
    · rfl

theorem comesFrom_touchAllIn (touches : List (String × FileTime)) {view : FileMap}
    (comes : view.ComesFrom source) : (indexer.touchAllIn view touches).ComesFrom source := by
  induction touches generalizing view with
  | nil => exact comes
  | cons touched touches induction =>
      have first : (indexer.touchIn view touched.1 touched.2).ComesFrom source := by
        unfold touchIn
        split
        · exact comes
        · exact comes.touch indexer.project touched.1 touched.2
      exact induction first

theorem keeps_processBatch (isApart : source.IsApart) (stored : List FileState) (force : Bool)
    (position : ScanPosition) (batch : List WalkedFile) (supplied : indexer.Supplies source batch)
    (keeps : run.store.Keeps source view) :
    (indexer.processBatch stored force position batch run).store.Keeps source
      (indexer.batchIn stored force view batch) := by
  let entered := run.enter .readingAndFiltering position
  have enteredHolds : entered.store.Holds view := keeps.holds
  have reading := indexer.candidates_readBatch stored force batch entered
  have touched := indexer.holds_readBatch stored force batch enteredHolds
  have comes := indexer.comesFrom_touchAllIn (indexer.touchesOf stored force batch) keeps.comes
  unfold processBatch batchIn
  simp only
  rw [reading, store_checkMemory]
  split
  · next nothing =>
      rw [List.isEmpty_iff.mp nothing]
      exact ⟨touched, comes⟩
  · apply indexer.keeps_indexCandidates isApart
    · intro candidate member
      rcases List.mem_filterMap.mp member with ⟨file, fileMember, isReady⟩
      rw [indexer.candidate?_outcomeOf isReady]
      exact supplied file fileMember
    · exact ⟨touched, comes⟩

/-- What is stored when some files have been worked off. -/
def processIn (stored : List FileState) (force : Bool) (view : FileMap) (files : List WalkedFile) :
    FileMap :=
  (batches (batchSize indexer.config.scan files.length) files).foldl
    (indexer.batchIn stored force) view

/-- What working off one more batch comes to, and how far the files have been worked off then. -/
def batchStep (stored : List FileState) (force : Bool) (reached : Run × ScanPosition)
    (batch : List WalkedFile) : Run × ScanPosition :=
  let position := { reached.2 with batch := reached.2.batch + 1 }
  (indexer.processBatch stored force position batch reached.1,
    { position with processed := position.processed + batch.length })

theorem keeps_processFiles (isApart : source.IsApart) (stored : List FileState) (force : Bool)
    (files : List WalkedFile) (supplied : indexer.Supplies source files)
    (keeps : run.store.Keeps source view) :
    (indexer.processFiles stored force files run).store.Keeps source
      (indexer.processIn stored force view files) := by
  have all : ∀ (parts : List (List WalkedFile)), (∀ part ∈ parts, indexer.Supplies source part) →
      ∀ (run : Run) (position : ScanPosition) (view : FileMap), run.store.Keeps source view →
      (parts.foldl (indexer.batchStep stored force) (run, position)).1.store.Keeps source
          (parts.foldl (indexer.batchIn stored force) view) := by
    intro parts
    induction parts with
    | nil => exact fun _ _ _ _ keeps => keeps
    | cons part parts induction =>
        intro supplied run position view keeps
        apply induction
        · exact fun other member => supplied other (List.mem_cons_of_mem _ member)
        · exact indexer.keeps_processBatch isApart stored force _ part
            (supplied part List.mem_cons_self) keeps
  apply all _ _ run _ view keeps
  intro part partMember file member
  apply supplied
  rw [← flatten_batches (batchSize_pos indexer.config.scan files.length) files]
  exact List.mem_flatten_of_mem partMember member

/-! ## Removing -/

/-- No file at a path, unless the store refuses to remove it. -/
def removeIn (view : FileMap) (path : String) : FileMap :=
  match indexer.gate.refuses .remove path with
  | some _ => view
  | none => view.remove indexer.project path

theorem store_prune (run : Run) (path : String) :
    (indexer.prune run path).store =
      storeAfter run.store (indexer.gate.remove run.store indexer.project path) := by
  unfold prune
  simp only
  cases indexer.gate.remove run.store indexer.project path with
  | error error => rfl
  | ok answer =>
      rcases answer with ⟨wasThere, store⟩
      cases wasThere with
      | false => rfl
      | true => rfl

theorem keeps_storeAfter_remove {store : Store} (keeps : store.Keeps source view) (path : String) :
    (storeAfter store (indexer.gate.remove store indexer.project path)).Keeps source
      (indexer.removeIn view path) := by
  unfold StoreGate.remove StoreGate.attempt removeIn
  cases indexer.gate.refuses .remove path with
  | some error => exact keeps
  | none => exact ⟨keeps.holds.remove indexer.project path, keeps.comes.remove indexer.project path⟩

/-- What is stored when some paths have been removed. -/
def removeAllIn (view : FileMap) (paths : List String) : FileMap :=
  paths.foldl indexer.removeIn view

theorem keeps_pruneAll (paths : List String) {run : Run} {view : FileMap}
    (keeps : run.store.Keeps source view) :
    (paths.foldl indexer.prune run).store.Keeps source (indexer.removeAllIn view paths) := by
  induction paths generalizing run view with
  | nil => exact keeps
  | cons path paths induction =>
      apply induction
      rw [store_prune]
      exact indexer.keeps_storeAfter_remove keeps path

/-! ## Scans -/

/-- The files that a scan comes upon. -/
def filesOn (disk : FileTree) : List WalkedFile :=
  match indexer.rootTree? disk with
  | none => []
  | some tree => tree.walk indexer.options indexer.policy

variable {indexer} in
theorem filesOn_eq {disk tree : FileTree} (isThere : indexer.rootTree? disk = some tree) :
    indexer.filesOn disk = tree.walk indexer.options indexer.policy := by
  rw [filesOn, isThere]

/-- The paths that a scan removes if they are stored: those at which there is no file. -/
def missingFrom (stored : List FileState) (files : List WalkedFile) : List String :=
  (((stored.map (·.path)).filter fun path => ! (files.map (·.path)).contains path)).mergeSort
    (· ≤ ·)

/-- What is stored when a scan has come upon some files. -/
def scanIn (stored : List FileState) (force : Bool) (view : FileMap) (files : List WalkedFile) :
    FileMap :=
  let processed := indexer.processIn stored force view files
  if indexer.config.scan.pruneMissing then indexer.removeAllIn processed (missingFrom stored files)
  else processed

/-- A scan that is not hindered by a missing root or by a store that refuses to be read stores
what it comes upon. -/
theorem keeps_scan (isApart : source.IsApart) {disk : FileTree} (mode : ScanMode)
    {state : IndexState}
    (supplied : indexer.Supplies source (indexer.filesOn disk))
    (isThere : (indexer.rootTree? disk).isSome) (loads : indexer.gate.refuses .load "" = none)
    (keeps : state.store.Keeps source view) :
    (indexer.scan disk mode state).2.store.Keeps source
      (indexer.scanIn (state.store.states indexer.project) (mode = .force) view
        (indexer.filesOn disk)) := by
  rcases Option.isSome_iff_exists.mp isThere with ⟨tree, found⟩
  have states : indexer.gate.states state.store indexer.project =
      .ok (state.store.states indexer.project) := by
    unfold StoreGate.states StoreGate.attempt
    rw [loads]
  rw [filesOn_eq found] at supplied ⊢
  let start : Run := ((((Run.ofState state).enter .scanning {}).count fun stats =>
    { stats with totalFiles := (tree.walk indexer.options indexer.policy).length }).emit
    (.started indexer.project indexer.root mode (tree.walk indexer.options indexer.policy).length))
  have startKeeps : start.store.Keeps source view := keeps
  have processed := indexer.keeps_processFiles isApart (state.store.states indexer.project)
    (mode = .force) (tree.walk indexer.options indexer.policy) supplied startKeeps
  have sameStore : ((Run.ofState state).enter .scanning {}).store = state.store := rfl
  unfold scan scanIn
  simp only [found, sameStore, states]
  split
  · exact indexer.keeps_pruneAll (missingFrom (state.store.states indexer.project)
      (tree.walk indexer.options indexer.policy)) processed
  · exact processed

/-- A scan that does not find its root stores nothing. -/
theorem store_scan_of_missing {disk : FileTree} (missing : indexer.rootTree? disk = none)
    (mode : ScanMode) (state : IndexState) :
    (indexer.scan disk mode state).2.store = state.store := by
  unfold scan
  simp only [missing]
  rfl

/-- Nor does one for which the store cannot be read. -/
theorem store_scan_of_refused {error : StoreError}
    (refused : indexer.gate.refuses .load "" = some error)
    (disk : FileTree) (mode : ScanMode) (state : IndexState) :
    (indexer.scan disk mode state).2.store = state.store := by
  have states : ∀ store, indexer.gate.states store indexer.project = .error error := by
    intro store
    unfold StoreGate.states StoreGate.attempt
    rw [refused]
  unfold scan
  simp only
  split
  · rfl
  · simp only [states]
    rfl

/-! ## Single paths -/

theorem keeps_removePaths (paths : List String) (removed : Nat) {state : IndexState}
    {view : FileMap}
    (keeps : state.store.Keeps source view) :
    ∃ left, (indexer.removePaths paths removed state).2.store.Keeps source left := by
  induction paths generalizing removed state view with
  | nil => exact ⟨view, keeps⟩
  | cons path paths induction =>
      have first := indexer.keeps_storeAfter_remove keeps path
      unfold removePaths
      cases answered : indexer.gate.remove state.store indexer.project path with
      | error error => exact ⟨view, keeps⟩
      | ok answer =>
          rw [answered] at first
          exact induction _ first

/-- The files that are there at some paths. -/
def filesAt (disk : FileTree) (paths : List String) : List WalkedFile :=
  presentFiles (paths.map (indexer.standing disk))

theorem keeps_indexPaths (isApart : source.IsApart) {disk : FileTree} {paths : List String}
    {state : IndexState} (supplied : indexer.Supplies source (indexer.filesAt disk paths))
    (keeps : state.store.Keeps source view) :
    ∃ left, (indexer.indexPaths disk paths state).2.store.Keeps source left := by
  let files := indexer.filesAt disk paths
  let run : Run := (((Run.ofState state).enter .scanning {}).count fun stats =>
    { stats with totalFiles := files.length }).emit
    (.started indexer.project indexer.root .incremental files.length)
  have started : run.toIndexState.store.Keeps source view := keeps
  have removed := indexer.keeps_removePaths (gonePaths (paths.map (indexer.standing disk))) 0
    started
  unfold indexPaths
  simp only
  split
  · exact ⟨view, keeps⟩
  · split
    · exact removed
    · split
      · exact removed
      · split
        · exact removed
        · next stored _ =>
            rcases removed with ⟨left, leftKeeps⟩
            exact ⟨_, indexer.keeps_processFiles isApart stored false files supplied leftKeeps⟩

end Indexer

/-! ## Sequences of runs -/

/-- What an indexer may be asked to do. When it is started anew, nothing is left of what it has
kept in memory. -/
inductive IndexerRun
  | scan (disk : FileTree) (mode : ScanMode)
  | indexPaths (disk : FileTree) (paths : List String)
  | removePaths (paths : List String)
  | restart

namespace Indexer

variable (indexer : Indexer)

/-- What is left when a run has come to its end. -/
def after (state : IndexState) : IndexerRun → IndexState
  | .scan disk mode => (indexer.scan disk mode state).2.toIndexState
  | .indexPaths disk paths => (indexer.indexPaths disk paths state).2.toIndexState
  | .removePaths paths => (indexer.removePaths paths 0 state).2
  | .restart => { store := state.store }

/-- What is left of some runs, the first of which finds nothing. -/
def afterAll (runs : List IndexerRun) : IndexState := runs.foldl indexer.after {}

/-- The files that a run comes upon. -/
def filesOf : IndexerRun → List WalkedFile
  | .scan disk _ => indexer.filesOn disk
  | .indexPaths disk paths => indexer.filesAt disk paths
  | .removePaths _ | .restart => []

variable {source : FileSource}

theorem keeps_after (isApart : source.IsApart) {run : IndexerRun}
    (supplied : indexer.Supplies source (indexer.filesOf run)) {state : IndexState} {view : FileMap}
    (keeps : state.store.Keeps source view) :
    ∃ left, (indexer.after state run).store.Keeps source left := by
  cases run with
  | scan disk mode =>
      show ∃ left, (indexer.scan disk mode state).2.store.Keeps source left
      cases isThere : indexer.rootTree? disk with
      | none =>
          rw [indexer.store_scan_of_missing isThere]
          exact ⟨view, keeps⟩
      | some tree =>
          cases loads : indexer.gate.refuses .load "" with
          | some error =>
              rw [indexer.store_scan_of_refused loads]
              exact ⟨view, keeps⟩
          | none =>
              have isSome : (indexer.rootTree? disk).isSome := by rw [isThere]; rfl
              exact ⟨_, indexer.keeps_scan isApart mode supplied isSome loads keeps⟩
  | indexPaths disk paths => exact indexer.keeps_indexPaths isApart supplied keeps
  | removePaths paths => exact indexer.keeps_removePaths paths 0 keeps
  | restart => exact ⟨view, keeps⟩

theorem keeps_afterAll (isApart : source.IsApart) {runs : List IndexerRun}
    (supplied : ∀ run ∈ runs, indexer.Supplies source (indexer.filesOf run)) :
    ∃ view, (indexer.afterAll runs).store.Keeps source view := by
  have all : ∀ (runs : List IndexerRun),
      (∀ run ∈ runs, indexer.Supplies source (indexer.filesOf run)) →
      ∀ (state : IndexState) view, state.store.Keeps source view →
      ∃ left, (runs.foldl indexer.after state).store.Keeps source left := by
    intro runs
    induction runs with
    | nil => exact fun _ state view keeps => ⟨view, keeps⟩
    | cons run runs induction =>
        intro supplied state view keeps
        rcases indexer.keeps_after isApart (supplied run List.mem_cons_self) keeps with
          ⟨left, leftKeeps⟩
        exact induction (fun other member => supplied other (List.mem_cons_of_mem _ member)) _ left
          leftKeeps
  exact all runs supplied {} FileMap.empty ⟨Store.holds_empty, FileMap.comesFrom_empty source⟩

end Indexer

end SourceIndex
