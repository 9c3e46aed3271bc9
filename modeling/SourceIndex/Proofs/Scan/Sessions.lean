import SourceIndex.Proofs.Scan.Accounting
import SourceIndex.Proofs.Scan.Clients

/-! The runs of an indexer as sessions with a store that others may use in between. An indexer that
has the store for itself does in such a session what its run does. -/

namespace SourceIndex

/-! ## Sessions and what they come to -/

namespace Session

variable {α β γ δ σ ι : Type} {client : StoreClient}

/-- Goes through items one after the other. -/
def forEach (act : σ → ι → Session σ) : List ι → σ → Session σ
  | [], state => ended state
  | item :: items, state => (act state item).bind (forEach act items)

def map (change : α → β) (session : Session α) : Session β := session.bind fun result =>
  ended (change result)

/-- Whether a session that has a store for itself comes to what is done with the store directly.
What the session keeps of the store itself is out of date; `on` puts in its place what is there. -/
def Yields (client : StoreClient) (on : α → Store → γ) (session : Session α) (direct : Store → γ) :
    Prop :=
  ∀ store, on (session.alone client store).1 (session.alone client store).2 = direct store

variable {on : α → Store → γ} {onNext : β → Store → δ} {session : Session α}

theorem yields_ended (result : α) : (ended result).Yields client on (on result) := fun _ => rfl

theorem yields_bind {next : α → Session β} {direct : Store → γ} (directNext : γ → δ)
    (yields : session.Yields client on direct)
    (later : ∀ result, (next result).Yields client onNext fun store =>
      directNext (on result store)) :
    (session.bind next).Yields client onNext fun store => directNext (direct store) := by
  intro store
  rw [alone_bind]
  exact (later _ _).trans (congrArg directNext (yields store))

theorem yields_forEach {on : σ → Store → γ} {act : σ → ι → Session σ} {direct : γ → ι → γ}
    (each : ∀ state item, (act state item).Yields client on fun store =>
      direct (on state store) item) (items : List ι) (state : σ) :
    (forEach act items state).Yields client on fun store =>
      items.foldl direct (on state store) := by
  induction items generalizing state with
  | nil => exact yields_ended state
  | cons item items induction =>
      exact yields_bind (items.foldl direct) (each state item) induction

theorem yields_map {change : α → β} {direct : Store → γ} (directChange : γ → δ)
    (yields : session.Yields client on direct)
    (same : ∀ result store, onNext (change result) store = directChange (on result store)) :
    (session.map change).Yields client onNext fun store => directChange (direct store) :=
  yields_bind directChange yields same

theorem asks_map {holds : StoreRequest → Prop} {change : α → β} (asks : session.Asks holds) :
    (session.map change).Asks holds := asks_bind asks fun _ => trivial

theorem asks_forEach {holds : StoreRequest → Prop} {act : σ → ι → Session σ} {items : List ι}
    (each : ∀ item ∈ items, ∀ state, (act state item).Asks holds) (state : σ) :
    (forEach act items state).Asks holds := by
  induction items generalizing state with
  | nil => exact trivial
  | cons item items induction =>
      rw [List.forall_mem_cons] at each
      exact asks_bind (each.1 state) (induction each.2)

theorem Matches.map {related : α → β → Prop} {relatedNext : γ → δ → Prop} {session : Session α}
    {otherSession : Session β} (same : Matches related session otherSession) {change : α → γ}
    {otherChange : β → δ}
    (later : ∀ {result other}, related result other →
      relatedNext (change result) (otherChange other)) :
    Matches relatedNext (session.map change) (otherSession.map otherChange) :=
  same.bind fun related => .ended (later related)

theorem matches_forEach {related : σ → σ → Prop} {act otherAct : σ → ι → Session σ}
    (each : ∀ item {state other}, related state other →
      Matches related (act state item) (otherAct other item))
    (items : List ι) {state other : σ} (same : related state other) :
    Matches related (forEach act items state) (forEach otherAct items other) := by
  induction items generalizing state other with
  | nil => exact .ended same
  | cons item items induction => exact (each item same).bind induction

end Session

/-! ## Runs with another store -/

def IndexState.on (state : IndexState) (store : Store) : IndexState := { state with store }

def Run.on (run : Run) (store : Store) : Run := { run with store }

namespace Indexer

variable (indexer : Indexer)

theorem remember_on (path : String) (known : FileState) (time : FileTime) (size : Nat) (run : Run)
    (store : Store) : indexer.remember path known time size (run.on store) =
      (indexer.remember path known time size run).on store := by
  unfold remember
  have same : (run.on store).records = run.records := rfl
  rw [same]
  cases run.records.lookup path <;> rfl

def Reads.on (reads : Reads) (store : Store) : Reads := { reads with run := reads.run.on store }

theorem takeRead_on (stored : List FileState) (reads : Reads) (place : Nat) (path : String)
    (outcome : ReadOutcome) (store : Store) :
    indexer.takeRead stored (reads.on store) place path outcome =
      (indexer.takeRead stored reads place path outcome).on store := by
  cases outcome with
  | unchangedByTime size =>
      unfold takeRead
      cases recordOf? stored path with
      | none => rfl
      | some known =>
          let run := (reads.run.count fun stats =>
            { stats with processed := stats.processed + 1 }).count fun stats =>
            { stats with skippedByTime := stats.skippedByTime + 1 }
          exact congrArg (fun run => Reads.mk run reads.ready reads.touches)
            (indexer.remember_on path known known.time size run store)
  | ready _ | unchangedByContent _ | oversize | failed => rfl

theorem embedFiles_on (candidates : List Candidate) (run : Run) (store : Store) :
    (indexer.embedFiles candidates (run.on store)).2.2 =
      (indexer.embedFiles candidates run).2.2.on store := by
  unfold embedFiles
  simp only
  split
  · rfl
  · split <;> rfl

theorem embedChunks_on (files : List IndexedFile) (run : Run) (store : Store) :
    (indexer.embedChunks files (run.on store)).2 = (indexer.embedChunks files run).2.on store := by
  unfold embedChunks
  simp only
  split
  · rfl
  · split <;> rfl

theorem checkMemory_on (run : Run) (store : Store) :
    indexer.checkMemory (run.on store) = (indexer.checkMemory run).on store := by
  unfold checkMemory
  cases indexer.residentBytes with
  | none => rfl
  | some resident =>
      simp only
      split <;> rfl

/-! ## Runs as sessions

Each step of a run that turns to the store asks for that and goes by the answer. Others may have
changed the store by then, so nothing is looked up in what the run holds of it. -/

/-- As whom an indexer uses the store. -/
def client : StoreClient := ⟨indexer.project, indexer.gate⟩

/-- What becomes of the files in memory when the new time of a file is stored. -/
def recollect (stored : List FileState) (run : Run) (path : String) (time : FileTime) : Run :=
  match recordOf? stored path with
  | some known =>
    let size := ((run.records.lookup path).map (·.size)).getD 0
    indexer.remember path known time size run
  | none => run

def touching (stored : List FileState) (run : Run) (path : String) (time : FileTime) :
    Session Run :=
  let run := run.count fun stats => { stats with skippedByContent := stats.skippedByContent + 1 }
  .ask (.touch path time) fun _ => .ended (indexer.recollect stored run path time)

def persisting (run : Run) (file : IndexedFile) : Session Run :=
  .ask (.persist file) fun
    | .error _ => .ended <| run.count fun stats =>
        { stats with ackFailed := stats.ackFailed + 1, failed := stats.failed + 1 }
    | .ok acks =>
      let confirmed := acks.countP (·.isConfirmed)
      let run := run.count fun stats =>
        { stats with
          ackSuccess := stats.ackSuccess + confirmed
          ackFailed := stats.ackFailed + (acks.length - confirmed)
          indexed := stats.indexed + 1
          totalLines := stats.totalLines + file.lineCount }
      let run := run.emit
        (.fileIndexed file.path file.language file.lineCount file.embedding.isSome)
      .ended (run.setRecord file.release)

def pruning (run : Run) (path : String) : Session Run :=
  .ask (.remove path) fun
    | .ok true => .ended <|
        (run.count fun stats => { stats with pruned := stats.pruned + 1 }).eraseRecord path
    | .ok false | .error _ => .ended (run.eraseRecord path)

/-- What precedes the storing of files: they are embedded and analysed. -/
def prepare (position : ScanPosition) (candidates : List Candidate) (run : Run) : Run :=
  let embedded := indexer.embedFiles candidates (run.enter .embedding position)
  let run := embedded.2.2.enter .analyzing position
  let files := embedded.1.map fun (candidate, embedding) =>
    indexer.analyzeFile candidate (indexer.build candidate embedding)
  let embedding := indexer.config.embedding
  let run := if embedding.enabled && embedding.embedChunks && embedded.2.1
    then (indexer.embedChunks files run).2 else run
  run.enter .persisting position

def indexing (position : ScanPosition) (candidates : List Candidate) (run : Run) : Session Run :=
  .forEach persisting (indexer.finishedFiles candidates)
    (indexer.prepare position candidates run)

/-- What precedes the storing of new times: the files of a batch are read. -/
def readThrough (stored : List FileState) (force : Bool) (batch : List WalkedFile) (run : Run) :
    Reads :=
  (indexer.outcomesOf stored force batch).foldl (fun reads (place, path, outcome) =>
    indexer.takeRead stored reads place path outcome) { run }

def processingBatch (stored : List FileState) (force : Bool) (position : ScanPosition)
    (batch : List WalkedFile) (run : Run) : Session Run :=
  let reads := indexer.readThrough stored force batch (run.enter .readingAndFiltering position)
  let candidates := indexer.candidatesOf stored force batch
  let touched := Session.forEach (fun run (path, time) => indexer.touching stored run path time)
    (indexer.touchesOf stored force batch) reads.run
  let indexed := touched.bind fun run =>
    if candidates.isEmpty then .ended run else indexer.indexing position candidates run
  indexed.map indexer.checkMemory

def processingStep (stored : List FileState) (force : Bool) (reached : Run × ScanPosition)
    (batch : List WalkedFile) : Session (Run × ScanPosition) :=
  let position := { reached.2 with batch := reached.2.batch + 1 }
  (indexer.processingBatch stored force position batch reached.1).map fun run =>
    (run, { position with processed := position.processed + batch.length })

def processingFiles (stored : List FileState) (force : Bool) (files : List WalkedFile) (run : Run) :
    Session Run :=
  let parts := batches (batchSize indexer.config.scan files.length) files
  let start : ScanPosition := { total := files.length, batches := parts.length }
  (Session.forEach (indexer.processingStep stored force) parts (run, start)).map (·.1)

def scanning (disk : FileTree) (mode : ScanMode) (state : IndexState) :
    Session (ScanReport × Run) :=
  let run := (Run.ofState state).enter .scanning {}
  match indexer.rootTree? disk with
  | none => .ended (indexer.finish run (some (.invalidRoot indexer.root)))
  | some tree =>
    let files := tree.walk indexer.options indexer.policy
    .ask .load fun
      | .error error => .ended (indexer.finish run (some (.store error)))
      | .ok stored =>
        let processed := indexer.processingFiles stored (mode = .force) files
          (indexer.begun mode files state)
        let scanned := processed.bind fun run =>
          if indexer.config.scan.pruneMissing
          then .forEach pruning (missingFrom stored files) run else .ended run
        scanned.map (indexer.finish · none)

def removing : (paths : List String) → (removed : Nat) → IndexState →
    Session (Except StoreError Nat × IndexState)
  | [], removed, state => .ended (.ok removed, state)
  | path :: paths, removed, state =>
    .ask (.remove path) fun
      | .error error => .ended (.error error, state)
      | .ok wasThere =>
        removing paths (if wasThere then removed + 1 else removed)
          { state with records := RecordIndex.erase state.records path }

/-- What follows when the files that are gone have been removed. -/
def indexingLeft (files : List WalkedFile) (begun : Run)
    (cleared : Except StoreError Nat × IndexState) : Session (ScanReport × Run) :=
  let run : Run := { begun with toIndexState := cleared.2 }
  match cleared.1 with
  | .error error => .ended (indexer.finish run (some (.store error)))
  | .ok removed =>
    let run := run.count fun stats => { stats with pruned := stats.pruned + removed }
    if files.isEmpty then .ended (indexer.finish run none)
    else
      .ask .load fun
        | .error error => .ended (indexer.finish run (some (.store error)))
        | .ok stored => (indexer.processingFiles stored false files run).map (indexer.finish · none)

def indexingPaths (disk : FileTree) (paths : List String) (state : IndexState) :
    Session (ScanReport × Run) :=
  match indexer.rootTree? disk with
  | none => .ended (indexer.finish ((Run.ofState state).enter .scanning {})
      (some (.invalidRoot indexer.root)))
  | some _ =>
    let files := indexer.filesAt disk paths
    let begun := indexer.begun .incremental files state
    (removing (indexer.goneAt disk paths) 0 begun.toIndexState).bind
      (indexer.indexingLeft files begun)

/-! ## Runs that have the store for themselves -/

theorem recollect_on (stored : List FileState) (run : Run) (path : String) (time : FileTime)
    (store : Store) : indexer.recollect stored (run.on store) path time =
      (indexer.recollect stored run path time).on store := by
  unfold recollect
  cases recordOf? stored path with
  | none => rfl
  | some known => exact indexer.remember_on path known time _ run store

theorem yields_touching (stored : List FileState) (run : Run) (path : String) (time : FileTime) :
    (indexer.touching stored run path time).Yields indexer.client Run.on fun store =>
      indexer.touch stored (run.on store) path time := by
  intro store
  let counted := run.count fun stats =>
    { stats with skippedByContent := stats.skippedByContent + 1 }
  unfold touch touching Session.alone StoreClient.perform client
  have asked : ((run.on store).count fun stats =>
    { stats with skippedByContent := stats.skippedByContent + 1 }).store = store := rfl
  simp only [asked]
  rcases indexer.gate.touch store indexer.project path time with error | ⟨wasThere, left⟩
  · exact (indexer.recollect_on stored counted path time store).symm
  · exact (indexer.recollect_on stored counted path time left).symm

theorem yields_persisting (run : Run) (file : IndexedFile) :
    (persisting run file).Yields indexer.client Run.on fun store =>
      indexer.persist (run.on store) file := by
  intro store
  unfold persist persisting Session.alone StoreClient.perform client
  have asked : (run.on store).store = store := rfl
  simp only [asked]
  rcases indexer.gate.persist store indexer.project file with error | ⟨acks, left⟩
  · rfl
  · rfl

theorem yields_pruning (run : Run) (path : String) :
    (pruning run path).Yields indexer.client Run.on fun store =>
      indexer.prune (run.on store) path := by
  intro store
  unfold prune pruning Session.alone StoreClient.perform client
  have asked : (run.on store).store = store := rfl
  simp only [asked]
  rcases indexer.gate.remove store indexer.project path with error | ⟨_ | _, left⟩
  · rfl
  · rfl
  · rfl

theorem readThrough_on (stored : List FileState) (force : Bool) (batch : List WalkedFile)
    (run : Run) (store : Store) : indexer.readThrough stored force batch (run.on store) =
      (indexer.readThrough stored force batch run).on store := by
  let take (reads : Reads) (outcome : Nat × String × ReadOutcome) : Reads :=
    indexer.takeRead stored reads outcome.1 outcome.2.1 outcome.2.2
  have taken (reads : Reads) (outcome : Nat × String × ReadOutcome) :
      take (reads.on store) outcome = (take reads outcome).on store :=
    indexer.takeRead_on stored reads outcome.1 outcome.2.1 outcome.2.2 store
  exact @List.foldl_hom _ _ _ (Reads.on · store) take take (indexer.outcomesOf stored force batch)
    { run } taken

theorem prepare_on (position : ScanPosition) (candidates : List Candidate) (run : Run)
    (store : Store) : indexer.prepare position candidates (run.on store) =
      (indexer.prepare position candidates run).on store := by
  have entered : (run.on store).enter .embedding position =
    (run.enter .embedding position).on store := rfl
  have given := indexer.embedFiles_eq candidates (run.enter .embedding position)
  have givenOn := indexer.embedFiles_eq candidates ((run.enter .embedding position).on store)
  unfold prepare
  simp only [entered, given.1, given.2, givenOn.1, givenOn.2, embedFiles_on]
  split
  · exact congrArg (Run.enter · .persisting position)
      (indexer.embedChunks_on _ (Run.enter _ .analyzing position) store)
  · rfl

theorem indexCandidates_prepare (position : ScanPosition) (candidates : List Candidate)
    (run : Run) : indexer.indexCandidates position candidates run =
      (indexer.finishedFiles candidates).foldl indexer.persist
        (indexer.prepare position candidates run) := by
  have embedded := indexer.embedFiles_eq candidates (run.enter .embedding position)
  unfold indexCandidates finishedFiles prepare
  simp only [embedded.1, embedded.2]
  split
  · rw [← indexer.embedChunks_eq]
  · rfl

theorem yields_indexing (position : ScanPosition) (candidates : List Candidate) (run : Run) :
    (indexer.indexing position candidates run).Yields indexer.client Run.on fun store =>
      indexer.indexCandidates position candidates (run.on store) := by
  simp only [indexCandidates_prepare, prepare_on]
  exact Session.yields_forEach indexer.yields_persisting _ _

/-- Files that have to be indexed are stored, if there are any. -/
def indexIfAny (position : ScanPosition) (candidates : List Candidate) (run : Run) : Run :=
  if candidates.isEmpty then run else indexer.indexCandidates position candidates run

theorem processBatch_readThrough (stored : List FileState) (force : Bool) (position : ScanPosition)
    (batch : List WalkedFile) (run : Run) :
    indexer.processBatch stored force position batch run =
      indexer.checkMemory (indexer.indexIfAny position (indexer.candidatesOf stored force batch)
        ((indexer.touchesOf stored force batch).foldl
          (fun run touched => indexer.touch stored run touched.1 touched.2)
          (indexer.readThrough stored force batch
            (run.enter .readingAndFiltering position)).run)) := by
  have candidates := indexer.candidates_readBatch stored force batch
    (run.enter .readingAndFiltering position)
  have read := indexer.readBatch_eq stored force batch (run.enter .readingAndFiltering position)
  have processed : indexer.processBatch stored force position batch run =
      indexer.checkMemory (indexer.indexIfAny position
        (indexer.readBatch stored force batch (run.enter .readingAndFiltering position)).1
        (indexer.readBatch stored force batch (run.enter .readingAndFiltering position)).2) := rfl
  rw [processed, candidates, read]
  rfl

theorem yields_processingBatch (stored : List FileState) (force : Bool) (position : ScanPosition)
    (batch : List WalkedFile) (run : Run) :
    (indexer.processingBatch stored force position batch run).Yields indexer.client Run.on
      fun store => indexer.processBatch stored force position batch (run.on store) := by
  have entered (store : Store) : (run.on store).enter .readingAndFiltering position =
    (run.enter .readingAndFiltering position).on store := rfl
  have indexed (run : Run) :
      (if (indexer.candidatesOf stored force batch).isEmpty then .ended run
        else indexer.indexing position (indexer.candidatesOf stored force batch) run :
        Session Run).Yields indexer.client Run.on fun store =>
        indexer.indexIfAny position (indexer.candidatesOf stored force batch) (run.on store) := by
    unfold indexIfAny
    split
    · exact Session.yields_ended run
    · exact indexer.yields_indexing position _ run
  have each (run : Run) (touched : String × FileTime) :=
    indexer.yields_touching stored run touched.1 touched.2
  have touched := @Session.yields_forEach _ _ _ indexer.client Run.on
    (fun run touched => indexer.touching stored run touched.1 touched.2)
    (fun run touched => indexer.touch stored run touched.1 touched.2) each
    (indexer.touchesOf stored force batch)
    (indexer.readThrough stored force batch (run.enter .readingAndFiltering position)).run
  simp only [processBatch_readThrough, entered, readThrough_on]
  exact Session.yields_map indexer.checkMemory (Session.yields_bind _ touched indexed)
    fun run store => (indexer.checkMemory_on run store).symm

theorem yields_processingFiles (stored : List FileState) (force : Bool) (files : List WalkedFile)
    (run : Run) :
    (indexer.processingFiles stored force files run).Yields indexer.client Run.on
      fun store => indexer.processFiles stored force files (run.on store) := by
  let onReached (reached : Run × ScanPosition) (store : Store) := (reached.1.on store, reached.2)
  have step (reached : Run × ScanPosition) (batch : List WalkedFile) :
      (indexer.processingStep stored force reached batch).Yields indexer.client onReached
        fun store => indexer.batchStep stored force (onReached reached store) batch := by
    let position := { reached.2 with batch := reached.2.batch + 1 }
    let reach (run : Run) : Run × ScanPosition :=
      (run, { position with processed := position.processed + batch.length })
    have same (run : Run) (store : Store) :
        onReached (reach run) store = reach (run.on store) := rfl
    exact Session.yields_map reach
      (indexer.yields_processingBatch stored force position batch reached.1) same
  exact Session.yields_map Prod.fst (Session.yields_forEach step _ _) fun _ _ => rfl

/-- What comes of a run that reports, with another store. -/
def reportOn (reported : ScanReport × Run) (store : Store) : ScanReport × Run :=
  (reported.1, reported.2.on store)

theorem finish_on (error : Option ScanError) (run : Run) (store : Store) :
    reportOn (indexer.finish run error) store = indexer.finish (run.on store) error := rfl

theorem yields_scanning (disk : FileTree) (mode : ScanMode) (state : IndexState) :
    (indexer.scanning disk mode state).Yields indexer.client reportOn fun store =>
      indexer.scan disk mode (state.on store) := by
  intro store
  unfold scan scanning
  cases found : indexer.rootTree? disk with
  | none => rfl
  | some tree =>
      have asked : ((Run.ofState (state.on store)).enter .scanning {}).store = store := rfl
      simp only [asked]
      unfold Session.alone StoreClient.perform client
      cases indexer.gate.states store indexer.project with
      | error error => rfl
      | ok stored =>
          let files := tree.walk indexer.options indexer.policy
          let prune (run : Run) : Run := if indexer.config.scan.pruneMissing
            then indexer.pruneMissing stored (files.map (·.path)) run else run
          have processed := indexer.yields_processingFiles stored (mode = .force) files
            (indexer.begun mode files state)
          have pruned (run : Run) :
              (if indexer.config.scan.pruneMissing
                then .forEach pruning (missingFrom stored files) run else .ended run :
                Session Run).Yields indexer.client Run.on fun store => prune (run.on store) := by
            unfold prune
            split
            · exact Session.yields_forEach indexer.yields_pruning _ run
            · exact Session.yields_ended run
          exact Session.yields_map (indexer.finish · none)
            (Session.yields_bind prune processed pruned) (indexer.finish_on none) store

theorem yields_removing (paths : List String) (removed : Nat) (state : IndexState) :
    (removing paths removed state).Yields indexer.client
      (fun left store => (left.1, left.2.on store)) fun store =>
      indexer.removePaths paths removed (state.on store) := by
  intro store
  induction paths generalizing removed state store with
  | nil => rfl
  | cons path paths induction =>
      have asked : (state.on store).store = store := rfl
      unfold removing removePaths Session.alone StoreClient.perform
      simp only [asked]
      unfold client
      rcases indexer.gate.remove store indexer.project path with error | ⟨wasThere, left⟩
      · rfl
      · exact induction _ _ left

/-- Indexes files when those that are gone have been removed. -/
def indexLeft (files : List WalkedFile) (begun : Run)
    (cleared : Except StoreError Nat × IndexState) : ScanReport × Run :=
  let run : Run := { begun with toIndexState := cleared.2 }
  match cleared.1 with
  | .error error => indexer.finish run (some (.store error))
  | .ok removed =>
    let run := run.count fun stats => { stats with pruned := stats.pruned + removed }
    if files.isEmpty then indexer.finish run none
    else
      match indexer.gate.states run.store indexer.project with
      | .error error => indexer.finish run (some (.store error))
      | .ok stored => indexer.finish (indexer.processFiles stored false files run) none

theorem yields_indexingLeft (files : List WalkedFile) (begun : Run)
    (cleared : Except StoreError Nat × IndexState) :
    (indexer.indexingLeft files begun cleared).Yields indexer.client reportOn fun store =>
      indexer.indexLeft files begun (cleared.1, cleared.2.on store) := by
  intro store
  rcases cleared with ⟨error | removed, state⟩
  · rfl
  · let run : Run := ({ begun with toIndexState := state } : Run).count fun stats =>
      { stats with pruned := stats.pruned + removed }
    have asked : (({ begun with toIndexState := state.on store } : Run).count fun stats =>
      { stats with pruned := stats.pruned + removed }).store = store := rfl
    unfold indexingLeft indexLeft
    simp only [asked]
    split
    · rfl
    · unfold Session.alone StoreClient.perform client
      cases indexer.gate.states store indexer.project with
      | error error => rfl
      | ok stored =>
          exact Session.yields_map (indexer.finish · none)
            (indexer.yields_processingFiles stored false files run) (indexer.finish_on none) store

theorem yields_indexingPaths (disk : FileTree) (paths : List String) (state : IndexState) :
    (indexer.indexingPaths disk paths state).Yields indexer.client reportOn fun store =>
      indexer.indexPaths disk paths (state.on store) := by
  intro store
  unfold indexPaths indexingPaths
  cases found : indexer.rootTree? disk with
  | none => rfl
  | some tree =>
      let files := indexer.filesAt disk paths
      let begun := indexer.begun .incremental files state
      have removed := indexer.yields_removing (indexer.goneAt disk paths) 0 begun.toIndexState
      exact Session.yields_bind (indexer.indexLeft files begun) removed
        (indexer.yields_indexingLeft files begun) store

/-! ## What is written -/

section

variable {indexer} {source : FileSource} {batch : List WalkedFile}

theorem comesFrom_persisting {file : IndexedFile} (given : source indexer.project file.bare)
    (run : Run) : (persisting run file).ComesFrom source indexer.project := by
  refine ⟨given, ?_⟩
  rintro (error | acks) <;> exact trivial

theorem comesFrom_pruning (run : Run) (path : String) :
    (pruning run path).ComesFrom source indexer.project := by
  refine ⟨trivial, ?_⟩
  rintro (error | wasThere)
  · exact trivial
  · cases wasThere <;> exact trivial

theorem comesFrom_removing (paths : List String) (removed : Nat) (state : IndexState) :
    (removing paths removed state).ComesFrom source indexer.project := by
  induction paths generalizing removed state with
  | nil => exact trivial
  | cons path paths induction =>
      refine ⟨trivial, ?_⟩
      rintro (error | wasThere)
      · exact trivial
      · exact induction _ _

/-- The files that are written when a batch is worked off come from a source that supplies the
batch. -/
theorem comesFrom_processingBatch (supplied : indexer.Supplies source batch)
    (stored : List FileState) (force : Bool) (position : ScanPosition) (run : Run) :
    (indexer.processingBatch stored force position batch run).ComesFrom source indexer.project := by
  have finished : ∀ file ∈ indexer.finishedFiles (indexer.candidatesOf stored force batch),
      source indexer.project file.bare := by
    intro file member
    rcases exists_of_mem_right (indexer.finishes_bare _) member with ⟨candidate, isCandidate, same⟩
    rcases List.mem_filterMap.mp isCandidate with ⟨walked, inside, ready⟩
    rw [same, indexer.candidate?_outcomeOf ready]
    exact supplied walked inside
  apply Session.asks_map
  apply Session.asks_bind
  · apply Session.asks_forEach
    intro touched _ run
    exact ⟨trivial, fun _ => trivial⟩
  · intro run
    split
    · exact trivial
    · exact Session.asks_forEach
        (fun file member run => comesFrom_persisting (finished file member) run) _

theorem comesFrom_processingFiles {files : List WalkedFile}
    (supplied : indexer.Supplies source files) (stored : List FileState) (force : Bool)
    (run : Run) :
    (indexer.processingFiles stored force files run).ComesFrom source indexer.project := by
  apply Session.asks_map
  apply Session.asks_forEach
  intro batch member reached
  apply Session.asks_map
  apply comesFrom_processingBatch
  intro file inside
  apply supplied
  rw [← flatten_batches (batchSize_pos indexer.config.scan files.length) files]
  exact List.mem_flatten_of_mem member inside

theorem comesFrom_scanning {disk : FileTree}
    (supplied : indexer.Supplies source (indexer.filesOn disk)) (mode : ScanMode)
    (state : IndexState) :
    (indexer.scanning disk mode state).ComesFrom source indexer.project := by
  unfold scanning
  cases found : indexer.rootTree? disk with
  | none => exact trivial
  | some tree =>
      rw [filesOn_eq found] at supplied
      refine ⟨trivial, ?_⟩
      rintro (error | stored)
      · exact trivial
      · apply Session.asks_map
        apply Session.asks_bind (comesFrom_processingFiles supplied _ _ _)
        intro run
        split
        · exact Session.asks_forEach (fun path _ run => comesFrom_pruning run path) run
        · exact trivial

theorem comesFrom_indexingPaths {disk : FileTree} {paths : List String}
    (supplied : indexer.Supplies source (indexer.filesAt disk paths)) (state : IndexState) :
    (indexer.indexingPaths disk paths state).ComesFrom source indexer.project := by
  unfold indexingPaths
  cases found : indexer.rootTree? disk with
  | none => exact trivial
  | some tree =>
      apply Session.asks_bind (comesFrom_removing _ _ _)
      rintro ⟨error | removed, left⟩
      · exact trivial
      · unfold indexingLeft
        simp only
        split
        · exact trivial
        · refine ⟨trivial, ?_⟩
          rintro (error | stored)
          · exact trivial
          · exact Session.asks_map (comesFrom_processingFiles supplied _ _ _)

end

end Indexer

/-! ## Sequences of runs -/

/-- What is answered to whoever has asked for a run. -/
inductive RunAnswer
  | reported (report : ScanReport)
  | removed (count : Except StoreError Nat)
  | restarted

namespace Indexer

variable (indexer : Indexer)

def answerTo (state : IndexState) : IndexerRun → RunAnswer
  | .scan disk mode => .reported (indexer.scan disk mode state).1
  | .indexPaths disk paths => .reported (indexer.indexPaths disk paths state).1
  | .removePaths paths => .removed (indexer.removePaths paths 0 state).1
  | .restart => .restarted

/-- What is answered to some runs, one after the other. -/
def answersTo (indexer : Indexer) (state : IndexState) : List IndexerRun → List RunAnswer
  | [] => []
  | run :: runs => indexer.answerTo state run :: indexer.answersTo (indexer.after state run) runs

def running (state : IndexState) : IndexerRun → Session (RunAnswer × IndexState)
  | .scan disk mode => (indexer.scanning disk mode state).map fun (report, run) =>
    (.reported report, run.toIndexState)
  | .indexPaths disk paths => (indexer.indexingPaths disk paths state).map fun (report, run) =>
    (.reported report, run.toIndexState)
  | .removePaths paths => (removing paths 0 state).map fun (count, state) => (.removed count, state)
  | .restart => .ended (.restarted, { store := state.store })

/-- Some runs, one after the other, as one session. -/
def session (indexer : Indexer) (state : IndexState) :
    List IndexerRun → Session (List RunAnswer × IndexState)
  | [] => .ended ([], state)
  | run :: runs => (indexer.running state run).bind fun (answer, state) =>
    (indexer.session state runs).map fun (answers, state) => (answer :: answers, state)

/-- What runs have come to, with another store. -/
def leftOn {α : Type} (left : α × IndexState) (store : Store) : α × IndexState :=
  (left.1, left.2.on store)

theorem yields_running (run : IndexerRun) (state : IndexState) :
    (indexer.running state run).Yields indexer.client leftOn fun store =>
      (indexer.answerTo (state.on store) run, indexer.after (state.on store) run) := by
  let reported (answer : ScanReport × Run) : RunAnswer × IndexState :=
    (.reported answer.1, answer.2.toIndexState)
  cases run with
  | scan disk mode =>
      exact Session.yields_map reported (indexer.yields_scanning disk mode state) fun _ _ => rfl
  | indexPaths disk paths =>
      exact Session.yields_map reported (indexer.yields_indexingPaths disk paths state)
        fun _ _ => rfl
  | removePaths paths =>
      exact Session.yields_map (fun left : Except StoreError Nat × IndexState =>
        (RunAnswer.removed left.1, left.2)) (indexer.yields_removing paths 0 state) fun _ _ => rfl
  | restart => exact Session.yields_ended _

/-- An indexer that has the store for itself answers in a session what its runs answer, and leaves
what they leave. -/
theorem yields_session (runs : List IndexerRun) (state : IndexState) :
    (indexer.session state runs).Yields indexer.client leftOn fun store =>
      (indexer.answersTo (state.on store) runs, runs.foldl indexer.after (state.on store)) := by
  induction runs generalizing state with
  | nil => exact Session.yields_ended _
  | cons run runs induction =>
      let rest (answer : RunAnswer) (left : List RunAnswer × IndexState) :=
        (answer :: left.1, left.2)
      refine Session.yields_bind (fun left : RunAnswer × IndexState =>
        rest left.1 (indexer.answersTo left.2 runs, runs.foldl indexer.after left.2))
        (indexer.yields_running run state) ?_
      intro left
      exact Session.yields_map (rest left.1) (induction left.2) fun _ _ => rfl

variable {indexer} {source : FileSource}

/-- All files that are written in a session are among those that its runs come upon. -/
theorem comesFrom_session {runs : List IndexerRun}
    (supplied : ∀ run ∈ runs, indexer.Supplies source (indexer.filesOf run)) (state : IndexState) :
    (indexer.session state runs).ComesFrom source indexer.project := by
  induction runs generalizing state with
  | nil => exact trivial
  | cons run runs induction =>
      rw [List.forall_mem_cons] at supplied
      refine Session.asks_bind ?_ fun left => Session.asks_map (induction supplied.2 left.2)
      cases run with
      | scan disk mode => exact Session.asks_map (comesFrom_scanning supplied.1 mode state)
      | indexPaths disk paths => exact Session.asks_map (comesFrom_indexingPaths supplied.1 state)
      | removePaths paths => exact Session.asks_map (comesFrom_removing paths 0 state)
      | restart => exact trivial

end Indexer

end SourceIndex
