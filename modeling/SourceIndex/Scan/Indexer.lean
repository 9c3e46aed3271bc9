import SourceIndex.Embedding.Embedder
import SourceIndex.Scan.Batch
import SourceIndex.Scan.Candidate
import SourceIndex.Scan.Run

/-! The indexer of a project: files are read, embedded, analysed and stored, batch by batch. -/

namespace SourceIndex

/-- How the files of a project are indexed. -/
structure Indexer where
  /-- The key under which the files of the project are stored. -/
  project : String
  /-- The path of the directory that is indexed. -/
  root : String
  config : Config
  options : WalkOptions
  policy : ExclusionPolicy
  embedder : Embedder
  classifier : Classifier := Classifier.standard
  gate : StoreGate := StoreGate.accepting
  /-- How many bytes of memory are in use, where that is known. -/
  residentBytes : Option Nat := none

namespace Indexer

def make (disk : FileTree) (root : String) (embedder : Embedder) (config : Config) :
    Except ScanError Indexer :=
  match ExclusionRules.ofPatterns config.excludePatterns with
  | .error error => .error (.pattern error)
  | .ok rules =>
    let root := String.ofList (disk.canonical root.toList)
    .ok {
      project := projectKeyOf root
      root
      config
      options := WalkOptions.ofConfig config.scan
      policy := rules.policy
      embedder }

/-! ## Files that are not indexed anew -/

def recordOf? (stored : List FileState) (path : String) : Option FileState :=
  stored.find? (·.path == path)

/-- Keeps a file in memory that has not been indexed. Of a file that is kept already only the time
changes; any other one is classified by its name alone. -/
def remember (indexer : Indexer) (path : String) (known : FileState) (time : FileTime) (size : Nat)
    (run : Run) : Run :=
  match run.records.lookup path with
  | some record => { run with records := RecordIndex.set { record with time, path } run.records }
  | none =>
    let name := IndexedFile.nameOf path
    run.setRecord
      { id := known.id
        path
        name
        extension := IndexedFile.extensionOf path
        language := (indexer.classifier name ByteArray.empty).languageId
        contentHash := known.contentHash
        size
        lineCount := 0
        time }

/-! ## Reading -/

structure Reads where
  run : Run
  /-- Files to be indexed, with their places in the batch. -/
  ready : List (Nat × Candidate) := []
  /-- Files whose content is unchanged, with their new times. -/
  touches : List (String × FileTime) := []

/-- Takes what has become of the file at a place of the batch. -/
def takeRead (indexer : Indexer) (stored : List FileState) (reads : Reads)
    (place : Nat) (path : String) (outcome : ReadOutcome) : Reads :=
  let run := reads.run.count fun stats => { stats with processed := stats.processed + 1 }
  match outcome with
  | .ready candidate => { reads with run, ready := reads.ready ++ [(place, candidate)] }
  | .unchangedByTime size =>
    let run := run.count fun stats => { stats with skippedByTime := stats.skippedByTime + 1 }
    match recordOf? stored path with
    | some known => { reads with run := indexer.remember path known known.time size run }
    | none => { reads with run }
  | .unchangedByContent time => { reads with run, touches := reads.touches ++ [(path, time)] }
  | .oversize =>
    { reads with
      run := run.count fun stats => { stats with skippedOversize := stats.skippedOversize + 1 } }
  | .failed =>
    { reads with run := run.count fun stats => { stats with failed := stats.failed + 1 } }

/-- Stores the new time of a file whose content is unchanged. That the store refuses it is no
failure. -/
def touch (indexer : Indexer) (stored : List FileState) (run : Run) (path : String)
    (time : FileTime) : Run :=
  let run := run.count fun stats => { stats with skippedByContent := stats.skippedByContent + 1 }
  let run := match indexer.gate.touch run.store indexer.project path time with
    | .ok (_, store) => { run with store }
    | .error _ => run
  match recordOf? stored path with
  | some known =>
    let size := ((run.records.lookup path).map (·.size)).getD 0
    indexer.remember path known time size run
  | none => run

/-- Takes what has become of the files of a batch, in whatever order they have been read. Yields
those that have to be indexed, by their places. -/
def collectReads (indexer : Indexer) (stored : List FileState) (run : Run)
    (outcomes : List (Nat × String × ReadOutcome)) : List Candidate × Run :=
  let reads := outcomes.foldl (fun reads (place, path, outcome) =>
    indexer.takeRead stored reads place path outcome) { run }
  let run := reads.touches.foldl (fun run (path, time) => indexer.touch stored run path time)
    reads.run
  let ready := reads.ready.mergeSort fun left right => left.1 ≤ right.1
  (ready.map (·.2), run)

def readBatch (indexer : Indexer) (stored : List FileState) (force : Bool) (batch : List WalkedFile)
    (run : Run) : List Candidate × Run :=
  let outcomes := batch.zipIdx.map fun (file, place) =>
    (place, file.path, Candidate.read indexer.config.scan.maxFileBytes indexer.classifier force
      (recordOf? stored file.path) file)
  indexer.collectReads stored run outcomes

/-! ## Embedding -/

/-- Hands out vectors, one after the other, to the items that want one. -/
def handOut {α : Type} (wants : α → Bool) : List α → List Embedding →
    List (α × Option Embedding)
  | [], _ => []
  | item :: items, vectors =>
    match wants item, vectors with
    | true, vector :: vectors => (item, some vector) :: handOut wants items vectors
    | _, vectors => (item, none) :: handOut wants items vectors

/-- Embeds the files of a batch in one call. If that fails, none of them gets a vector. The flag
tells whether it has not failed. -/
def embedFiles (indexer : Indexer) (candidates : List Candidate) (run : Run) :
    List (Candidate × Option Embedding) × Bool × Run :=
  let wants := fun (candidate : Candidate) => candidate.fileClass.isEmbeddable
  let bare := candidates.map (·, none)
  let targets := candidates.filter wants
  if !indexer.config.embedding.enabled || targets.isEmpty then (bare, true, run)
  else
    let texts := targets.map fun candidate =>
      prepareText candidate.content indexer.config.embedding.maxChars
    match indexer.embedder.embedAll texts with
    | .ok vectors =>
      (handOut wants candidates vectors, true,
        run.count fun stats => { stats with embedded := stats.embedded + vectors.length })
    | .error _ =>
      (bare, false,
        run.count fun stats => { stats with embeddingFailures := stats.embeddingFailures + 1 })

/-- Gives chunks their vectors, and yields the vectors that are left. -/
def embedChunksWith : List Chunk → List Embedding → List Chunk × List Embedding
  | chunk :: chunks, vector :: vectors =>
    let (chunks, left) := embedChunksWith chunks vectors
    ({ chunk with embedding := some vector } :: chunks, left)
  | chunks, vectors => (chunks, vectors)

/-- Gives the chunks of files their vectors. -/
def embedAnalyses : List IndexedFile → List Embedding → List IndexedFile
  | [], _ => []
  | file :: files, vectors =>
    match file.analysis with
    | none => file :: embedAnalyses files vectors
    | some analysis =>
      let (chunks, left) := embedChunksWith analysis.chunks vectors
      { file with analysis := some { analysis with chunks } } :: embedAnalyses files left

/-- Embeds all chunks of the files of a batch in one call. If that fails, none of them gets a
vector. -/
def embedChunks (indexer : Indexer) (files : List IndexedFile) (run : Run) :
    List IndexedFile × Run :=
  let chunks := files.flatMap fun file => ((file.analysis.map (·.chunks)).getD [])
  if chunks.isEmpty then (files, run)
  else
    let texts := chunks.map fun chunk =>
      prepareText chunk.content indexer.config.embedding.maxChars
    match indexer.embedder.embedAll texts with
    | .ok vectors => (embedAnalyses files vectors, run)
    | .error _ =>
      (files, run.count fun stats => { stats with embeddingFailures := stats.embeddingFailures + 1 })

/-! ## Analysing and storing -/

def build (indexer : Indexer) (candidate : Candidate) (embedding : Option Embedding) :
    IndexedFile where
  id := fileId indexer.project candidate.path
  path := candidate.path
  name := IndexedFile.nameOf candidate.path
  extension := IndexedFile.extensionOf candidate.path
  language := candidate.fileClass.languageId
  contentHash := candidate.contentHash
  size := candidate.size
  lineCount := (Text.lines candidate.content.toList).length
  time := candidate.time
  embedding
  content := candidate.content

/-- A file with its analysis, if its language has a structure. -/
def analyzeFile (indexer : Indexer) (candidate : Candidate) (file : IndexedFile) : IndexedFile :=
  if candidate.fileClass.isStructured then
    { file with
      analysis := some (analyze indexer.config.chunking file.id file.content file.language) }
  else file

/-- Stores a file and keeps what is left of it in memory. A file that the store refuses counts as
failed. -/
def persist (indexer : Indexer) (run : Run) (file : IndexedFile) : Run :=
  match indexer.gate.persist run.store indexer.project file with
  | .error _ =>
    run.count fun stats =>
      { stats with ackFailed := stats.ackFailed + 1, failed := stats.failed + 1 }
  | .ok (acks, store) =>
    let confirmed := acks.countP (·.isConfirmed)
    let run := { run with store }.count fun stats =>
      { stats with
        ackSuccess := stats.ackSuccess + confirmed
        ackFailed := stats.ackFailed + (acks.length - confirmed)
        indexed := stats.indexed + 1
        totalLines := stats.totalLines + file.lineCount }
    let run := run.emit
      (.fileIndexed file.path file.language file.lineCount file.embedding.isSome)
    run.setRecord file.release

/-- Drops what the files in memory can do without, if more memory is in use than is allowed. -/
def checkMemory (indexer : Indexer) (run : Run) : Run :=
  let limit := min (indexer.config.scan.memoryHighWaterMb * 0x100000) 0xffffffffffffffff
  match indexer.residentBytes with
  | none => run
  | some resident =>
    if resident ≤ limit then run
    else
      { run with
        records := run.records.map fun (entry : String × IndexedFile) =>
          (entry.1, { entry.2.release with embedding := none }) }.count fun stats =>
        { stats with memoryShrinks := stats.memoryShrinks + 1 }

/-- Embeds, analyses and stores the files of a batch that have to be indexed. -/
def indexCandidates (indexer : Indexer) (position : ScanPosition) (candidates : List Candidate)
    (run : Run) : Run :=
  let run := run.enter .embedding position
  let (embedded, isSound, run) := indexer.embedFiles candidates run
  let run := run.enter .analyzing position
  let files := embedded.map fun (candidate, embedding) =>
    indexer.analyzeFile candidate (indexer.build candidate embedding)
  let embedding := indexer.config.embedding
  let (files, run) :=
    if embedding.enabled && embedding.embedChunks && isSound then indexer.embedChunks files run
    else (files, run)
  files.foldl indexer.persist (run.enter .persisting position)

def processBatch (indexer : Indexer) (stored : List FileState) (force : Bool)
    (position : ScanPosition) (batch : List WalkedFile) (run : Run) : Run :=
  let run := run.enter .readingAndFiltering position
  let (candidates, run) := indexer.readBatch stored force batch run
  let run := if candidates.isEmpty then run else indexer.indexCandidates position candidates run
  indexer.checkMemory run

/-- Works off files, batch by batch. -/
def processFiles (indexer : Indexer) (stored : List FileState) (force : Bool)
    (files : List WalkedFile) (run : Run) : Run :=
  let parts := batches (batchSize indexer.config.scan files.length) files
  let start : ScanPosition := { total := files.length, batches := parts.length }
  (parts.foldl (fun (run, position) batch =>
    let position := { position with batch := position.batch + 1 }
    (indexer.processBatch stored force position batch run,
      { position with processed := position.processed + batch.length })) (run, start)).1

/-! ## Scans -/

/-- Removes a file that is gone. That the store refuses it is no failure; either way the file is
not kept in memory. -/
def prune (indexer : Indexer) (run : Run) (path : String) : Run :=
  let run := match indexer.gate.remove run.store indexer.project path with
    | .ok (true, store) =>
      { run with store }.count fun stats => { stats with pruned := stats.pruned + 1 }
    | .ok (false, store) => { run with store }
    | .error _ => run
  run.eraseRecord path

/-- Removes the files that are stored but not present any more, in the order of their paths. -/
def pruneMissing (indexer : Indexer) (stored : List FileState) (present : List String) (run : Run) :
    Run :=
  let missing := (stored.map (·.path)).filter (! present.contains ·)
  (missing.mergeSort (· ≤ ·)).foldl indexer.prune run

def rootTree? (indexer : Indexer) (disk : FileTree) : Option FileTree :=
  match (disk.resolve? indexer.root.toList).bind disk.find? with
  | some (.directory entries) => some (.directory entries)
  | _ => none

def finish (indexer : Indexer) (run : Run) (error : Option ScanError) : ScanReport × Run :=
  run.finish indexer.project indexer.root error

/-- Walks the directory and brings the store in line with it. -/
def scan (indexer : Indexer) (disk : FileTree) (mode : ScanMode) (state : IndexState) :
    ScanReport × Run :=
  let run := (Run.ofState state).enter .scanning {}
  match indexer.rootTree? disk with
  | none => indexer.finish run (some (.invalidRoot indexer.root))
  | some tree =>
    let files := tree.walk indexer.options indexer.policy
    match indexer.gate.states run.store indexer.project with
    | .error error => indexer.finish run (some (.store error))
    | .ok stored =>
      let run := run.count fun stats => { stats with totalFiles := files.length }
      let run := run.emit (.started indexer.project indexer.root mode files.length)
      let run := indexer.processFiles stored (mode = .force) files run
      let run := if indexer.config.scan.pruneMissing
        then indexer.pruneMissing stored (files.map (·.path)) run else run
      indexer.finish run none

end Indexer

end SourceIndex
