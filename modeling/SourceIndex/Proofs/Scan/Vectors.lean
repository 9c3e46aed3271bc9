import SourceIndex.Proofs.Scan.Removals

/-! The vectors with which files and their chunks are stored. Each vector is that of the text of its
own file or chunk, whatever else is in the batch; where a call for a batch fails, the files of the
batch are stored without the vectors that it was to yield. -/

namespace SourceIndex

namespace Indexer

variable {indexer : Indexer}

/-! ## Handing out -/

/-- Vectors that are as many as the items that want one go to these in turn; the others get none. -/
theorem mem_handOut {α : Type} {wants : α → Bool} {items : List α} {vectors : List Embedding}
    (asMany : vectors.length = (items.filter wants).length) :
    List.Forall₂ (fun item vector => (item, some vector) ∈ handOut wants items vectors)
        (items.filter wants) vectors ∧
      ∀ item ∈ items, wants item = false → (item, none) ∈ handOut wants items vectors := by
  induction items generalizing vectors with
  | nil =>
      rw [List.length_eq_zero_iff.mp asMany]
      exact ⟨.nil, List.forall_mem_nil _⟩
  | cons item items induction =>
      cases wanted : wants item with
      | true =>
          rw [List.filter_cons_of_pos wanted] at asMany ⊢
          cases vectors with
          | nil => cases asMany
          | cons vector vectors =>
              have rest := induction (Nat.succ.inj asMany)
              have handed : handOut wants (item :: items) (vector :: vectors) =
                  (item, some vector) :: handOut wants items vectors := by
                simp only [handOut, wanted]
              rw [handed, List.forall_mem_cons]
              refine ⟨.cons List.mem_cons_self (rest.1.imp fun _ _ => List.mem_cons_of_mem _),
                ?_, ?_⟩
              · intro unwanted
                rw [unwanted] at wanted
                cases wanted
              · exact fun other member unwanted =>
                  List.mem_cons_of_mem _ (rest.2 other member unwanted)
      | false =>
          rw [List.filter_cons_of_neg (by rw [wanted]; exact Bool.false_ne_true)] at asMany ⊢
          have rest := induction asMany
          have handed : handOut wants (item :: items) vectors =
              (item, none) :: handOut wants items vectors := by
            simp only [handOut, wanted]
          rw [handed, List.forall_mem_cons]
          exact ⟨rest.1.imp fun _ _ => List.mem_cons_of_mem _, fun _ => List.mem_cons_self,
            fun other member unwanted => List.mem_cons_of_mem _ (rest.2 other member unwanted)⟩

/-! ## Files of a batch -/

variable {candidates : List Candidate}

/-- A file to be indexed as it is stored with a vector, but without those of its chunks. -/
def finishedWith (indexer : Indexer) (candidate : Candidate) (vector : Option Embedding) :
    IndexedFile :=
  indexer.analyzeFile candidate (indexer.build candidate vector)

theorem isEmpty_embeddable (called : indexer.fileTexts candidates ≠ []) :
    (candidates.filter (·.fileClass.isEmbeddable)).isEmpty = false := by
  rw [List.isEmpty_eq_false_iff]
  exact fun none => called (congrArg (List.map _) none)

/-- If the texts of chunks cannot be embedded, files stay as they are. -/
theorem embedChunks_of_fails {files : List IndexedFile}
    (fails : indexer.embedder.Fails
      ((files.flatMap fun file => (file.analysis.map (·.chunks)).getD []).map fun chunk =>
        indexer.prepared chunk.content)) (run : Run) :
    (indexer.embedChunks files run).1 = files := by
  rcases fails.embedAll_eq_error with ⟨error, failed⟩
  unfold prepared at failed
  unfold embedChunks
  simp only [failed]
  split <;> rfl

section

variable (enabled : indexer.config.embedding.enabled = true)

include enabled

/-- If the texts of files cannot be embedded, no file and no chunk has a vector. -/
theorem finishedFiles_of_fails (called : indexer.fileTexts candidates ≠ [])
    (fails : indexer.embedder.Fails (indexer.fileTexts candidates)) :
    indexer.finishedFiles candidates = candidates.map (indexer.finishedWith · none) := by
  rcases fails.embedAll_eq_error with ⟨error, failed⟩
  have embedded : (indexer.embedFiles candidates {}).1 = candidates.map (·, none) ∧
      (indexer.embedFiles candidates {}).2.1 = false := by
    unfold fileTexts prepared at failed
    unfold embedFiles
    simp only [enabled, isEmpty_embeddable called, failed, Bool.not_true, Bool.or_self,
      Bool.false_eq_true, if_false, and_self]
  unfold finishedFiles
  simp only [embedded, Bool.and_false, Bool.false_eq_true, if_false, List.map_map]
  rfl

variable {vectors : List Embedding}
  (asMany : vectors.length = (indexer.fileTexts candidates).length)
  (answered : indexer.fileTexts candidates ≠ [] →
    indexer.embedder.answer (indexer.fileTexts candidates) = .ok vectors)

include asMany answered

/-- If the texts of files can be embedded, their vectors are handed out. -/
theorem embedFiles_of_vectors : (indexer.embedFiles candidates {}).1 =
      handOut (·.fileClass.isEmbeddable) candidates vectors ∧
    (indexer.embedFiles candidates {}).2.1 = true := by
  by_cases called : indexer.fileTexts candidates = []
  · have unwanted : candidates.filter (·.fileClass.isEmbeddable) = [] :=
      List.map_eq_nil_iff.mp called
    have none : vectors = [] := by
      rw [called] at asMany
      exact List.length_eq_zero_iff.mp asMany
    have handed := handOut_eq_map (·.fileClass.isEmbeddable) (fun _ => []) candidates
    rw [unwanted, List.map_nil] at handed
    have bare : handOut (·.fileClass.isEmbeddable) candidates vectors =
        candidates.map (·, Option.none) := by
      rw [none, handed]
      apply List.map_congr_left
      intro candidate member
      rw [if_neg (List.filter_eq_nil_iff.mp unwanted candidate member)]
    unfold embedFiles
    simp only [unwanted, bare, List.isEmpty_nil, Bool.or_true, if_true, and_self]
  · have embedded := Embedder.embedAll_eq_ok_iff.mpr ⟨answered called, asMany⟩
    unfold fileTexts prepared at embedded
    unfold embedFiles
    simp only [enabled, isEmpty_embeddable called, embedded, Bool.not_true, Bool.or_self,
      Bool.false_eq_true, if_false, and_self]

/-- If the texts of chunks cannot be embedded, files have their vectors all the same. -/
theorem finishedFiles_of_chunks_fail (fails : indexer.config.embedding.embedChunks = true →
      indexer.embedder.Fails (indexer.chunkTexts candidates)) :
    indexer.finishedFiles candidates =
      (handOut (·.fileClass.isEmbeddable) candidates vectors).map fun (candidate, vector) =>
        indexer.finishedWith candidate vector := by
  have embedded := embedFiles_of_vectors enabled asMany answered
  unfold finishedFiles
  simp only [embedded]
  split
  · next wanted =>
      rw [Bool.and_true] at wanted
      apply embedChunks_of_fails
      rw [flatMap_chunks, map_fst_handOut]
      exact fails (Bool.and_eq_true_iff.mp wanted).2
  · rfl

end

/-! ## Vectors of files -/

/-- Whether a file has a certain vector, and its chunks have the vectors of their texts. -/
structure HasVectors (file : IndexedFile) (vector : Option Embedding)
    (chunkVector : String → Option Embedding) : Prop where
  whole : file.embedding = vector
  chunks : ∀ analysis ∈ file.analysis, ∀ chunk ∈ analysis.chunks,
    chunk.embedding = chunkVector chunk.content

theorem hasVectors_finishedWith (candidate : Candidate) (vector : Option Embedding) :
    HasVectors (indexer.finishedWith candidate vector) vector fun _ => none where
  whole := by
    unfold finishedWith analyzeFile
    split <;> rfl
  chunks analysis analysed chunk member := by
    unfold finishedWith analyzeFile at analysed
    split at analysed
    · cases analysed
      exact congrArg Chunk.embedding (bare_of_mem_splitChunks member).symm
    · cases analysed

theorem HasVectors.embedChunksOf {file : IndexedFile} {vector : Option Embedding}
    {chunkVector : String → Option Embedding} (has : HasVectors file vector chunkVector)
    (vectorOf : String → Embedding) :
    HasVectors (embedChunksOf (fun chunk => vectorOf chunk.content) file) vector
      fun content => some (vectorOf content) where
  whole := has.whole
  chunks analysis analysed chunk member := by
    rcases Option.map_eq_some_iff.mp analysed with ⟨own, -, rfl⟩
    rcases List.mem_map.mp member with ⟨bare, -, rfl⟩
    rfl

theorem hasVectors_finishedBy (enabled : indexer.config.embedding.enabled = true)
    (vectorOf : String → Embedding) (candidate : Candidate) :
    HasVectors (indexer.finishedBy vectorOf candidate)
      (if candidate.fileClass.isEmbeddable then some (vectorOf (indexer.prepared candidate.content))
        else none)
      fun content => if indexer.config.embedding.embedChunks
        then some (vectorOf (indexer.prepared content)) else none := by
  have whole : indexer.fileVector? vectorOf candidate = if candidate.fileClass.isEmbeddable
      then some (vectorOf (indexer.prepared candidate.content)) else none := by
    rw [fileVector?, enabled, Bool.true_and]
    rfl
  have has := indexer.hasVectors_finishedWith candidate (indexer.fileVector? vectorOf candidate)
  unfold finishedBy
  simp only [enabled, Bool.true_and, ← whole]
  cases indexer.config.embedding.embedChunks with
  | true => exact has.embedChunksOf fun content => vectorOf (indexer.prepared content)
  | false => exact has

theorem HasVectors.of_mem_chunkRows {file : IndexedFile} {vector : Option Embedding}
    {chunkVector : String → Option Embedding} (has : HasVectors file vector chunkVector)
    {row : Chunk} (member : row ∈ file.chunkRows) : row.embedding = chunkVector row.content := by
  rcases List.mem_map.mp member with ⟨chunk, isChunk, rfl⟩
  cases analysed : file.analysis with
  | none =>
      rw [analysed] at isChunk
      cases isChunk
  | some analysis =>
      rw [analysed] at isChunk
      exact has.chunks analysis analysed chunk isChunk

/-! ## What is stored -/

/-- Whether what is stored at a path is what a file comes to, with certain vectors. -/
structure ReflectsWith (indexer : Indexer) (file : WalkedFile) (vector : Option Embedding)
    (chunkVector : String → Option Embedding) (entry : StoredEntry) : Prop
    extends indexer.Reflects file entry where
  vector : entry.file.embedding = vector
  chunkVectors : ∀ chunk ∈ entry.chunks, chunk.embedding = chunkVector chunk.content

/-- A file is written with the vectors that it has. -/
theorem reflectsWith_writtenOver {file : WalkedFile} {texts : List (List String)}
    (differ : IdentifiersDiffer texts) (identifies : indexer.Identifies texts file)
    {finished : IndexedFile} (isFinished : finished.bare = indexer.outline file)
    {vector : Option Embedding} {chunkVector : String → Option Embedding}
    (has : HasVectors finished vector chunkVector) (former : Option StoredEntry) :
    indexer.ReflectsWith file vector chunkVector (.writtenOver finished former) where
  toReflects := reflects_writtenOver differ identifies isFinished former
  vector := has.whole
  chunkVectors := by
    let written : IndexedFile :=
      { finished with id := (former.map fun entry => entry.file.id).getD finished.id }
    have writtenHas : HasVectors written vector chunkVector := ⟨has.whole, has.chunks⟩
    have nothing : ∀ row ∈ ([] : List Chunk), row.embedding = chunkVector row.content :=
      List.forall_mem_nil _
    have given : ∀ row ∈ written.chunkRows, row.embedding = chunkVector row.content :=
      fun row member => writtenHas.of_mem_chunkRows member
    -- A row takes over the text and the vector of a later one together.
    exact RowFormat.ofChunks.forall_mem_put nothing given fun _ _ _ held _ => held

/-! ## Runs -/

/-- Whether a run indexes files that have not changed too. -/
def isForced : IndexerRun → Bool
  | .scan _ mode => mode = .force
  | .indexPaths _ _ | .removePaths _ | .restart => false

/-- The batches into which the files are cut that a run comes upon. -/
def batchesOf (indexer : Indexer) (run : IndexerRun) : List (List WalkedFile) :=
  batches (batchSize indexer.config.scan (indexer.filesOf run).length) (indexer.filesOf run)

/-- The files of a batch that have to be indexed. -/
def readyIn (indexer : Indexer) (stored : List FileState) (force : Bool)
    (batch : List WalkedFile) : List WalkedFile :=
  batch.filter fun file => (indexer.outcomeOf stored force file).candidate?.isSome

theorem candidatesOf_eq (stored : List FileState) (force : Bool) (batch : List WalkedFile) :
    indexer.candidatesOf stored force batch =
      (indexer.readyIn stored force batch).map (Candidate.ofFile indexer.classifier) := by
  unfold candidatesOf readyIn
  induction batch with
  | nil => rfl
  | cons file batch induction =>
      rw [List.filterMap_cons, List.filter_cons, induction]
      cases ready : (indexer.outcomeOf stored force file).candidate? with
      | none => rfl
      | some candidate =>
          rw [indexer.candidate?_outcomeOf ready]
          rfl

theorem fileTexts_ne_nil {stored : List FileState} {force : Bool} {batch : List WalkedFile}
    {file : WalkedFile} (member : file ∈ indexer.readyIn stored force batch)
    (embeddable : (indexer.classOf file).isEmbeddable = true) :
    indexer.fileTexts (indexer.candidatesOf stored force batch) ≠ [] := by
  rw [candidatesOf_eq]
  have isTarget : Candidate.ofFile indexer.classifier file ∈
      ((indexer.readyIn stored force batch).map (Candidate.ofFile indexer.classifier)).filter
        (·.fileClass.isEmbeddable) :=
    List.mem_filter.mpr ⟨List.mem_map_of_mem member, embeddable⟩
  exact List.ne_nil_of_mem (List.mem_map_of_mem isTarget)

/-- Whether a run gets as far as the files that it comes upon, and what is stored by then. -/
inductive WorksOff (indexer : Indexer) (state : IndexState) : IndexerRun → Store → Prop
  | scan {disk : FileTree} {mode : ScanMode} (proper : disk.IsProper)
    (isThere : (indexer.rootTree? disk).isSome) (loads : indexer.gate.refuses .load "" = none) :
    WorksOff indexer state (.scan disk mode) state.store
  | indexPaths {disk : FileTree} {paths : List String} (isThere : (indexer.rootTree? disk).isSome)
    (loads : indexer.gate.refuses .load "" = none)
    (accepts : ∀ path ∈ indexer.goneAt disk paths, indexer.gate.refuses .remove path = none) :
    WorksOff indexer state (.indexPaths disk paths) (indexer.leftAt disk paths state.store)

section

variable {state : IndexState} {run : IndexerRun} {base : Store}
  (worksOff : indexer.WorksOff state run base)

include worksOff

/-- What is left is what was stored by then, with calls performed on it that are about different
paths. -/
theorem WorksOff.store_after (sound : state.store.IsSound) : ∃ gone,
    let calls := indexer.fileCalls (base.states indexer.project) (isForced run)
      (indexer.filesOf run) ++ indexer.removeCalls gone
    (indexer.after state run).store = indexer.gate.performAll base calls ∧
      (calls.map StoreCall.place).Nodup := by
  cases worksOff with
  | @scan disk mode proper isThere loads =>
      have stored : (indexer.after state (.scan disk mode)).store = _ :=
        indexer.store_scan mode state isThere loads
      rw [scanCalls_eq] at stored
      exact ⟨_, stored, nodup_place_calls (nodup_filesOn proper) (nodup_pruned sound) apart_pruned⟩
  | @indexPaths disk paths isThere loads accepts =>
      have stored : (indexer.after state (.indexPaths disk paths)).store = _ :=
        indexer.store_indexPaths_of_accepted isThere loads accepts state
      refine ⟨[], ?_, nodup_place_calls (nodup_presentFiles _) .nil (List.forall_mem_nil _)⟩
      rw [removeCalls, List.map_nil, List.append_nil]
      exact stored

theorem WorksOff.isSound (sound : state.store.IsSound) : base.IsSound := by
  cases worksOff with
  | scan proper isThere loads => exact sound
  | indexPaths isThere loads accepts => exact indexer.gate.isSound_performAll sound _

theorem WorksOff.spares {source : FileSource} (isApart : source.IsApart)
    (sound : state.store.IsSound) (spares : state.store.Spares source) : base.Spares source := by
  cases worksOff with
  | scan proper isThere loads => exact spares
  | indexPaths isThere loads accepts =>
      exact StoreGate.spares_performAll isApart (comesFrom_removeCalls source _) sound spares

/-- A file that is to be written and that the store accepts is there in the end. -/
theorem WorksOff.entryAt?_of_persist {source : FileSource} (isApart : source.IsApart)
    (supplied : indexer.Supplies source (indexer.filesOf run)) (sound : state.store.IsSound)
    (spares : state.store.Spares source) {finished : IndexedFile}
    (isCalled : .persist indexer.project finished ∈ indexer.fileCalls
      (base.states indexer.project) (isForced run) (indexer.filesOf run))
    (accepted : indexer.gate.refuses .persist finished.path = none) :
    ∃ former, (indexer.after state run).store.entryAt? indexer.project finished.path =
      some (.writtenOver finished former) := by
  rcases worksOff.store_after sound with ⟨gone, stored, once⟩
  have comes : ∀ call ∈ indexer.fileCalls (base.states indexer.project) (isForced run)
      (indexer.filesOf run) ++ indexer.removeCalls gone, call.ComesFrom source :=
    List.forall_mem_append.mpr
      ⟨comesFrom_fileCalls supplied, comesFrom_removeCalls source gone⟩
  have performed := (@StoreGate.entryAt?_performAll indexer.gate source isApart _ comes once base
    (worksOff.isSound sound) (worksOff.spares isApart sound spares) indexer.project
    finished.path).1 _ (List.mem_append_left _ isCalled) rfl
  refine ⟨base.entryAt? indexer.project finished.path, ?_⟩
  rw [stored, performed]
  unfold StoreGate.leaves
  simp only [StoreCall.operation, StoreCall.place, accepted]
  rfl

end

/-- Every file is in one batch. -/
theorem flatten_batchesOf (run : IndexerRun) :
    (indexer.batchesOf run).flatten = indexer.filesOf run :=
  flatten_batches (batchSize_pos indexer.config.scan _) _

/-- Whether a file is stored with certain vectors, if the store lets it be written. -/
def StoresWith (indexer : Indexer) (store : Store) (chunkVector : String → Option Embedding)
    (file : WalkedFile) (vector : Option Embedding) : Prop :=
  indexer.gate.refuses .persist file.path = none →
    ∃ entry, store.entryAt? indexer.project file.path = some entry ∧
      indexer.ReflectsWith file vector chunkVector entry

section

variable {state : IndexState} {run : IndexerRun} {base : Store}
  (worksOff : indexer.WorksOff state run base) {texts : List (List String)}
  (differ : IdentifiersDiffer texts)
  (identifies : ∀ file ∈ indexer.filesOf run, indexer.Identifies texts file)
  (sound : state.store.IsSound)
  (spares : state.store.Spares (indexer.sourceOf (indexer.filesOf run)))
  {batch : List WalkedFile} (isBatch : batch ∈ indexer.batchesOf run)

include worksOff differ identifies sound spares isBatch

/-- As a file of a batch is finished, so it is stored. -/
theorem WorksOff.storesWith {file : WalkedFile} (member : file ∈ batch) {finished : IndexedFile}
    (isThere : finished ∈ indexer.finishedFiles
      (indexer.candidatesOf (base.states indexer.project) (isForced run) batch))
    (isFinished : finished.bare = indexer.outline file) {vector : Option Embedding}
    {chunkVector : String → Option Embedding} (has : HasVectors finished vector chunkVector) :
    indexer.StoresWith (indexer.after state run).store chunkVector file vector := by
  intro accepted
  have isFile : file ∈ indexer.filesOf run := by
    rw [← flatten_batchesOf]
    exact List.mem_flatten_of_mem isBatch member
  have isApart := IdentifiesBy.isApart differ fun file member =>
    (identifies file member).identifiesBy
  have samePath : finished.path = file.path := path_of_bare isFinished
  have isCalled : .persist indexer.project finished ∈ indexer.fileCalls
      (base.states indexer.project) (isForced run) (indexer.filesOf run) :=
    List.mem_flatMap.mpr ⟨batch, isBatch, List.mem_append_right _ (List.mem_map_of_mem isThere)⟩
  rw [← samePath] at accepted ⊢
  rcases worksOff.entryAt?_of_persist isApart (indexer.supplies_sourceOf fun _ member => member)
    sound spares isCalled accepted with ⟨former, stored⟩
  exact ⟨_, stored, reflectsWith_writtenOver differ (identifies file isFile) isFinished has former⟩

end

end Indexer

/-- An indexer whose chunks get vectors too. -/
def embeddingIndexer (embedder : Embedder) : Indexer :=
  { sampleIndexer with
    embedder
    config.embedding.embedChunks := true }

/-- An embedder that has no vector for any of many texts. -/
def voidEmbedder : Embedder := { Embedder.digesting 4 with batch := some fun _ => .ok [] }

theorem fails_voidEmbedder {texts : List String} (some : texts ≠ []) :
    voidEmbedder.Fails texts := by
  intro vectors answered
  have none : vectors = [] := (Except.ok.inj answered).symm
  rw [none]
  exact fun same => some (List.length_eq_zero_iff.mp same.symm)

theorem filesOn_embeddingIndexer (embedder : Embedder) (disk : FileTree) :
    (embeddingIndexer embedder).filesOn disk = sampleIndexer.filesOn disk := rfl

theorem worksOff_embeddingIndexer (embedder : Embedder) :
    (embeddingIndexer embedder).WorksOff formerIndex (.scan (.ofFiles laterFiles) .force)
      formerIndex.store := by
  have sameRoot : (embeddingIndexer embedder).root = sampleIndexer.root := rfl
  refine .scan findsBare_laterFiles.proper ?_ rfl
  rw [Indexer.rootTree?, sameRoot]
  exact Option.isSome_of_eq_some findsBare_laterFiles.isThere

end SourceIndex
