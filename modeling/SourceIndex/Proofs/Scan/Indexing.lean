import SourceIndex.Proofs.Scan.Reading

/-! What indexing the files of a batch comes to: whether and how files are embedded makes no
difference to what is stored, vectors aside. -/

namespace SourceIndex

/-- Whether a store holds the files of a map, all of which come from a source. -/
structure Store.Keeps (store : Store) (source : FileSource) (view : FileMap) : Prop where
  holds : store.Holds view
  comes : view.ComesFrom source

namespace Indexer

variable (indexer : Indexer) {source : FileSource} {run : Run} {view : FileMap}

/-! ## Embedding -/

theorem map_fst_handOut {α : Type} (wants : α → Bool) (items : List α) (vectors : List Embedding) :
    (handOut wants items vectors).map (·.1) = items := by
  induction items generalizing vectors with
  | nil => rfl
  | cons item items induction =>
      unfold handOut
      split
      · rw [List.map_cons, induction]
      · rw [List.map_cons, induction]

/-- Every file to be indexed is kept, with a vector or without. -/
theorem map_fst_embedFiles (candidates : List Candidate) (run : Run) :
    (indexer.embedFiles candidates run).1.map (·.1) = candidates := by
  have bare : (candidates.map (·, (none : Option Embedding))).map (·.1) = candidates := by
    rw [List.map_map]
    exact List.map_id _
  unfold embedFiles
  simp only
  split
  · exact bare
  · split
    · exact map_fst_handOut _ candidates _
    · exact bare

@[simp] theorem store_embedFiles (candidates : List Candidate) (run : Run) :
    (indexer.embedFiles candidates run).2.2.store = run.store := by
  unfold embedFiles
  simp only
  split
  · rfl
  · split
    · rfl
    · rfl

theorem map_bare_embedChunksWith (chunks : List Chunk) (vectors : List Embedding) :
    (embedChunksWith chunks vectors).1.map Chunk.bare = chunks.map Chunk.bare := by
  induction chunks generalizing vectors with
  | nil => rfl
  | cons chunk chunks induction =>
      cases vectors with
      | nil => rfl
      | cons vector vectors =>
          unfold embedChunksWith
          rw [List.map_cons, List.map_cons, induction]
          rfl

theorem map_bare_embedAnalyses (files : List IndexedFile) (vectors : List Embedding) :
    (embedAnalyses files vectors).map IndexedFile.bare = files.map IndexedFile.bare := by
  induction files generalizing vectors with
  | nil => rfl
  | cons file files induction =>
      unfold embedAnalyses
      cases analysed : file.analysis with
      | none => rw [List.map_cons, List.map_cons, induction]
      | some analysis =>
          have same : ({ file with
              analysis := some { analysis with
                chunks := (embedChunksWith analysis.chunks vectors).1 } } : IndexedFile).bare =
              file.bare := by
            unfold IndexedFile.bare Analysis.bare
            simp only [analysed, Option.map_some, map_bare_embedChunksWith]
          simp only [List.map_cons, induction, same]

theorem map_bare_embedChunks (files : List IndexedFile) (run : Run) :
    (indexer.embedChunks files run).1.map IndexedFile.bare = files.map IndexedFile.bare := by
  unfold embedChunks
  simp only
  split
  · rfl
  · split
    · exact map_bare_embedAnalyses files _
    · rfl

@[simp] theorem store_embedChunks (files : List IndexedFile) (run : Run) :
    (indexer.embedChunks files run).2.store = run.store := by
  unfold embedChunks
  simp only
  split
  · rfl
  · split
    · rfl
    · rfl

/-! ## Files -/

/-- What is stored of a file to be indexed, vectors aside. -/
def outlineOf (candidate : Candidate) : IndexedFile :=
  (indexer.analyzeFile candidate (indexer.build candidate none)).bare

theorem bare_analyzeFile (candidate : Candidate) (embedding : Option Embedding) :
    (indexer.analyzeFile candidate (indexer.build candidate embedding)).bare =
      indexer.outlineOf candidate := by
  unfold outlineOf analyzeFile
  split
  · rfl
  · rfl

@[simp] theorem path_outlineOf (candidate : Candidate) :
    (indexer.outlineOf candidate).path = candidate.path := by
  unfold outlineOf analyzeFile
  split
  · rfl
  · rfl

/-! ## What is stored -/

/-- A file in the place of what is at its path, unless the store refuses it. -/
def persistIn (view : FileMap) (file : IndexedFile) : FileMap :=
  match indexer.gate.refuses .persist file.path with
  | some _ => view
  | none => view.persist indexer.project file

theorem store_persist (run : Run) (file : IndexedFile) :
    (indexer.persist run file).store =
      storeAfter run.store (indexer.gate.persist run.store indexer.project file) := by
  unfold persist
  cases indexer.gate.persist run.store indexer.project file with
  | error error => rfl
  | ok answer => rfl

theorem keeps_persist (isApart : source.IsApart) (keeps : run.store.Keeps source view)
    {file : IndexedFile} (given : source indexer.project file.bare) :
    (indexer.persist run file).store.Keeps source (indexer.persistIn view file.bare) := by
  have samePath : file.bare.path = file.path := rfl
  rw [store_persist]
  unfold StoreGate.persist StoreGate.attempt persistIn
  rw [samePath]
  cases indexer.gate.refuses .persist file.path with
  | some error => exact keeps
  | none =>
      rcases keeps.holds.persist (keeps.comes.admits isApart given) with ⟨written, persisted, holds⟩
      simp only
      rw [persisted]
      exact ⟨holds, keeps.comes.persist given⟩

/-- Files in the places of what is at their paths, one after the other. -/
def persistAllIn (view : FileMap) (files : List IndexedFile) : FileMap :=
  files.foldl indexer.persistIn view

theorem keeps_persistAll (isApart : source.IsApart) (files : List IndexedFile)
    (given : ∀ file ∈ files, source indexer.project file.bare) {run : Run} {view : FileMap}
    (keeps : run.store.Keeps source view) :
    (files.foldl indexer.persist run).store.Keeps source
      (indexer.persistAllIn view (files.map IndexedFile.bare)) := by
  induction files generalizing run view with
  | nil => exact keeps
  | cons file files induction =>
      apply induction
      · exact fun other member => given other (List.mem_cons_of_mem _ member)
      · exact indexer.keeps_persist isApart keeps (given file List.mem_cons_self)

theorem keeps_indexCandidates (isApart : source.IsApart) (position : ScanPosition)
    (candidates : List Candidate)
    (given : ∀ candidate ∈ candidates, source indexer.project (indexer.outlineOf candidate))
    (keeps : run.store.Keeps source view) :
    (indexer.indexCandidates position candidates run).store.Keeps source
      (indexer.persistAllIn view (candidates.map indexer.outlineOf)) := by
  let embedded := indexer.embedFiles candidates (run.enter .embedding position)
  let files := embedded.1.map fun entry =>
    indexer.analyzeFile entry.1 (indexer.build entry.1 entry.2)
  have outlines : files.map IndexedFile.bare = candidates.map indexer.outlineOf := by
    have kept := indexer.map_fst_embedFiles candidates (run.enter .embedding position)
    rw [← kept, List.map_map, List.map_map]
    apply List.map_congr_left
    exact fun entry _ => indexer.bare_analyzeFile entry.1 entry.2
  have stored : embedded.2.2.store = run.store :=
    indexer.store_embedFiles candidates (run.enter .embedding position)
  -- However the chunks are embedded, the files come to the same.
  have all : ∀ (others : List IndexedFile) (later : Run),
      others.map IndexedFile.bare = files.map IndexedFile.bare → later.store = run.store →
      ((others.foldl indexer.persist (later.enter .persisting position)).store).Keeps source
        (indexer.persistAllIn view (candidates.map indexer.outlineOf)) := by
    intro others later sameFiles sameStore
    rw [← outlines, ← sameFiles]
    apply indexer.keeps_persistAll isApart
    · intro file member
      have inside : file.bare ∈ others.map IndexedFile.bare := List.mem_map_of_mem member
      rw [sameFiles, outlines] at inside
      rcases List.mem_map.mp inside with ⟨candidate, candidateMember, same⟩
      rw [← same]
      exact given candidate candidateMember
    · show later.store.Keeps source view
      rw [sameStore]
      exact keeps
  unfold indexCandidates
  simp only
  split
  · apply all
    · exact indexer.map_bare_embedChunks files _
    · rw [store_embedChunks]
      exact stored
  · exact all files _ rfl stored

end Indexer

end SourceIndex
