import SourceIndex.Proofs.Scan.Effects

/-! How files are finished when the embedder does not fail and gives every text a vector of its own.
Then it makes no difference which files share a batch. -/

namespace SourceIndex

/-! ## Embedders -/

namespace Embedder

/-- What an embedder answers to some texts, whatever number of vectors that is. -/
def answer (embedder : Embedder) (texts : List String) : Except EmbedError (List Embedding) :=
  match embedder.embedBatch texts with
  | .error .batchUnsupported => texts.mapM embedder.embed
  | result => result

/-- Whether some texts cannot be embedded: there is an error, or the wrong number of vectors. -/
def Fails (embedder : Embedder) (texts : List String) : Prop :=
  ∀ vectors, embedder.answer texts = .ok vectors → vectors.length ≠ texts.length

/-- Whether an embedder embeds many texts at once, if it can, as it does one by one. -/
def IsUniform (embedder : Embedder) : Prop :=
  ∀ texts, embedder.embedBatch texts = texts.mapM embedder.embed ∨
    embedder.embedBatch texts = .error .batchUnsupported

/-- Whether an embedder gives every text a certain vector, whatever texts it comes with. -/
def Gives (embedder : Embedder) (vectorOf : String → Embedding) : Prop :=
  ∀ texts, embedder.embedAll texts = .ok (texts.map vectorOf)

variable {embedder : Embedder} {texts : List String}

theorem embedAll_eq_ok_iff {vectors : List Embedding} : embedder.embedAll texts = .ok vectors ↔
    embedder.answer texts = .ok vectors ∧ vectors.length = texts.length := by
  have counted : embedder.embedAll texts = (embedder.answer texts).bind fun vectors =>
      if vectors.length = texts.length then .ok vectors
      else .error (.countMismatch texts.length vectors.length) := by
    unfold embedAll answer
    cases embedder.embedBatch texts with
    | ok answered => rfl
    | error error => cases error <;> rfl
  rw [counted]
  cases embedder.answer texts with
  | error error => exact ⟨nofun, fun both => nomatch both.1⟩
  | ok answered =>
      simp only [Except.bind]
      constructor
      · intro accepted
        split at accepted
        · next sameLength =>
            cases accepted
            exact ⟨rfl, sameLength⟩
        · cases accepted
      · rintro ⟨same, sameLength⟩
        cases same
        exact if_pos sameLength

theorem Fails.embedAll_eq_error (fails : embedder.Fails texts) :
    ∃ error, embedder.embedAll texts = .error error := by
  cases answered : embedder.embedAll texts with
  | error error => exact ⟨error, rfl⟩
  | ok vectors =>
      have both := embedAll_eq_ok_iff.mp answered
      exact absurd both.2 (fails vectors both.1)

/-- Texts that can be embedded one by one get the same vectors together. -/
theorem IsUniform.embedAll_eq (uniform : embedder.IsUniform) {vectorOf : String → Embedding}
    (each : ∀ text ∈ texts, embedder.embed text = .ok (vectorOf text)) :
    embedder.embedAll texts = .ok (texts.map vectorOf) := by
  have oneByOne : texts.mapM embedder.embed = .ok (texts.map vectorOf) := by
    induction texts with
    | nil => rfl
    | cons text texts induction =>
        rw [List.forall_mem_cons] at each
        rw [List.mapM_cons, each.1, induction each.2]
        rfl
  refine embedAll_eq_ok_iff.mpr ⟨?_, List.length_map _⟩
  unfold answer
  rcases uniform texts with answered | unsupported
  · rw [answered, oneByOne]
  · rw [unsupported]
    exact oneByOne

theorem isUniform_digesting (dimensions : Nat) : (digesting dimensions).IsUniform := by
  intro texts
  left
  have each : (digesting dimensions).embed = fun text => pure (digestVector dimensions text) := rfl
  rw [each, List.mapM_pure]
  rfl

theorem gives_digesting (dimensions : Nat) :
    (digesting dimensions).Gives (digestVector dimensions) :=
  fun _ => (isUniform_digesting dimensions).embedAll_eq fun _ _ => rfl

end Embedder

namespace Indexer

/-! ## Vectors -/

theorem handOut_eq_map {α : Type} (wants : α → Bool) (vectorOf : α → Embedding) (items : List α) :
    handOut wants items ((items.filter wants).map vectorOf) =
      items.map fun item => (item, if wants item then some (vectorOf item) else none) := by
  induction items with
  | nil => rfl
  | cons item items induction =>
      cases wanted : wants item with
      | true =>
          rw [List.filter_cons_of_pos wanted, List.map_cons, List.map_cons, ← induction]
          simp only [handOut, wanted, if_true]
      | false =>
          rw [List.filter_cons_of_neg (by rw [wanted]; exact Bool.false_ne_true), List.map_cons,
            ← induction]
          simp only [handOut, wanted, Bool.false_eq_true, if_false]

theorem embedChunksWith_append (vectorOf : Chunk → Embedding) (chunks : List Chunk)
    (rest : List Embedding) :
    embedChunksWith chunks (chunks.map vectorOf ++ rest) =
      (chunks.map fun chunk => { chunk with embedding := some (vectorOf chunk) }, rest) := by
  induction chunks with
  | nil => rfl
  | cons chunk chunks induction =>
      rw [List.map_cons, List.cons_append, embedChunksWith, induction]
      rfl

theorem embedAnalyses_nil (files : List IndexedFile) : embedAnalyses files [] = files := by
  have nothing : ∀ chunks : List Chunk, embedChunksWith chunks [] = (chunks, []) := by
    intro chunks
    cases chunks <;> rfl
  induction files with
  | nil => rfl
  | cons file files induction =>
      rw [embedAnalyses]
      cases analysed : file.analysis with
      | none => simp only [induction]
      | some analysis =>
          simp only [nothing, induction]
          rw [← analysed]

/-- A file all of whose chunks have vectors. -/
def embedChunksOf (vectorOf : Chunk → Embedding) (file : IndexedFile) : IndexedFile :=
  { file with
    analysis := file.analysis.map fun analysis =>
      { analysis with
        chunks := analysis.chunks.map fun chunk =>
          { chunk with embedding := some (vectorOf chunk) } } }

theorem embedAnalyses_eq_map (vectorOf : Chunk → Embedding) (files : List IndexedFile) :
    embedAnalyses files
        ((files.flatMap fun file => (file.analysis.map (·.chunks)).getD []).map vectorOf) =
      files.map (embedChunksOf vectorOf) := by
  induction files with
  | nil => rfl
  | cons file files induction =>
      rw [List.flatMap_cons, List.map_append, List.map_cons, ← induction, embedAnalyses]
      unfold embedChunksOf
      cases analysed : file.analysis with
      | none =>
          simp only [Option.map_none, Option.getD_none, List.map_nil, List.nil_append]
          rw [← analysed]
      | some analysis =>
          simp only [Option.map_some, Option.getD_some, embedChunksWith_append]

/-! ## Files -/

variable (indexer : Indexer) (vectorOf : String → Embedding)

/-- What is taken of a text to be embedded. -/
def vectorIn (text : String) : Embedding :=
  vectorOf (prepareText text indexer.config.embedding.maxChars)

/-- A text as it is handed to the embedder. -/
def prepared (text : String) : String := prepareText text indexer.config.embedding.maxChars

/-- The texts of a batch that are embedded for its files as a whole. -/
def fileTexts (candidates : List Candidate) : List String :=
  (candidates.filter (·.fileClass.isEmbeddable)).map fun candidate =>
    indexer.prepared candidate.content

/-- The chunks that a file to be indexed is cut into. -/
def chunksOf (candidate : Candidate) : List Chunk :=
  ((indexer.analyzeFile candidate (indexer.build candidate none)).analysis.map (·.chunks)).getD []

/-- The texts of a batch that are embedded for the chunks of its files. -/
def chunkTexts (candidates : List Candidate) : List String :=
  (candidates.flatMap indexer.chunksOf).map fun chunk => indexer.prepared chunk.content

/-- The vector of a file as a whole, if it gets one. -/
def fileVector? (candidate : Candidate) : Option Embedding :=
  if indexer.config.embedding.enabled && candidate.fileClass.isEmbeddable then
    some (indexer.vectorIn vectorOf candidate.content)
  else none

/-- A file to be indexed as it is stored, with the vectors of its texts. -/
def finishedBy (candidate : Candidate) : IndexedFile :=
  let file := indexer.analyzeFile candidate
    (indexer.build candidate (indexer.fileVector? vectorOf candidate))
  let embedding := indexer.config.embedding
  if embedding.enabled && embedding.embedChunks then
    embedChunksOf (fun chunk => indexer.vectorIn vectorOf chunk.content) file
  else file

variable {indexer vectorOf}

/-- The vector of a file is no matter of its analysis. -/
theorem analysis_analyzeFile (candidate : Candidate) (vector : Option Embedding) :
    (indexer.analyzeFile candidate (indexer.build candidate vector)).analysis =
      (indexer.analyzeFile candidate (indexer.build candidate none)).analysis := by
  unfold analyzeFile
  split <;> rfl

section

variable {candidates : List Candidate}

theorem embedFiles_of_answered
    (answered : indexer.embedder.embedAll (indexer.fileTexts candidates) =
      .ok ((indexer.fileTexts candidates).map vectorOf)) (run : Run) :
    (indexer.embedFiles candidates run).1 =
        candidates.map (fun candidate => (candidate, indexer.fileVector? vectorOf candidate)) ∧
      (indexer.embedFiles candidates run).2.1 = true := by
  unfold fileTexts prepared at answered
  unfold embedFiles fileVector?
  simp only [answered]
  cases indexer.config.embedding.enabled with
  | false => exact ⟨rfl, rfl⟩
  | true =>
      simp only [Bool.not_true, Bool.false_or, Bool.true_and]
      split
      · next none =>
          refine ⟨List.map_congr_left fun candidate member => ?_, rfl⟩
          have unwanted := List.filter_eq_nil_iff.mp (List.isEmpty_iff.mp none) candidate member
          rw [if_neg unwanted]
      · rw [List.map_map]
        exact ⟨handOut_eq_map _ _ candidates, rfl⟩

/-- The chunks of files that have got their vectors are those of before. -/
theorem flatMap_chunks (embedded : List (Candidate × Option Embedding)) :
    (embedded.map fun (candidate, vector) =>
      indexer.analyzeFile candidate (indexer.build candidate vector)).flatMap
        (fun file => (file.analysis.map (·.chunks)).getD []) =
      (embedded.map (·.1)).flatMap indexer.chunksOf := by
  rw [List.flatMap_map, List.flatMap_map]
  apply List.flatMap_congr
  rintro ⟨candidate, vector⟩ _
  rw [analysis_analyzeFile, chunksOf]

theorem embedChunks_of_answered {embedded : List (Candidate × Option Embedding)}
    (answered : indexer.embedder.embedAll (indexer.chunkTexts (embedded.map (·.1))) =
      .ok ((indexer.chunkTexts (embedded.map (·.1))).map vectorOf)) (run : Run) :
    let files := embedded.map fun (candidate, vector) =>
      indexer.analyzeFile candidate (indexer.build candidate vector)
    (indexer.embedChunks files run).1 =
      files.map (embedChunksOf fun chunk => indexer.vectorIn vectorOf chunk.content) := by
  intro files
  unfold chunkTexts prepared at answered
  rw [← embedAnalyses_eq_map]
  unfold embedChunks
  simp only [files, flatMap_chunks, answered]
  split
  · next none =>
      rw [List.isEmpty_iff.mp none, List.map_nil]
      exact (embedAnalyses_nil _).symm
  · rw [List.map_map]
    rfl

/-- When the texts of a batch get certain vectors, each file is finished with those of its own. -/
theorem finishedFiles_of_answered
    (answered : indexer.embedder.embedAll (indexer.fileTexts candidates) =
      .ok ((indexer.fileTexts candidates).map vectorOf))
    (answeredChunks : indexer.config.embedding.embedChunks = true →
      indexer.embedder.embedAll (indexer.chunkTexts candidates) =
        .ok ((indexer.chunkTexts candidates).map vectorOf)) :
    indexer.finishedFiles candidates = candidates.map (indexer.finishedBy vectorOf) := by
  have embedded := embedFiles_of_answered answered {}
  have same := indexer.map_fst_embedFiles candidates {}
  unfold finishedFiles finishedBy
  simp only [embedded.2, Bool.and_true]
  split
  · next wanted =>
      have chunks := answeredChunks (Bool.and_eq_true_iff.mp wanted).2
      rw [embedChunks_of_answered (same.symm ▸ chunks), embedded.1, List.map_map, List.map_map]
      rfl
  · rw [embedded.1, List.map_map]
    rfl

end

/-- Which files are finished together makes no difference. -/
theorem finishedFiles_of_gives (gives : indexer.embedder.Gives vectorOf)
    (candidates : List Candidate) :
    indexer.finishedFiles candidates = candidates.map (indexer.finishedBy vectorOf) :=
  finishedFiles_of_answered (gives _) fun _ => gives _

theorem bare_embedChunksOf (vectorOf : Chunk → Embedding) (file : IndexedFile) :
    (embedChunksOf vectorOf file).bare = file.bare := by
  unfold embedChunksOf IndexedFile.bare
  cases file.analysis with
  | none => rfl
  | some analysis =>
      simp only [Option.map_some, Analysis.bare, List.map_map]
      rfl

/-- A file that is finished by itself is finished as told, vectors aside. -/
theorem bare_finishedBy (candidate : Candidate) :
    (indexer.finishedBy vectorOf candidate).bare = indexer.outlineOf candidate := by
  unfold finishedBy
  simp only
  split
  · rw [bare_embedChunksOf, bare_analyzeFile]
  · exact indexer.bare_analyzeFile _ _

/-- With such an embedder and a store that accepts everything, what is left of a file is certain. -/
theorem isReady_of_gives (gives : indexer.embedder.Gives vectorOf)
    (accepting : indexer.gate = .accepting) {source : FileSource} (isApart : source.IsApart) :
    indexer.IsReady source fun candidate finished =>
      finished = indexer.finishedBy vectorOf candidate where
  accepting := accepting
  isApart := isApart
  each candidates := by
    rw [finishedFiles_of_gives gives, List.forall₂_map_right_iff, List.forall₂_same]
    exact fun candidate _ => rfl
  outlines candidate finished isFinished := by
    rw [isFinished]
    exact bare_finishedBy candidate

end Indexer

end SourceIndex
