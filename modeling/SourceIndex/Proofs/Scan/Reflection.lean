import SourceIndex.Proofs.Analysis.Distinctness
import SourceIndex.Proofs.Analysis.Lossless
import SourceIndex.Proofs.Scan.Effects

/-! What a store is to hold of a file, told by the file alone: what is recorded of its bytes and its
time, and the rows of its analysis. -/

namespace SourceIndex

/-! ## Rows of an analysis -/

/-- Whether the rows at a path are those of what has been found in a file, vectors aside; there are
none if nothing has been looked for. Numbers with a fraction are those that are read back. -/
structure StoredEntry.Holds (entry : StoredEntry) (found : Option Analysis) : Prop where
  definitions : entry.definitions =
    ((found.map (·.definitions)).getD []).map (·.inFile entry.file.id)
  dependencies : entry.dependencies =
    ((found.map (·.dependencies)).getD []).map (·.stored entry.file.id)
  chunks : entry.chunks.map Chunk.bare =
    ((found.map (·.chunks)).getD []).map (·.stored entry.file.id)
  complexities : entry.complexities =
    (found.map fun analysis => ⟨entry.file.id, analysis.complexity.stored⟩).toList

/-- The rows of a file that is written are those of its analysis, if all of them have identifiers of
their own and lose nothing. -/
theorem StoredEntry.holds_ofFile {file : IndexedFile} {found : Option Analysis}
    (analysed : file.bare.analysis = found.map Analysis.bare)
    (distinct : ∀ analysis ∈ found, analysis.IsDistinct)
    (lossless : ∀ analysis ∈ found, ∀ definition ∈ analysis.definitions,
      definition.HasLosslessMetadata)
    (bare : ∀ analysis ∈ found, ∀ chunk ∈ analysis.chunks, chunk.bare = chunk) :
    (StoredEntry.ofFile file).Holds found := by
  have given : file.analysis.map Analysis.bare = found.map Analysis.bare := analysed
  cases found with
  | none =>
      have nothing : file.analysis = none := Option.map_eq_none_iff.mp given
      constructor
      all_goals
        unfold ofFile IndexedFile.definitionRows IndexedFile.dependencyRows IndexedFile.chunkRows
          IndexedFile.complexityRows
        rw [nothing]
        rfl
  | some analysis =>
      rcases Option.map_eq_some_iff.mp given with ⟨own, isOwn, same⟩
      rcases Analysis.mk.inj same with ⟨definitions, dependencies, bareChunks, complexity⟩
      have chunks : own.chunks.map Chunk.bare = analysis.chunks :=
        bareChunks.trans (map_eq_self (bare analysis rfl))
      have ids := distinct analysis rfl
      have definitionRows : file.definitionRows = analysis.definitions.map (·.inFile file.id) := by
        rw [IndexedFile.definitionRows, isOwn, Option.map_some, Option.getD_some, definitions]
        apply List.map_congr_left
        exact fun definition member =>
          Definition.stored_eq_inFile (lossless analysis rfl definition member) file.id
      have dependencyRows : file.dependencyRows =
          analysis.dependencies.map (·.stored file.id) := by
        rw [IndexedFile.dependencyRows, isOwn, Option.map_some, Option.getD_some, dependencies]
      have chunkRows : file.chunkRows.map Chunk.bare = analysis.chunks.map (·.stored file.id) := by
        rw [IndexedFile.chunkRows, isOwn, ← chunks, Option.map_some, Option.getD_some,
          List.map_map, List.map_map]
        rfl
      have complexityRows : file.complexityRows = [⟨file.id, analysis.complexity.stored⟩] := by
        rw [IndexedFile.complexityRows, isOwn, ← complexity]
        rfl
      have definitionIds : (file.definitionRows.map (·.id)).Nodup := by
        rw [definitionRows, List.map_map]
        exact ids.definitions
      have dependencyIds : (file.dependencyRows.map (·.id)).Nodup := by
        rw [dependencyRows, List.map_map]
        exact ids.dependencies
      have chunkIds : (file.chunkRows.map (·.id)).Nodup := by
        have same : file.chunkRows.map (·.id) = (file.chunkRows.map Chunk.bare).map (·.id) := by
          rw [List.map_map]
          rfl
        rw [same, chunkRows, List.map_map]
        exact ids.chunks
      constructor
      · exact (RowFormat.ofDefinitions.merge_eq_self definitionIds).trans definitionRows
      · exact (RowFormat.ofDependencies.merge_eq_self dependencyIds).trans dependencyRows
      · exact (congrArg (List.map Chunk.bare)
          (RowFormat.ofChunks.merge_eq_self chunkIds)).trans chunkRows
      · exact (congrArg RowFormat.ofComplexities.merge complexityRows)

namespace Indexer

variable (indexer : Indexer)

/-! ## Files -/

/-- The text of a file. What is no text in it is replaced. -/
def textOf (file : WalkedFile) : String := String.ofList (Text.decodeLossy file.content.bytes)

/-- What the classifier says of a file by its name and the first bytes of its text. -/
def classOf (file : WalkedFile) : FileClass :=
  indexer.classifier (IndexedFile.nameOf file.path)
    ((textOf file).toUTF8.extract 0 Candidate.leadSize)

/-- What is found in a file, if its language has a structure. -/
def findings? (file : WalkedFile) : Option Analysis :=
  if (indexer.classOf file).isStructured then
    some (analyze indexer.config.chunking (fileId indexer.project file.path) (textOf file)
      (indexer.classOf file).languageId)
  else none

/-- Whether what is stored at a path is what a file comes to. -/
structure Reflects (file : WalkedFile) (entry : StoredEntry) : Prop where
  path : entry.file.path = file.path
  name : entry.file.name = IndexedFile.nameOf file.path
  extension : entry.file.extension = IndexedFile.extensionOf file.path
  language : entry.file.language = (indexer.classOf file).languageId
  contentHash : entry.file.contentHash = contentHash file.content.bytes
  size : entry.file.size = file.content.bytes.size
  lineCount : entry.file.lineCount = (Text.lines (textOf file).toList).length
  time : entry.file.time = file.content.time
  rows : entry.Holds (indexer.findings? file)
  /-- The numbers of a report are counts, which are read back as they are. A file beyond this bound
  does not fit, beside its text, into 47 bits of addresses. -/
  complexities : file.content.bytes.size < 2 ^ 46 → entry.complexities =
    ((indexer.findings? file).map fun analysis => ⟨entry.file.id, analysis.complexity⟩).toList

/-- Whether the lists of parts of which a file and all that is found in it get their identifiers are
among some texts. -/
structure Identifies (texts : List (List String)) (file : WalkedFile) : Prop where
  path : [indexer.project, file.path] ∈ texts
  findings : ∀ analysis ∈ indexer.findings? file, analysis.IdentifiesBy texts

variable {indexer}

theorem outline_eq_findings (file : WalkedFile) : indexer.outline file =
    { id := fileId indexer.project file.path
      path := file.path
      name := IndexedFile.nameOf file.path
      extension := IndexedFile.extensionOf file.path
      language := (indexer.classOf file).languageId
      contentHash := SourceIndex.contentHash file.content.bytes
      size := file.content.bytes.size
      lineCount := (Text.lines (textOf file).toList).length
      time := file.content.time
      analysis := (indexer.findings? file).map Analysis.bare } := by
  have candidate : Candidate.ofFile indexer.classifier file =
      ⟨file.path, file.content.time, textOf file, SourceIndex.contentHash file.content.bytes,
        file.content.bytes.size, indexer.classOf file⟩ := rfl
  rw [outline, candidate, outlineOf, build, analyzeFile, findings?]
  simp only
  split
  · rfl
  · rfl

theorem analysis_outline_eq (file : WalkedFile) :
    (indexer.outline file).analysis = (indexer.findings? file).map Analysis.bare :=
  congrArg IndexedFile.analysis (outline_eq_findings file)

theorem eq_analyze_of_findings? {file : WalkedFile} {analysis : Analysis}
    (found : indexer.findings? file = some analysis) :
    analysis = analyze indexer.config.chunking (fileId indexer.project file.path) (textOf file)
      (indexer.classOf file).languageId := by
  unfold findings? at found
  split at found
  · exact (Option.some.inj found).symm
  · cases found

/-! ## Identifiers -/

theorem Identifies.mono {texts larger : List (List String)} {file : WalkedFile}
    (identifies : indexer.Identifies texts file) (within : ∀ parts ∈ texts, parts ∈ larger) :
    indexer.Identifies larger file where
  path := within _ identifies.path
  findings analysis found := (identifies.findings analysis found).mono within

theorem Identifies.of_no_dependencies {texts : List (List String)} {file : WalkedFile}
    (path : [indexer.project, file.path] ∈ texts)
    (found : ∀ analysis ∈ indexer.findings? file,
      (∀ definition ∈ analysis.definitions, definition.identity ∈ texts) ∧
        analysis.dependencies.isEmpty = true ∧
        ∀ chunk ∈ analysis.chunks, chunk.identity ∈ texts) : indexer.Identifies texts file where
  path := path
  findings analysis isFound :=
    { definitions := (found analysis isFound).1
      dependencies := by
        rw [List.isEmpty_iff.mp (found analysis isFound).2.1]
        exact ⟨[], Dependency.numbers_nil, List.forall_mem_nil _⟩
      chunks := (found analysis isFound).2.2 }

/-- Whatever the files of a tree are, there are texts of which all their identifiers are made. -/
theorem exists_identifies (files : List WalkedFile) :
    ∃ texts, ∀ file ∈ files, indexer.Identifies texts file := by
  have ofFile : ∀ file, ∃ texts, indexer.Identifies texts file := by
    intro file
    cases found : indexer.findings? file with
    | none => exact ⟨[[indexer.project, file.path]], List.mem_cons_self,
        fun analysis isFound => by rw [found] at isFound; cases isFound⟩
    | some analysis =>
        rcases exists_identifiesBy indexer.config.chunking (fileId indexer.project file.path)
          (textOf file) (indexer.classOf file).languageId with ⟨texts, identifies⟩
        refine ⟨[indexer.project, file.path] :: texts, List.mem_cons_self, ?_⟩
        intro other otherFound
        rw [eq_analyze_of_findings? otherFound]
        exact identifies.mono fun _ => List.mem_cons_of_mem _
  induction files with
  | nil => exact ⟨[], List.forall_mem_nil _⟩
  | cons file files induction =>
      rcases ofFile file with ⟨texts, identifies⟩
      rcases induction with ⟨later, identifiesLater⟩
      refine ⟨texts ++ later, ?_⟩
      rw [List.forall_mem_cons]
      exact ⟨identifies.mono fun _ => List.mem_append_left later,
        fun other member =>
          (identifiesLater other member).mono fun _ => List.mem_append_right texts⟩

theorem Identifies.identifiesBy {texts : List (List String)} {file : WalkedFile}
    (identifies : indexer.Identifies texts file) : indexer.IdentifiesBy texts file := by
  have bare : ∀ analysis, (indexer.outline file).analysis = some analysis →
      ∃ found ∈ indexer.findings? file, found.bare = analysis := by
    intro analysis analysed
    rw [analysis_outline_eq] at analysed
    exact Option.map_eq_some_iff.mp analysed
  constructor
  · exact identifies.path
  · intro analysis analysed definition member
    rcases bare analysis analysed with ⟨found, isFound, rfl⟩
    exact (identifies.findings found isFound).definitions definition member
  · intro analysis analysed dependency member
    rcases bare analysis analysed with ⟨found, isFound, rfl⟩
    rcases (identifies.findings found isFound).dependencies with ⟨numbered, numbers, known⟩
    have numberedMember : dependency ∈ numbered.map (·.1) := by
      rw [numbers.all]
      exact member
    rcases List.mem_map.mp numberedMember with ⟨entry, entryMember, rfl⟩
    exact ⟨entry.2, numbers.named entry entryMember, known entry entryMember⟩
  · intro analysis analysed chunk member
    rcases bare analysis analysed with ⟨found, isFound, rfl⟩
    rcases List.mem_map.mp member with ⟨whole, wholeMember, rfl⟩
    exact (identifies.findings found isFound).chunks whole wholeMember

/-! ## What is written -/

theorem bare_of_mem_splitChunks {config : ChunkingConfig} {language : Language}
    {fileId content : String} {chunk : Chunk}
    (member : chunk ∈ splitChunks config language fileId content) : chunk.bare = chunk := by
  unfold splitChunks at member
  simp only at member
  split at member
  · rw [List.mem_singleton.mp member]
    rfl
  · rcases List.mem_map.mp member with ⟨⟨range, index⟩, -, rfl⟩
    rfl

/-- A file that has been worked off is written as what it comes to, whatever has been there. -/
theorem reflects_writtenOver {file : WalkedFile} {texts : List (List String)}
    (differ : IdentifiersDiffer texts) (identifies : indexer.Identifies texts file)
    {finished : IndexedFile} (isFinished : finished.bare = indexer.outline file)
    (former : Option StoredEntry) : indexer.Reflects file (.writtenOver finished former) := by
  rcases IndexedFile.mk.inj (isFinished.trans (outline_eq_findings file)) with
    ⟨-, path, name, extension, language, contentHash, size, lineCount, time, -, -, analysed⟩
  have rows : (StoredEntry.writtenOver finished former).Holds (indexer.findings? file) := by
    apply StoredEntry.holds_ofFile
    · exact analysed
    · intro analysis found
      have known := identifies.findings analysis found
      rw [eq_analyze_of_findings? found] at known ⊢
      exact isDistinct_analyze _ _ _ _ differ known
    · intro analysis found
      rw [eq_analyze_of_findings? found]
      exact hasLosslessMetadata_extractDefinitions _ _ _
    · intro analysis found
      rw [eq_analyze_of_findings? found]
      exact fun chunk member => bare_of_mem_splitChunks member
  refine ⟨path, name, extension, language, contentHash, size, lineCount, time, rows, ?_⟩
  intro small
  rw [rows.complexities]
  cases found : indexer.findings? file with
  | none => rfl
  | some analysis =>
      have text : (textOf file).toList.length < 2 ^ 46 := by
        rw [textOf, String.toList_ofList]
        exact Nat.lt_of_le_of_lt (Text.length_decodeLossy_le _) small
      have lossless := isLossless_analyze indexer.config.chunking
        (fileId indexer.project file.path) (textOf file) (indexer.classOf file).languageId text
      rw [← eq_analyze_of_findings? found] at lossless
      have same := congrArg Analysis.complexity (Analysis.reread_eq_self lossless)
      have isSame : analysis.complexity.stored = analysis.complexity := same
      rw [Option.map_some, Option.map_some, isSame]

end Indexer

end SourceIndex
