import SourceIndex.Proofs.Analysis.Identity
import SourceIndex.Proofs.Scan.Results
import SourceIndex.Proofs.Walk.Places

/-! A scan that passes over what seems unchanged stores the same as one that indexes everything. -/

namespace SourceIndex

namespace Indexer

variable (indexer : Indexer)

/-! ## Digests -/

/-- Whether the lists of parts from which a file and all that is found in it get their identifiers
are among some texts. -/
structure IdentifiesBy (texts : List (List String)) (file : WalkedFile) : Prop where
  path : [indexer.project, file.path] ∈ texts
  definitions : ∀ analysis, (indexer.outline file).analysis = some analysis →
    ∀ definition ∈ analysis.definitions, definition.identity ∈ texts
  dependencies : ∀ analysis, (indexer.outline file).analysis = some analysis →
    ∀ dependency ∈ analysis.dependencies, ∃ ordinal,
      dependency.id = stableId (dependency.identity ordinal) ∧ dependency.identity ordinal ∈ texts
  chunks : ∀ analysis, (indexer.outline file).analysis = some analysis →
    ∀ chunk ∈ analysis.chunks, chunk.identity ∈ texts

/-- Whether no two different texts of which digests are taken have the same digest, be it that of
a content or the part of one that makes an identifier. -/
structure CollisionFree (files : List WalkedFile) : Prop where
  contents : ∀ file ∈ files, ∀ other ∈ files,
    contentHash file.content.bytes = contentHash other.content.bytes →
    file.content.bytes = other.content.bytes
  identifiers : ∃ texts, IdentifiersDiffer texts ∧ ∀ file ∈ files, indexer.IdentifiesBy texts file

/-! ## What is stored of a file -/

theorem analysis_outline (file : WalkedFile) {analysis : Analysis}
    (analysed : (indexer.outline file).analysis = some analysis) :
    ∃ content language, analysis = (analyze indexer.config.chunking
      (fileId indexer.project file.path) content language).bare := by
  unfold outline outlineOf analyzeFile at analysed
  split at analysed
  · exact ⟨_, _, (Option.some.inj analysed).symm⟩
  · cases analysed

@[simp] theorem id_outline (file : WalkedFile) :
    (indexer.outline file).id = fileId indexer.project file.path := by
  unfold outline outlineOf analyzeFile
  split
  · rfl
  · rfl

@[simp] theorem path_outline (file : WalkedFile) : (indexer.outline file).path = file.path :=
  indexer.path_outlineOf _

@[simp] theorem contentHash_outline (file : WalkedFile) :
    (indexer.outline file).contentHash = contentHash file.content.bytes := by
  unfold outline outlineOf analyzeFile
  split
  · rfl
  · rfl

theorem analyzeFile_withTime (candidate : Candidate) (file : IndexedFile) (time : FileTime) :
    indexer.analyzeFile { candidate with time } { file with time } =
      { indexer.analyzeFile candidate file with time } := by
  unfold analyzeFile
  split
  · rfl
  · rfl

theorem build_withTime (candidate : Candidate) (embedding : Option Embedding) (time : FileTime) :
    indexer.build { candidate with time } embedding =
      { indexer.build candidate embedding with time } := by
  simp only [build]

theorem outlineOf_withTime (candidate : Candidate) (time : FileTime) :
    indexer.outlineOf { candidate with time } = { indexer.outlineOf candidate with time } := by
  unfold outlineOf
  rw [build_withTime, analyzeFile_withTime]
  generalize indexer.analyzeFile candidate (indexer.build candidate none) = file
  rfl

/-- What is stored of a file depends on its path and its bytes, and on its time only in what is
stored of that. -/
theorem outline_eq {file other : WalkedFile} (samePath : file.path = other.path)
    (sameBytes : file.content.bytes = other.content.bytes) :
    indexer.outline file = { indexer.outline other with time := file.content.time } := by
  have candidate : Candidate.ofFile indexer.classifier file =
      { Candidate.ofFile indexer.classifier other with time := file.content.time } := by
    unfold Candidate.ofFile
    rw [samePath, sameBytes]
  rw [outline, candidate, outlineOf_withTime]
  rfl

/-! ## Identifiers -/

/-- The files that indexing some files may store. -/
def sourceOf (files : List WalkedFile) : FileSource := fun project stored =>
  project = indexer.project ∧ ∃ file ∈ files, stored = indexer.outline file

theorem supplies_sourceOf {files some : List WalkedFile} (within : ∀ file ∈ some, file ∈ files) :
    indexer.Supplies (indexer.sourceOf files) some :=
  fun file member => ⟨rfl, file, within file member, rfl⟩

variable {indexer}

section

variable {texts : List (List String)} {file other : WalkedFile}

section

variable {analysis : Analysis} (identifies : indexer.IdentifiesBy texts file)
  (analysed : (indexer.outline file).analysis = some analysis)

include identifies analysed

theorem IdentifiesBy.of_definition {definition : Definition}
    (member : definition ∈ analysis.definitions) :
    ∃ rest, fileId indexer.project file.path :: rest ∈ texts ∧
      definition.id = stableId (fileId indexer.project file.path :: rest) := by
  have identified : definition.IsIdentified (fileId indexer.project file.path) := by
    rcases indexer.analysis_outline file analysed with ⟨content, language, rfl⟩
    exact isIdentified_extractDefinitions _ _ content definition member
  have known := identifies.definitions analysis analysed definition member
  have named := identified.named
  rw [Definition.identity, identified.owned] at known named
  exact ⟨_, known, named⟩

theorem IdentifiesBy.of_dependency {dependency : Dependency}
    (member : dependency ∈ analysis.dependencies) :
    ∃ rest, fileId indexer.project file.path :: rest ∈ texts ∧
      dependency.id = stableId (fileId indexer.project file.path :: rest) := by
  have identified : dependency.IsIdentified (fileId indexer.project file.path) := by
    rcases indexer.analysis_outline file analysed with ⟨content, language, rfl⟩
    exact isIdentified_extractDependencies _ _ content dependency member
  rcases identifies.dependencies analysis analysed dependency member with ⟨ordinal, named, known⟩
  rw [Dependency.identity, identified.owned] at known named
  exact ⟨_, known, named⟩

theorem IdentifiesBy.of_chunk {chunk : Chunk} (member : chunk ∈ analysis.chunks) :
    ∃ rest, fileId indexer.project file.path :: rest ∈ texts ∧
      chunk.id = stableId (fileId indexer.project file.path :: rest) := by
  have identified : chunk.IsIdentified (fileId indexer.project file.path) := by
    rcases indexer.analysis_outline file analysed with ⟨content, language, rfl⟩
    rcases List.mem_map.mp member with ⟨given, givenMember, rfl⟩
    have whole := isIdentified_splitChunks _ _ _ content given givenMember
    exact ⟨whole.owned, whole.named⟩
  have known := identifies.chunks analysis analysed chunk member
  have named := identified.named
  rw [Chunk.identity, identified.owned] at known named
  exact ⟨_, known, named⟩

end

/-- The identifiers of all that is found in a file start from that of the file. -/
theorem IdentifiesBy.exists_rest (identifies : indexer.IdentifiesBy texts file) {kind : RowKind}
    (found : kind = .definition ∨ kind = .dependency ∨ kind = .chunk) {id : String}
    (member : id ∈ (indexer.outline file).rowIds kind) :
    ∃ rest, fileId indexer.project file.path :: rest ∈ texts ∧
      id = stableId (fileId indexer.project file.path :: rest) := by
  rcases found with rfl | rfl | rfl
  · rw [IndexedFile.rowIds, IndexedFile.definitionRows] at member
    rcases IndexedFile.exists_of_mem_extracted member fun _ => rfl with
      ⟨analysis, analysed, definition, inside, rfl⟩
    exact identifies.of_definition analysed inside
  · rw [IndexedFile.rowIds, IndexedFile.dependencyRows] at member
    rcases IndexedFile.exists_of_mem_extracted member fun _ => rfl with
      ⟨analysis, analysed, dependency, inside, rfl⟩
    exact identifies.of_dependency analysed inside
  · rw [IndexedFile.rowIds, IndexedFile.chunkRows] at member
    rcases IndexedFile.exists_of_mem_extracted member fun _ => rfl with
      ⟨analysis, analysed, chunk, inside, rfl⟩
    exact identifies.of_chunk analysed inside

theorem IdentifiesBy.mono (identifies : indexer.IdentifiesBy texts file)
    {larger : List (List String)} (within : ∀ parts ∈ texts, parts ∈ larger) :
    indexer.IdentifiesBy larger file where
  path := within _ identifies.path
  definitions analysis analysed definition member :=
    within _ (identifies.definitions analysis analysed definition member)
  dependencies analysis analysed dependency member := by
    rcases identifies.dependencies analysis analysed dependency member with ⟨ordinal, named, known⟩
    exact ⟨ordinal, named, within _ known⟩
  chunks analysis analysed chunk member :=
    within _ (identifies.chunks analysis analysed chunk member)

/-- Files that share an identifier of any kind have the same identifier themselves. -/
theorem IdentifiesBy.fileId_eq (differ : IdentifiersDiffer texts) {otherIndexer : Indexer}
    (identifies : indexer.IdentifiesBy texts file)
    (otherIdentifies : otherIndexer.IdentifiesBy texts other)
    {kind : RowKind} {id : String} (member : id ∈ (indexer.outline file).rowIds kind)
    (otherMember : id ∈ (otherIndexer.outline other).rowIds kind) :
    fileId indexer.project file.path = fileId otherIndexer.project other.path := by
  have ofFound : kind = .definition ∨ kind = .dependency ∨ kind = .chunk →
      fileId indexer.project file.path = fileId otherIndexer.project other.path := by
    intro found
    rcases identifies.exists_rest found member with ⟨rest, known, named⟩
    rcases otherIdentifies.exists_rest found otherMember with ⟨otherRest, otherKnown, otherNamed⟩
    exact differ.owner_eq known otherKnown (named.symm.trans otherNamed)
  cases kind with
  | file | complexity =>
      rw [IndexedFile.rowIds, List.mem_singleton, id_outline] at member otherMember
      exact member.symm.trans otherMember
  | definition => exact ofFound (.inl rfl)
  | dependency => exact ofFound (.inr (.inl rfl))
  | chunk => exact ofFound (.inr (.inr rfl))

/-- Files that share an identifier of any kind lie at the same path. -/
theorem IdentifiesBy.path_eq (differ : IdentifiersDiffer texts)
    (identifies : indexer.IdentifiesBy texts file)
    (otherIdentifies : indexer.IdentifiesBy texts other)
    {kind : RowKind} {id : String} (member : id ∈ (indexer.outline file).rowIds kind)
    (otherMember : id ∈ (indexer.outline other).rowIds kind) : file.path = other.path :=
  differ.path_eq identifies.path otherIdentifies.path
    (identifies.fileId_eq differ otherIdentifies member otherMember)

theorem IdentifiesBy.of_no_dependencies (path : [indexer.project, file.path] ∈ texts)
    (found : ∀ analysis ∈ (indexer.outline file).analysis,
      (∀ definition ∈ analysis.definitions, definition.identity ∈ texts) ∧
        analysis.dependencies.isEmpty = true ∧
        ∀ chunk ∈ analysis.chunks, chunk.identity ∈ texts) :
    indexer.IdentifiesBy texts file where
  path := path
  definitions analysis analysed := (found analysis analysed).1
  dependencies analysis analysed dependency member := by
    rw [List.isEmpty_iff.mp (found analysis analysed).2.1] at member
    exact absurd member List.not_mem_nil
  chunks analysis analysed := (found analysis analysed).2.2

/-- Where identifiers do not collide, they tell files apart. -/
theorem IdentifiesBy.isApart (differ : IdentifiersDiffer texts) {files : List WalkedFile}
    (identifies : ∀ file ∈ files, indexer.IdentifiesBy texts file) :
    (indexer.sourceOf files).IsApart := by
  constructor
  · rintro project stored otherStored ⟨-, file, -, rfl⟩ ⟨-, other, -, rfl⟩ samePath
    rw [path_outline, path_outline] at samePath
    rw [id_outline, id_outline, samePath]
  · rintro project stored otherProject otherStored ⟨rfl, file, member, rfl⟩
      ⟨rfl, other, otherMember, rfl⟩ different kind id shared otherShared
    apply different
    rw [path_outline, path_outline]
    have samePath := (identifies file member).path_eq differ (identifies other otherMember)
      shared otherShared
    exact ⟨rfl, samePath⟩

end

theorem CollisionFree.isApart {files : List WalkedFile} (free : indexer.CollisionFree files) :
    (indexer.sourceOf files).IsApart := by
  rcases free.identifiers with ⟨texts, differ, identifies⟩
  exact IdentifiesBy.isApart differ identifies

/-! ## One path -/

section

variable {stored : List FileState} {file : WalkedFile} {former : Option IndexedFile}

/-- A forced scan reads every file that is not too large. -/
theorem outcomeOf_forced (stored : List FileState) (file : WalkedFile) :
    indexer.outcomeOf stored true file =
      if file.content.bytes.size > indexer.config.scan.maxFileBytes then .oversize
      else if file.content.isReadable = false then .failed
      else .ready (Candidate.ofFile indexer.classifier file) := by
  have unsettled : ∀ recorded time, Detection.settledByTime true recorded time = false := by
    intro recorded time
    cases recorded with
    | none => rfl
    | some state => rfl
  have outdated : ∀ recorded hash,
      Detection.statusOf true recorded hash ≠ .unchangedByContent := by
    intro recorded hash
    cases recorded with
    | none => exact nofun
    | some state => exact nofun
  unfold outcomeOf
  rw [Candidate.read_eq, unsettled, if_neg (outdated _ _)]
  rfl

/-- A scan that is not forced indexes a file that has not been recorded as a forced one does. -/
theorem outcomeOf_new (isNew : recordOf? stored file.path = none) :
    indexer.outcomeOf stored false file = indexer.outcomeOf stored true file := by
  rw [outcomeOf_forced]
  unfold outcomeOf
  rw [Candidate.read_eq, isNew]
  rfl

/-- Of a file that has been recorded, first the time and then the content tell whether it has
changed. -/
theorem outcomeOf_recorded {state : FileState}
    (isRecorded : recordOf? stored file.path = some state) :
    indexer.outcomeOf stored false file =
      if file.content.bytes.size > indexer.config.scan.maxFileBytes then .oversize
      else if file.content.time.isLaterThan state.time = false then
        .unchangedByTime file.content.bytes.size
      else if file.content.isReadable = false then .failed
      else if state.contentHash = contentHash file.content.bytes then
        .unchangedByContent file.content.time
      else .ready (Candidate.ofFile indexer.classifier file) := by
  have settled : (Detection.settledByTime false (some state) file.content.time = true) =
      (file.content.time.isLaterThan state.time = false) := by
    simp [Detection.settledByTime]
  have unchanged : (Detection.statusOf false (some state) (contentHash file.content.bytes) =
      .unchangedByContent) = (state.contentHash = contentHash file.content.bytes) := by
    simp [Detection.statusOf]
  unfold outcomeOf
  rw [Candidate.read_eq, isRecorded]
  simp only [settled, unchanged]

theorem unlessRefused_accepting (accepting : indexer.gate = .accepting) (operation : StoreOperation)
    (path : String) (change : Option IndexedFile → Option IndexedFile) :
    indexer.unlessRefused operation path change former = change former := by
  unfold unlessRefused
  rw [accepting]
  rfl

theorem effect_forced (accepting : indexer.gate = .accepting) :
    indexer.effect stored true file former =
      if file.content.bytes.size > indexer.config.scan.maxFileBytes then former
      else if file.content.isReadable = false then former
      else some (indexer.outline file) := by
  rw [effect, outcomeOf_forced]
  split
  · rfl
  · split
    · rfl
    · rw [outcomeEffect, unlessRefused_accepting accepting]
      rfl

/-- What is told of a file that has been stored with the bytes of another one at its path is told
of that one too. -/
theorem ofFile_outline {files : List WalkedFile} (free : indexer.CollisionFree files)
    {file other : WalkedFile} (member : file ∈ files) (otherMember : other ∈ files)
    (samePath : file.path = other.path)
    (sameHash : contentHash file.content.bytes = contentHash other.content.bytes)
    (time : FileTime) :
    FileAccount.ofFile { indexer.outline file with time } =
      FileAccount.ofFile (indexer.outline other) := by
  have sameBytes := free.contents file member other otherMember sameHash
  rw [indexer.outline_eq samePath sameBytes, FileAccount.ofFile_withTime,
    FileAccount.ofFile_withTime]

/-- At the path of a file it makes no difference whether a scan is forced, if what is stored there
has the content of the file or the file is later. -/
theorem ofFile_effect {files : List WalkedFile} (free : indexer.CollisionFree files)
    (accepting : indexer.gate = .accepting) (member : file ∈ files)
    (recorded : recordOf? stored file.path = former.map IndexedFile.state)
    (known : ∀ found, former = some found → ∃ other ∈ files, other.path = file.path ∧
      ∃ time, found = { indexer.outline other with time })
    (current : ∀ found, former = some found → found.contentHash = contentHash file.content.bytes ∨
      file.content.time.isLaterThan found.time = true) :
    (indexer.effect stored false file former).map FileAccount.ofFile =
      (indexer.effect stored true file former).map FileAccount.ofFile := by
  cases former with
  | none => rw [effect, effect, outcomeOf_new recorded]
  | some found =>
      rcases known found rfl with ⟨other, otherMember, samePath, time, made⟩
      have foundHash : found.contentHash = contentHash other.content.bytes := by
        rw [made]
        exact indexer.contentHash_outline other
      -- Whatever its time, what is stored tells the same as the file if it has the same content.
      have sameAccount : found.contentHash = contentHash file.content.bytes → ∀ time,
          FileAccount.ofFile { found with time } = FileAccount.ofFile (indexer.outline file) := by
        intro sameHash time
        rw [made]
        exact ofFile_outline free otherMember member samePath (foundHash.symm.trans sameHash) time
      rw [effect_forced accepting, effect, outcomeOf_recorded recorded]
      split
      · rfl
      · split
        · next settled =>
            have notLater : ¬ file.content.time.isLaterThan found.time = true := by
              rw [Bool.not_eq_true]
              exact settled
            have sameHash := (current found rfl).resolve_right notLater
            split
            · rfl
            · exact congrArg some (sameAccount sameHash found.time)
        · split
          · rfl
          · split
            · next sameHash =>
                rw [outcomeEffect, unlessRefused_accepting accepting]
                exact congrArg some (sameAccount sameHash file.content.time)
            · rw [outcomeEffect, unlessRefused_accepting accepting]
              rfl

end

/-! ## Whole scans -/

/-- Whether every file that a scan comes upon and that has been stored either has the content that
has been stored or is later, counted in milliseconds. -/
def IsCurrent (indexer : Indexer) (store : Store) (disk : FileTree) : Prop :=
  ∀ file ∈ indexer.filesOn disk, ∀ state ∈ store.states indexer.project, state.path = file.path →
    contentHash file.content.bytes = state.contentHash ∨
      state.time.milliseconds < file.content.time.milliseconds

theorem isProper_rootTree {disk tree : FileTree} (proper : disk.IsProper)
    (isThere : indexer.rootTree? disk = some tree) : tree.IsProper := by
  unfold rootTree? at isThere
  split at isThere
  · next entries found =>
      rcases Option.bind_eq_some_iff.mp found with ⟨names, -, isFound⟩
      rw [← Option.some.inj isThere]
      exact proper.of_find? isFound
  · cases isThere

theorem eq_of_mem_filesOn {disk : FileTree} (proper : disk.IsProper) {file other : WalkedFile}
    (member : file ∈ indexer.filesOn disk) (otherMember : other ∈ indexer.filesOn disk)
    (same : other.path = file.path) : other = file := by
  unfold filesOn at member otherMember
  split at member
  · exact absurd member List.not_mem_nil
  · next tree isThere =>
      rw [isThere] at otherMember
      exact FileTree.eq_of_mem_walk (isProper_rootTree proper isThere) otherMember member same

/-- Behind a forced scan nothing is recorded but the files that it has come upon, if all of them
can be read. -/
theorem states_scan_forced (accepting : indexer.gate = .accepting)
    (prunes : indexer.config.scan.pruneMissing = true) {disk : FileTree} (proper : disk.IsProper)
    {source : FileSource} (isApart : source.IsApart)
    (supplied : indexer.Supplies source (indexer.filesOn disk))
    (isThere : (indexer.rootTree? disk).isSome)
    (readable : ∀ file ∈ indexer.filesOn disk,
      file.content.bytes.size ≤ indexer.config.scan.maxFileBytes ∧ file.content.isReadable = true)
    {state : IndexState} {view : FileMap} (keeps : state.store.Keeps source view)
    {recorded : FileState}
    (member : recorded ∈ (indexer.scan disk .force state).2.store.states indexer.project) :
    ∃ file ∈ indexer.filesOn disk, recorded = (indexer.outline file).state := by
  have loads : indexer.gate.refuses .load "" = none := by rw [accepting]; rfl
  have kept := indexer.keeps_scan isApart .force supplied isThere loads keeps
  rcases (kept.holds.mem_states indexer.project recorded).mp member with ⟨found, there, rfl⟩
  by_cases isFile : ∃ file ∈ indexer.filesOn disk, file.path = found.state.path
  · rcases isFile with ⟨file, fileMember, samePath⟩
    have only : ∀ other ∈ indexer.filesOn disk, other.path = file.path → other = file :=
      fun other otherMember same => eq_of_mem_filesOn proper fileMember otherMember same
    have small : ¬ file.content.bytes.size > indexer.config.scan.maxFileBytes :=
      Nat.not_lt.mpr (readable file fileMember).1
    have reads : ¬ file.content.isReadable = false := by
      rw [(readable file fileMember).2]
      exact Bool.false_ne_true.symm
    rw [← samePath, indexer.scanIn_at _ _ fileMember only, decide_eq_true rfl,
      effect_forced accepting, if_neg small, if_neg reads, Option.some.injEq] at there
    exact ⟨file, fileMember, congrArg IndexedFile.state there.symm⟩
  · have different : ∀ file ∈ indexer.filesOn disk, file.path ≠ found.state.path :=
      fun file fileMember same => isFile ⟨file, fileMember, same⟩
    have before := keeps.holds.find?_states indexer.project found.state.path
    rw [indexer.scanIn_elsewhere _ _ different before prunes, removeEffect,
      unlessRefused_accepting accepting] at there
    cases there

theorem scanIn_agrees {store : Store} {view : FileMap} {files : List WalkedFile} {disk : FileTree}
    (accepting : indexer.gate = .accepting) (prunes : indexer.config.scan.pruneMissing = true)
    (free : indexer.CollisionFree files) (keeps : store.Keeps (indexer.sourceOf files) view)
    (within : ∀ file ∈ indexer.filesOn disk, file ∈ files) (proper : disk.IsProper)
    (current : indexer.IsCurrent store disk) (path : String) :
    (indexer.scanIn (store.states indexer.project) false view (indexer.filesOn disk)
        indexer.project path).map FileAccount.ofFile =
      (indexer.scanIn (store.states indexer.project) true view (indexer.filesOn disk)
        indexer.project path).map FileAccount.ofFile := by
  have recorded : ∀ path, recordOf? (store.states indexer.project) path =
      (view indexer.project path).map IndexedFile.state := keeps.holds.find?_states indexer.project
  by_cases isThere : ∃ file ∈ indexer.filesOn disk, file.path = path
  · rcases isThere with ⟨file, member, rfl⟩
    have only : ∀ other ∈ indexer.filesOn disk, other.path = file.path → other = file :=
      fun other otherMember same => eq_of_mem_filesOn proper member otherMember same
    rw [indexer.scanIn_at _ false member only, indexer.scanIn_at _ true member only]
    apply ofFile_effect free accepting (within file member) (recorded file.path)
    · intro found there
      rcases keeps.comes indexer.project file.path found there with
        ⟨place, given, time, ⟨-, other, otherMember, rfl⟩, made⟩
      refine ⟨other, otherMember, ?_, time, made⟩
      rw [← place, made]
      exact (indexer.path_outline other).symm
    · intro found there
      have state : found.state ∈ store.states indexer.project := by
        have isRecorded := recorded file.path
        rw [there] at isRecorded
        exact List.mem_of_find?_eq_some isRecorded
      rcases current file member found.state state (keeps.holds.path_eq there) with same | later
      · exact .inl same.symm
      · exact .inr (decide_eq_true later)
  · have different : ∀ file ∈ indexer.filesOn disk, file.path ≠ path :=
      fun file member same => isThere ⟨file, member, same⟩
    rw [indexer.scanIn_elsewhere _ false different (recorded path) prunes,
      indexer.scanIn_elsewhere _ true different (recorded path) prunes]

end Indexer

open Indexer in
/-- Whatever an indexer has been through, a scan that passes over what seems unchanged and one
that is forced store the same paths, and for each of them the same of everything but times and
vectors. -/
theorem scan_incremental_agrees_force {indexer : Indexer} (accepting : indexer.gate = .accepting)
    (prunes : indexer.config.scan.pruneMissing = true) {runs : List IndexerRun} {disk : FileTree}
    (proper : disk.IsProper)
    (free : indexer.CollisionFree (runs.flatMap indexer.filesOf ++ indexer.filesOn disk))
    (current : indexer.IsCurrent (indexer.afterAll runs).store disk) :
    let incremental := (indexer.scan disk .incremental (indexer.afterAll runs)).2.store
    let forced := (indexer.scan disk .force (indexer.afterAll runs)).2.store
    (∀ path, path ∈ incremental.paths indexer.project ↔ path ∈ forced.paths indexer.project) ∧
      ∀ path, incremental.account? indexer.project path = forced.account? indexer.project path := by
  have isApart := free.isApart
  have seen : ∀ run ∈ runs, indexer.Supplies (indexer.sourceOf
      (runs.flatMap indexer.filesOf ++ indexer.filesOn disk)) (indexer.filesOf run) := by
    intro run member
    apply indexer.supplies_sourceOf
    exact fun file inside => List.mem_append_left _ (List.mem_flatMap.mpr ⟨run, member, inside⟩)
  have within : ∀ file ∈ indexer.filesOn disk,
      file ∈ runs.flatMap indexer.filesOf ++ indexer.filesOn disk :=
    fun file member => List.mem_append_right _ member
  rcases indexer.keeps_afterAll isApart seen with ⟨view, keeps⟩
  cases isThere : indexer.rootTree? disk with
  | none =>
      rw [indexer.store_scan_of_missing isThere, indexer.store_scan_of_missing isThere]
      exact ⟨fun path => Iff.rfl, fun path => rfl⟩
  | some tree =>
      have isSome : (indexer.rootTree? disk).isSome := by rw [isThere]; rfl
      have loads : indexer.gate.refuses .load "" = none := by rw [accepting]; rfl
      have supplied := indexer.supplies_sourceOf within
      have incremental :=
        (indexer.keeps_scan isApart .incremental supplied isSome loads keeps).holds
      have forced := (indexer.keeps_scan isApart .force supplied isSome loads keeps).holds
      have agrees := scanIn_agrees accepting prunes free keeps within proper current
      constructor
      · intro path
        rw [incremental.mem_paths, forced.mem_paths]
        have same := congrArg Option.isSome (agrees path)
        rw [Option.isSome_map, Option.isSome_map] at same
        rw [Bool.eq_iff_iff] at same
        exact same
      · intro path
        rw [incremental.account?_eq, forced.account?_eq]
        exact agrees path

/-! ## A file that changes -/

def sampleIndexer : Indexer where
  project := "p"
  root := "/"
  config := {}
  options := ⟨2, [], ["rs"], [], false⟩
  policy := fun _ _ => false
  embedder := Embedder.digesting 4

/-- A file that contains a text since some millisecond. -/
def sampleContent (text : String) (milliseconds : Int) : StoredBytes where
  bytes := text.toUTF8
  time := .ofMilliseconds milliseconds

def sampleDisk (text : String) (milliseconds : Int) : FileTree :=
  .directory [("a.rs", .file (sampleContent text milliseconds))]

theorem isProper_sampleDisk (text : String) (milliseconds : Int) :
    (sampleDisk text milliseconds).IsProper := by
  have named : FileTree.IsName "a.rs" := ⟨by decide, by decide⟩
  apply FileTree.IsProper.directory
  · intro entry member
    rw [List.mem_singleton.mp member]
    exact named
  · exact List.pairwise_singleton _ _
  · intro entry member
    rw [List.mem_singleton.mp member]
    exact .file _

theorem filesOn_sampleDisk (text : String) (milliseconds : Int) :
    sampleIndexer.filesOn (sampleDisk text milliseconds) =
      [⟨"a.rs", sampleContent text milliseconds⟩] := by
  have walked : (sampleDisk text milliseconds).walkFrom sampleIndexer.options
      sampleIndexer.policy [] [] =
      [⟨"a.rs", sampleContent text milliseconds⟩] := rfl
  have root : sampleIndexer.rootTree? (sampleDisk text milliseconds) =
      some (sampleDisk text milliseconds) := rfl
  rw [Indexer.filesOn, root]
  simp only
  rw [FileTree.walk, walked, List.mergeSort_singleton]

/-- The file before and after a change. -/
def sampleFiles : List WalkedFile :=
  [⟨"a.rs", sampleContent "struct A;" 1⟩, ⟨"a.rs", sampleContent "struct B;" 2⟩]

/-- What the identifiers of the file and of all that is found in it are made of. -/
def sampleTexts : List (List String) :=
  let id := fileId "p" "a.rs"
  [["p", "a.rs"], [id, "struct", "A", "1"], [id, "struct", "B", "1"], [id, "chunk", "0", "1", "1"]]

theorem identifiersDiffer_sampleTexts : IdentifiersDiffer sampleTexts := by
  apply IdentifiersDiffer.of_nodup
  decide +kernel

theorem identifiesBy_sampleTexts :
    ∀ file ∈ sampleFiles, sampleIndexer.IdentifiesBy sampleTexts file := by
  have found : ∀ file ∈ sampleFiles, ["p", file.path] ∈ sampleTexts ∧
      ∀ analysis ∈ (sampleIndexer.outline file).analysis,
        (∀ definition ∈ analysis.definitions, definition.identity ∈ sampleTexts) ∧
          analysis.dependencies.isEmpty = true ∧
          ∀ chunk ∈ analysis.chunks, chunk.identity ∈ sampleTexts := by
    decide +kernel
  exact fun file member => .of_no_dependencies (found file member).1 (found file member).2

theorem collisionFree_sampleFiles : sampleIndexer.CollisionFree sampleFiles := by
  constructor
  · decide +kernel
  · exact ⟨sampleTexts, identifiersDiffer_sampleTexts, identifiesBy_sampleTexts⟩

/-- The file has become later since it was stored. -/
theorem isCurrent_sampleDisk :
    sampleIndexer.IsCurrent
      (sampleIndexer.afterAll [.scan (sampleDisk "struct A;" 1) .force]).store
      (sampleDisk "struct B;" 2) := by
  have readable : ∀ file ∈ sampleIndexer.filesOn (sampleDisk "struct A;" 1),
      file.content.bytes.size ≤ sampleIndexer.config.scan.maxFileBytes ∧
        file.content.isReadable = true := by
    intro file member
    rw [filesOn_sampleDisk] at member
    rw [List.mem_singleton.mp member]
    decide
  have within : ∀ file ∈ sampleIndexer.filesOn (sampleDisk "struct A;" 1), file ∈ sampleFiles := by
    intro file member
    rw [filesOn_sampleDisk] at member
    rw [List.mem_singleton.mp member]
    exact List.mem_cons_self
  have keeps : Store.Keeps {} (sampleIndexer.sourceOf sampleFiles) FileMap.empty :=
    ⟨Store.holds_empty, FileMap.comesFrom_empty _⟩
  have stored := @Indexer.states_scan_forced sampleIndexer rfl rfl (sampleDisk "struct A;" 1)
    (isProper_sampleDisk _ _) _ collisionFree_sampleFiles.isApart
    (sampleIndexer.supplies_sourceOf within) rfl readable {} _ keeps
  intro file member state recorded samePath
  rcases stored recorded with ⟨former, formerMember, rfl⟩
  rw [filesOn_sampleDisk] at member formerMember
  rw [List.mem_singleton.mp member, List.mem_singleton.mp formerMember]
  right
  decide +kernel

/-- A file that has been stored and then changed is stored anew by both scans. -/
theorem scan_sampleDisk_agrees :
    let before := sampleIndexer.afterAll [.scan (sampleDisk "struct A;" 1) .force]
    let incremental := (sampleIndexer.scan (sampleDisk "struct B;" 2) .incremental before).2.store
    let forced := (sampleIndexer.scan (sampleDisk "struct B;" 2) .force before).2.store
    (∀ path, path ∈ incremental.paths "p" ↔ path ∈ forced.paths "p") ∧
      ∀ path, incremental.account? "p" path = forced.account? "p" path := by
  apply scan_incremental_agrees_force rfl rfl (isProper_sampleDisk _ _) _ isCurrent_sampleDisk
  have files : [IndexerRun.scan (sampleDisk "struct A;" 1) .force].flatMap sampleIndexer.filesOf ++
      sampleIndexer.filesOn (sampleDisk "struct B;" 2) = sampleFiles := by
    simp only [List.flatMap_cons, List.flatMap_nil, Indexer.filesOf, filesOn_sampleDisk]
    rfl
  rw [files]
  exact collisionFree_sampleFiles

end SourceIndex
