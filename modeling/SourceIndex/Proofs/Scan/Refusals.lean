import SourceIndex.Proofs.Scan.Convergence

/-! A store that refuses some of what a scan asks for: what is refused leaves its path as it was,
and every other path is left as by a store that refuses nothing. -/

namespace SourceIndex

namespace Indexer

variable {indexer : Indexer} {source : FileSource} {stored : List FileState} {force : Bool}
  {files : List WalkedFile} {gone : List String} {disk : FileTree}

/-! ## What is asked for -/

/-- What an indexer asks its store for, path by path, when it works off some files and then removes
some paths. -/
inductive Asks (indexer : Indexer) (stored : List FileState) (force : Bool)
    (files : List WalkedFile) (gone : List String) : StoreOperation → String → Prop
  | touch {file : WalkedFile} (member : file ∈ files)
    (touched : (indexer.outcomeOf stored force file).touchTime?.isSome) :
    Asks indexer stored force files gone .touch file.path
  | persist {file : WalkedFile} (member : file ∈ files)
    (isReady : (indexer.outcomeOf stored force file).candidate?.isSome) :
    Asks indexer stored force files gone .persist file.path
  | remove {path : String} (member : path ∈ gone) :
    Asks indexer stored force files gone .remove path

/-- However a file is finished, it stays at its path. -/
theorem path_of_bare {candidate : Candidate} {finished : IndexedFile}
    (isFinished : finished.bare = indexer.outlineOf candidate) :
    finished.path = candidate.path := by
  have same := congrArg IndexedFile.path isFinished
  rwa [path_outlineOf] at same

/-- What is asked for is called. -/
theorem Asks.exists_call {operation : StoreOperation} {path : String}
    (asks : indexer.Asks stored force files gone operation path) :
    ∃ call ∈ indexer.fileCalls stored force files ++ indexer.removeCalls gone,
      call.operation = operation ∧ call.place = (indexer.project, path) := by
  cases asks with
  | touch member touched =>
      rcases Option.isSome_iff_exists.mp touched with ⟨time, isTime⟩
      exact ⟨_, List.mem_append_left _ (touch_mem_fileCalls member isTime), rfl, rfl⟩
  | persist member isReady =>
      rcases exists_persist_mem_fileCalls indexer.finishes_bare member isReady with
        ⟨finished, isFinished, isCalled⟩
      exact ⟨_, List.mem_append_left _ isCalled, rfl,
        congrArg (Prod.mk indexer.project) (path_of_bare isFinished)⟩
  | remove member =>
      exact ⟨_, List.mem_append_right _ (List.mem_map_of_mem member), rfl, rfl⟩

/-- What is called has been asked for. -/
theorem asks_of_mem_calls {call : StoreCall}
    (member : call ∈ indexer.fileCalls stored force files ++ indexer.removeCalls gone) :
    call.place.1 = indexer.project ∧
      indexer.Asks stored force files gone call.operation call.place.2 := by
  rcases List.mem_append.mp member with member | member
  · rcases brings_of_mem_fileCalls indexer.finishes_bare member with ⟨file, isFile, brings⟩
    have place := path_of_brings (fun _ _ => path_of_bare) brings
    rw [place]
    refine ⟨rfl, ?_⟩
    cases brings with
    | touch touched => exact .touch isFile (Option.isSome_of_eq_some touched)
    | persist isReady _ => exact .persist isFile isReady
  · rcases List.mem_map.mp member with ⟨path, isGone, rfl⟩
    exact ⟨rfl, .remove isGone⟩

/-- No path is the matter of two calls if none of those to be removed is that of a file. -/
theorem nodup_place_calls (once : (files.map (·.path)).Nodup) (goneOnce : gone.Nodup)
    (apart : ∀ path ∈ gone, ∀ file ∈ files, file.path ≠ path) :
    ((indexer.fileCalls stored force files ++ indexer.removeCalls gone).map
      StoreCall.place).Nodup := by
  rw [List.map_append, List.nodup_append]
  refine ⟨nodup_fileCalls indexer.finishes_bare (fun _ _ => path_of_bare) once, ?_, ?_⟩
  · rw [removeCalls, List.map_map]
    exact goneOnce.map fun path other same => (Prod.mk.inj same).2
  · intro place member other otherMember same
    rcases List.mem_map.mp member with ⟨call, isCall, rfl⟩
    rcases List.mem_map.mp otherMember with ⟨removal, isRemoval, rfl⟩
    rcases brings_of_mem_fileCalls indexer.finishes_bare isCall with ⟨file, isFile, brings⟩
    rcases List.mem_map.mp isRemoval with ⟨path, isGone, rfl⟩
    rw [path_of_brings (fun _ _ => path_of_bare) brings] at same
    exact apart path isGone file isFile (Prod.mk.inj same).2

/-! ## Refusals -/

/-- An indexer whose store refuses nothing. -/
def unhindered (indexer : Indexer) : Indexer := { indexer with gate := .accepting }

/-- What is refused leaves its path as it was, and where nothing is refused that is asked for there
is what a store leaves that refuses nothing. -/
theorem entryAt?_performAll_unhindered (isApart : source.IsApart)
    (supplied : indexer.Supplies source files) (once : (files.map (·.path)).Nodup)
    (goneOnce : gone.Nodup) (apart : ∀ path ∈ gone, ∀ file ∈ files, file.path ≠ path)
    {store : Store} (sound : store.IsSound) (spares : store.Spares source) :
    let calls := indexer.fileCalls stored force files ++ indexer.removeCalls gone
    (∀ operation path, indexer.Asks stored force files gone operation path →
      (indexer.gate.refuses operation path).isSome →
      (indexer.gate.performAll store calls).entryAt? indexer.project path =
        store.entryAt? indexer.project path) ∧
    ∀ project path, (project = indexer.project → ∀ operation,
        indexer.Asks stored force files gone operation path →
        indexer.gate.refuses operation path = none) →
      (indexer.gate.performAll store calls).entryAt? project path =
        (StoreGate.accepting.performAll store calls).entryAt? project path := by
  intro calls
  have comes : ∀ call ∈ calls, call.ComesFrom source := by
    intro call member
    rcases List.mem_append.mp member with member | member
    · exact comesFrom_fileCalls supplied call member
    · exact comesFrom_removeCalls source gone call member
  have distinct : (calls.map StoreCall.place).Nodup := nodup_place_calls once goneOnce apart
  have performed := fun project path => @StoreGate.entryAt?_performAll_accepting indexer.gate store
    source isApart calls comes distinct sound spares project path
  constructor
  · intro operation path asks refused
    rcases asks.exists_call with ⟨call, member, rfl, place⟩
    exact (performed _ _).1 call member place refused
  · intro project path accepted
    apply (performed project path).2
    intro call member place
    rcases asks_of_mem_calls member with ⟨sameProject, asks⟩
    rw [place] at sameProject asks
    exact accepted sameProject call.operation asks

/-! ## Scans -/

/-- The paths that a scan is to remove. -/
def pruned (indexer : Indexer) (stored : List FileState) (files : List WalkedFile) : List String :=
  if indexer.config.scan.pruneMissing then missingFrom stored files else []

theorem scanCalls_eq (stored : List FileState) (force : Bool) (files : List WalkedFile) :
    indexer.scanCalls stored force files =
      indexer.fileCalls stored force files ++
        indexer.removeCalls (indexer.pruned stored files) := by
  unfold scanCalls pruned
  split <;> rfl

/-- What a scan asks its store for. -/
def ScanAsks (indexer : Indexer) (disk : FileTree) (mode : ScanMode) (state : IndexState) :
    StoreOperation → String → Prop :=
  let files := indexer.filesOn disk
  let stored := state.store.states indexer.project
  indexer.Asks stored (mode = .force) files (indexer.pruned stored files)

theorem nodup_pruned {store : Store} (sound : store.IsSound) :
    (indexer.pruned (store.states indexer.project) files).Nodup := by
  unfold pruned
  split
  · have once : (store.paths indexer.project).Nodup := sound.nodup_paths
    rw [Store.paths, (List.mergeSort_perm _ _).nodup_iff] at once
    unfold missingFrom
    rw [(List.mergeSort_perm _ _).nodup_iff, Store.states, List.map_map]
    exact once.filter _
  · exact .nil

theorem apart_pruned : ∀ path ∈ indexer.pruned stored files, ∀ file ∈ files, file.path ≠ path := by
  intro path member
  unfold pruned at member
  split at member
  · exact ((mem_missingFrom stored).mp member).2
  · exact absurd member List.not_mem_nil

end Indexer

/-- An indexer whose store refuses some operations at some paths. -/
def hinderedIndexer (refused : List (StoreOperation × String)) : Indexer :=
  { sampleIndexer with
    gate := ⟨fun operation path =>
      if (operation, path) ∈ refused then some (.unconfirmed path) else none⟩ }

/-- A file that can be read has to be indexed by a run that is forced. -/
theorem Indexer.isSome_candidate_forced {indexer : Indexer} {file : WalkedFile}
    (small : file.content.bytes.size ≤ indexer.config.scan.maxFileBytes)
    (reads : file.content.isReadable = true) (stored : List FileState) :
    (indexer.outcomeOf stored true file).candidate?.isSome := by
  rw [outcomeOf_forced, if_neg (Nat.not_lt.mpr small), reads, if_neg (by decide)]
  rfl

theorem Indexer.ScanAsks.persist {indexer : Indexer} {disk : FileTree} {state : IndexState}
    {file : WalkedFile} (member : file ∈ indexer.filesOn disk)
    (small : file.content.bytes.size ≤ indexer.config.scan.maxFileBytes)
    (reads : file.content.isReadable = true) :
    indexer.ScanAsks disk .force state .persist file.path :=
  Asks.persist member (isSome_candidate_forced small reads _)

/-- What is stored at the path of no file is to be removed by a scan that prunes. -/
theorem Indexer.ScanAsks.remove {indexer : Indexer}
    (prunes : indexer.config.scan.pruneMissing = true)
    {disk : FileTree} {mode : ScanMode} {state : IndexState} {path : String}
    (stored : (state.store.entryAt? indexer.project path).isSome)
    (nowhere : ∀ file ∈ indexer.filesOn disk, file.path ≠ path) :
    indexer.ScanAsks disk mode state .remove path := by
  apply Asks.remove
  rw [pruned, if_pos prunes, mem_missingFrom, Store.find?_states_entry, Option.isSome_map]
  exact ⟨stored, nowhere⟩

/-- The files of the former and of the later tree. -/
def sampleSource : FileSource :=
  sampleIndexer.sourceOf (sampleIndexer.filesOn (.ofFiles formerFiles) ++
    sampleIndexer.filesOn (.ofFiles laterFiles))

theorem isApart_sampleSource : sampleSource.IsApart :=
  Indexer.IdentifiesBy.isApart identifiersDiffer_changedTexts
    fun file member => (identifies_filesOn file member).identifiesBy

/-- An index of the former tree. -/
def formerIndex : IndexState := sampleIndexer.after {} (.scan (.ofFiles formerFiles) .force)

theorem isSound_formerIndex : formerIndex.store.IsSound :=
  Indexer.isSound_after (.scan (.ofFiles formerFiles) .force) Store.isSound_empty

theorem supplies_formerFiles :
    sampleIndexer.Supplies sampleSource (sampleIndexer.filesOn (.ofFiles formerFiles)) :=
  sampleIndexer.supplies_sourceOf fun _ member => List.mem_append_left _ member

theorem spares_formerIndex : formerIndex.store.Spares sampleSource :=
  @Indexer.spares_after sampleIndexer sampleSource isApart_sampleSource
    (.scan (.ofFiles formerFiles) .force) supplies_formerFiles {} Store.isSound_empty
    (Store.spares_empty sampleSource)

/-- Files of both trees can be stored with those of the former one, by whatever indexer takes them
for the same. -/
theorem spares_sampleFiles {indexer : Indexer} (sameProject : indexer.project = "p")
    (sameOutline : indexer.outline = sampleIndexer.outline) {files : List WalkedFile}
    (within : ∀ file ∈ files, file ∈ sampleIndexer.filesOn (.ofFiles formerFiles) ++
      sampleIndexer.filesOn (.ofFiles laterFiles)) :
    formerIndex.store.Spares (indexer.sourceOf files) := by
  apply spares_formerIndex.mono
  rintro project stored ⟨isProject, file, member, isOutline⟩
  rw [sameProject] at isProject
  rw [sameOutline] at isOutline
  exact ⟨isProject, file, within file member, isOutline⟩

/-- All of the former files are stored. -/
theorem isSome_formerIndex {file : WalkedFile}
    (member : file ∈ sampleIndexer.filesOn (.ofFiles formerFiles)) :
    (formerIndex.store.entryAt? "p" file.path).isSome := by
  have ready : sampleIndexer.IsReady sampleSource
      fun candidate finished => finished.bare = sampleIndexer.outlineOf candidate :=
    ⟨rfl, isApart_sampleSource, sampleIndexer.finishes_bare, fun _ _ isFinished => isFinished⟩
  have readable : ∀ file ∈ formerFiles,
      file.2.bytes.size ≤ sampleIndexer.config.scan.maxFileBytes ∧ file.2.isReadable = true := by
    decide
  have isReadable := readable _ (mem_of_mem_filesOn_ofFiles findsBare_formerFiles member)
  rcases @Indexer.IsReady.reflects_scan_force _ _ _ _ changedTexts identifiersDiffer_changedTexts
    ready findsBare_formerFiles.proper rfl supplies_formerFiles {} Store.isSound_empty
    (Store.spares_empty _) _ member (identifies_filesOn file (List.mem_append_left _ member))
    isReadable.1 isReadable.2 with ⟨entry, found, -⟩
  exact Option.isSome_of_eq_some found

theorem isSome_removed : (formerIndex.store.entryAt? "p" "b.rs").isSome := by
  let removed : WalkedFile := ⟨"b.rs", sampleContent "struct B;" 1⟩
  have wasThere : removed ∈ sampleIndexer.filesOn (.ofFiles formerFiles) :=
    findsBare_formerFiles.mem_filesOn.mpr ⟨["b.rs"], rfl, rfl, by decide⟩
  exact isSome_formerIndex wasThere

theorem path_ne_of_laterFiles {file : WalkedFile}
    (member : file ∈ sampleIndexer.filesOn (.ofFiles laterFiles)) : file.path ≠ "b.rs" := by
  have others : ∀ file ∈ laterFiles, file.1 ≠ "b.rs" := by decide
  exact others _ (mem_of_mem_filesOn_ofFiles findsBare_laterFiles member)

theorem mem_both_of_walk {file : WalkedFile}
    (member : file ∈ (FileTree.ofFiles laterFiles).walk sampleIndexer.options
      sampleIndexer.policy) :
    file ∈ sampleIndexer.filesOn (.ofFiles formerFiles) ++
      sampleIndexer.filesOn (.ofFiles laterFiles) := by
  rw [← Indexer.filesOn_eq findsBare_laterFiles.isThere] at member
  exact List.mem_append_right _ member

section

variable (refused : List (StoreOperation × String))

theorem findsBare_hinderedIndexer :
    (hinderedIndexer refused).FindsBare (.ofFiles laterFiles) (.ofFiles laterFiles) where
  proper := findsBare_laterFiles.proper
  isThere := by
    have sameRoot : (hinderedIndexer refused).root = sampleIndexer.root := rfl
    rw [Indexer.rootTree?, sameRoot]
    exact findsBare_laterFiles.isThere
  bare := findsBare_laterFiles.bare

theorem filesOn_hinderedIndexer (disk : FileTree) :
    (hinderedIndexer refused).filesOn disk = sampleIndexer.filesOn disk := rfl

theorem identifiesBy_hinderedIndexer {file : WalkedFile}
    (member : file ∈ sampleIndexer.filesOn (.ofFiles formerFiles) ++
      sampleIndexer.filesOn (.ofFiles laterFiles)) :
    (hinderedIndexer refused).IdentifiesBy changedTexts file :=
  let own := (identifies_filesOn file member).identifiesBy
  ⟨own.path, own.definitions, own.dependencies, own.chunks⟩

end

end SourceIndex
