import SourceIndex.Proofs.Scan.Refusals
import SourceIndex.Proofs.Scan.Steps

/-! Indexing single paths with a store that refuses some of what it is asked for. Files that cannot
be written or touched hinder no others; a file that cannot be removed ends the run. -/

namespace SourceIndex

namespace Indexer

variable {indexer : Indexer} {disk : FileTree} {paths : List String} {state : IndexState}

/-! ## Counting what is removed -/

/-- What every step leaves alone, all of them leave alone. -/
theorem foldl_leaves {α β γ : Type} (of : β → γ) {step : β → α → β}
    (leaves : ∀ state item, of (step state item) = of state) (items : List α) (state : β) :
    of (items.foldl step state) = of state := by
  induction items generalizing state with
  | nil => rfl
  | cons item items induction => rw [List.foldl_cons, induction, leaves]

theorem pruned_takeRead (stored : List FileState) (reads : Reads) (place : Nat) (path : String)
    (outcome : ReadOutcome) : (indexer.takeRead stored reads place path outcome).run.stats.pruned =
      reads.run.stats.pruned := by
  have taken := indexer.result_takeRead stored reads place path outcome
  refine (congrArg (·.stats.pruned) taken).trans ?_
  cases outcome <;> rfl

theorem pruned_touch (stored : List FileState) (run : Run) (path : String) (time : FileTime) :
    (indexer.touch stored run path time).stats.pruned = run.stats.pruned :=
  congrArg (·.stats.pruned) (indexer.result_touch stored run path time)

theorem pruned_readBatch (stored : List FileState) (force : Bool) (batch : List WalkedFile)
    (run : Run) :
    (indexer.readBatch stored force batch run).2.stats.pruned = run.stats.pruned := by
  unfold readBatch collectReads
  simp only
  have touched := foldl_leaves (fun run : Run => run.stats.pruned)
    fun run (touched : String × FileTime) => indexer.pruned_touch stored run touched.1 touched.2
  have taken := foldl_leaves (fun reads : Reads => reads.run.stats.pruned)
    fun reads (outcome : Nat × String × ReadOutcome) =>
      indexer.pruned_takeRead stored reads outcome.1 outcome.2.1 outcome.2.2
  exact (touched _ _).trans (taken _ _)

theorem pruned_persist (run : Run) (file : IndexedFile) :
    (indexer.persist run file).stats.pruned = run.stats.pruned := by
  refine (congrArg (·.stats.pruned) (indexer.result_persist run file)).trans ?_
  unfold RunResult.persist
  split <;> rfl

theorem pruned_embedFiles (candidates : List Candidate) (run : Run) :
    (indexer.embedFiles candidates run).2.2.stats.pruned = run.stats.pruned := by
  unfold embedFiles
  simp only
  split
  · rfl
  · split <;> rfl

theorem pruned_embedChunks (files : List IndexedFile) (run : Run) :
    (indexer.embedChunks files run).2.stats.pruned = run.stats.pruned := by
  unfold embedChunks
  simp only
  split
  · rfl
  · split <;> rfl

theorem pruned_processBatch (stored : List FileState) (force : Bool) (position : ScanPosition)
    (batch : List WalkedFile) (run : Run) :
    (indexer.processBatch stored force position batch run).stats.pruned = run.stats.pruned := by
  have checked : ∀ run, (indexer.checkMemory run).stats.pruned = run.stats.pruned := by
    intro run
    unfold checkMemory
    simp only
    split
    · rfl
    · split <;> rfl
  have read := indexer.pruned_readBatch stored force batch (run.enter .readingAndFiltering position)
  unfold processBatch
  simp only
  rw [checked]
  split
  · exact read
  · unfold indexCandidates
    simp only
    refine (foldl_leaves (fun run : Run => run.stats.pruned) indexer.pruned_persist _ _).trans ?_
    split
    · exact (indexer.pruned_embedChunks _ _).trans ((indexer.pruned_embedFiles _ _).trans read)
    · exact (indexer.pruned_embedFiles _ _).trans read

/-- Working off files removes none. -/
theorem pruned_processFiles (stored : List FileState) (force : Bool) (files : List WalkedFile)
    (run : Run) :
    (indexer.processFiles stored force files run).stats.pruned = run.stats.pruned :=
  foldl_leaves (fun reached : Run × ScanPosition => reached.1.stats.pruned) (fun reached batch =>
    indexer.pruned_processBatch stored force _ batch reached.1) _ _

/-- Of different paths those are counted that are stored. -/
theorem countStored_eq {project : String} {paths : List String} (once : paths.Nodup)
    (store : Store) : countStored project paths store =
      (paths.filter fun path => (store.entryAt? project path).isSome).length := by
  induction paths generalizing store with
  | nil => rfl
  | cons first paths induction =>
      rw [List.nodup_cons] at once
      have wasThere : (store.entryAt? project first).isSome = (store.row? project first).isSome :=
        Option.isSome_map
      have kept : ∀ path ∈ paths,
          ((store.remove project first).2.entryAt? project path).isSome =
            (store.entryAt? project path).isSome := by
        intro path member
        have apart : (StoreCall.remove project first).place ≠ (project, path) := by
          intro same
          exact once.1 ((Prod.mk.inj same).2 ▸ member)
        have removed : (store.remove project first).2.row? project path =
            store.row? project path :=
          StoreGate.accepting.row?_perform_elsewhere store apart
        rw [Store.entryAt?, Store.entryAt?, Option.isSome_map, Option.isSome_map, removed]
      rw [countStored, induction once.2, List.filter_congr kept, List.filter_cons, wasThere]
      split
      · rw [List.length_cons, Nat.add_comm]
      · exact Nat.zero_add _

/-! ## Single paths -/

/-- The paths at which files are removed when some paths are indexed. -/
def goneAt (indexer : Indexer) (disk : FileTree) (paths : List String) : List String :=
  gonePaths (paths.map (indexer.standing disk))

/-- What is left when these files have been removed. -/
def leftAt (indexer : Indexer) (disk : FileTree) (paths : List String) (store : Store) : Store :=
  indexer.gate.performAll store (indexer.removeCalls (indexer.goneAt disk paths))

/-- What indexing some paths asks the store for. -/
def PathAsks (indexer : Indexer) (disk : FileTree) (paths : List String) (state : IndexState) :
    StoreOperation → String → Prop :=
  let left := indexer.unhindered.leftAt disk paths state.store
  indexer.Asks (left.states indexer.project) false (indexer.filesAt disk paths)
    (indexer.goneAt disk paths)

/-- A removal that is refused ends the run; those before it have been done. -/
theorem indexPaths_of_refused (isThere : (indexer.rootTree? disk).isSome) {front rest : List String}
    {first : String} {error : StoreError}
    (isGone : indexer.goneAt disk paths = front ++ first :: rest)
    (accepts : ∀ path ∈ front, indexer.gate.refuses .remove path = none)
    (refused : indexer.gate.refuses .remove first = some error) (state : IndexState) :
    let run := indexer.begun .incremental (indexer.filesAt disk paths) state
    indexer.indexPaths disk paths state =
      indexer.finish { run with toIndexState := indexer.without front run.toIndexState }
        (some (.store error)) := by
  rcases Option.isSome_iff_exists.mp isThere with ⟨tree, found⟩
  intro run
  have removal := removePaths_append accepts (first :: rest) 0 run.toIndexState
  have asked : ∀ store, indexer.gate.remove store indexer.project first = .error error := by
    intro store
    unfold StoreGate.remove StoreGate.attempt
    rw [refused]
  rw [← isGone, removePaths, asked] at removal
  unfold run begun filesAt goneAt at removal
  unfold indexPaths
  simp only [found, removal]
  rfl

/-- The calls that working off the files consists of that are there. -/
def callsAt (indexer : Indexer) (disk : FileTree) (paths : List String) (left : Store) :
    List StoreCall :=
  indexer.fileCalls (left.states indexer.project) false (indexer.filesAt disk paths)

section

variable (isThere : (indexer.rootTree? disk).isSome)
  (loads : indexer.gate.refuses .load "" = none)
  (accepts : ∀ path ∈ indexer.goneAt disk paths, indexer.gate.refuses .remove path = none)

include isThere loads accepts

/-- Those are counted that have been stored. -/
theorem pruned_indexPaths (state : IndexState) :
    (indexer.indexPaths disk paths state).1.stats.pruned = ((indexer.goneAt disk paths).filter
      fun path => (state.store.entryAt? indexer.project path).isSome).length := by
  rw [indexPaths_eq isThere loads accepts state]
  refine (indexer.pruned_processFiles _ _ _ _).trans ?_
  exact (Nat.zero_add _).trans (countStored_eq (nodup_gonePaths _) state.store)

/-- Where a file has been removed there is nothing, unless one is there. -/
theorem entryAt?_indexPaths_of_gone (sound : state.store.IsSound) {path : String}
    (isGone : path ∈ indexer.goneAt disk paths)
    (nowhere : ∀ file ∈ indexer.filesAt disk paths, file.path ≠ path) :
    (indexer.indexPaths disk paths state).2.store.entryAt? indexer.project path = none := by
  let left := indexer.leftAt disk paths state.store
  have stored : (indexer.indexPaths disk paths state).2.store =
      indexer.gate.performAll left (indexer.callsAt disk paths left) :=
    indexer.store_indexPaths_of_accepted isThere loads accepts state
  have elsewhere : ∀ call ∈ indexer.callsAt disk paths left,
      call.place ≠ (indexer.project, path) := by
    intro call member place
    rcases brings_of_mem_fileCalls indexer.finishes_bare member with ⟨file, isFile, brings⟩
    rw [path_of_brings (fun _ _ => path_of_bare) brings] at place
    exact nowhere file isFile (Prod.mk.inj place).2
  have nothing : left.entryAt? indexer.project path = _ :=
    entryAt?_removeCalls accepts sound indexer.project path
  rw [if_pos ⟨rfl, isGone⟩, Store.entryAt?, Option.map_eq_none_iff] at nothing
  rw [stored, Store.entryAt?, indexer.gate.row?_performAll_elsewhere _ elsewhere, nothing]
  rfl

theorem entryAt?_indexPaths_unhindered {source : FileSource} (isApart : source.IsApart)
    (supplied : indexer.Supplies source (indexer.filesAt disk paths)) (sound : state.store.IsSound)
    (spares : state.store.Spares source) {project path : String}
    (accepted : project = indexer.project → ∀ operation,
      indexer.PathAsks disk paths state operation path →
      indexer.gate.refuses operation path = none) :
    (indexer.indexPaths disk paths state).2.store.entryAt? project path =
      (indexer.unhindered.indexPaths disk paths state).2.store.entryAt? project path := by
  let left := indexer.unhindered.leftAt disk paths state.store
  have removed : indexer.leftAt disk paths state.store = left := by
    apply StoreGate.performAll_eq_accepting
    intro call member
    rcases List.mem_map.mp member with ⟨path, isGone, rfl⟩
    exact accepts path isGone
  have stored : (indexer.indexPaths disk paths state).2.store = _ :=
    indexer.store_indexPaths_of_accepted isThere loads accepts state
  have hindered : (indexer.indexPaths disk paths state).2.store =
      indexer.gate.performAll left (indexer.callsAt disk paths left) := by
    rw [stored, ← removed]
    rfl
  have unhindered : (indexer.unhindered.indexPaths disk paths state).2.store =
      StoreGate.accepting.performAll left (indexer.callsAt disk paths left) :=
    indexer.unhindered.store_indexPaths_of_accepted isThere rfl (fun _ _ => rfl) state
  have leftSound : left.IsSound := StoreGate.accepting.isSound_performAll sound _
  have leftSpares : left.Spares source :=
    StoreGate.spares_performAll isApart (comesFrom_removeCalls _ _) sound spares
  have performed := (@entryAt?_performAll_unhindered indexer _ (left.states indexer.project)
    false _ [] isApart supplied (nodup_presentFiles _) .nil (List.forall_mem_nil _) left leftSound
    leftSpares).2 project path
  rw [removeCalls, List.map_nil, List.append_nil] at performed
  rw [hindered, unhindered]
  apply performed
  intro sameProject operation asks
  apply accepted sameProject operation
  cases asks with
  | touch member touched => exact .touch member touched
  | persist member isReady => exact .persist member isReady
  | remove member => exact absurd member List.not_mem_nil

end

end Indexer

open Indexer in
/-- As long as no removal is refused, indexing single paths succeeds, counts the files that it
removes, and leaves every path at which nothing is refused as with a store that refuses nothing. The
first removal that is refused ends the run with its error: the removals before it have been done,
but are not counted, and nothing else has changed. -/
theorem indexPaths_isolates_refusals {indexer : Indexer}
    (loads : indexer.gate.refuses .load "" = none) {disk : FileTree}
    (isThere : (indexer.rootTree? disk).isSome) {texts : List (List String)}
    (differ : IdentifiersDiffer texts) {paths : List String}
    (identifies : ∀ file ∈ indexer.filesAt disk paths, indexer.IdentifiesBy texts file)
    {state : IndexState} (sound : state.store.IsSound)
    (spares : state.store.Spares (indexer.sourceOf (indexer.filesAt disk paths))) :
    let gone := indexer.goneAt disk paths
    let hindered := indexer.indexPaths disk paths state
    let unhindered := indexer.unhindered.indexPaths disk paths state
    ((∀ path ∈ gone, indexer.gate.refuses .remove path = none) →
      hindered.1.success = true ∧
      hindered.1.stats.pruned =
        (gone.filter fun path => (state.store.entryAt? indexer.project path).isSome).length ∧
      (∀ path ∈ gone, (∀ file ∈ indexer.filesAt disk paths, file.path ≠ path) →
        hindered.2.store.entryAt? indexer.project path = none) ∧
      ∀ project path, (project = indexer.project → ∀ operation,
          indexer.PathAsks disk paths state operation path →
          indexer.gate.refuses operation path = none) →
        hindered.2.store.entryAt? project path = unhindered.2.store.entryAt? project path) ∧
    ∀ front first rest error, gone = front ++ first :: rest →
      (∀ path ∈ front, indexer.gate.refuses .remove path = none) →
      indexer.gate.refuses .remove first = some error →
      hindered.1.error = some (.store error) ∧ hindered.1.stats.pruned = 0 ∧
      ∀ project path, hindered.2.store.entryAt? project path =
        if project = indexer.project ∧ path ∈ front then none
        else state.store.entryAt? project path := by
  intro gone hindered unhindered
  constructor
  · intro accepts
    have isApart := IdentifiesBy.isApart differ identifies
    have supplied : indexer.Supplies (indexer.sourceOf (indexer.filesAt disk paths))
        (indexer.filesAt disk paths) := indexer.supplies_sourceOf fun _ member => member
    have worked : hindered = _ := indexPaths_eq isThere loads accepts state
    refine ⟨?_, pruned_indexPaths isThere loads accepts state, ?_, ?_⟩
    · rw [worked]
      rfl
    · exact fun path isGone nowhere =>
        entryAt?_indexPaths_of_gone isThere loads accepts sound isGone nowhere
    · exact fun project path accepted =>
        entryAt?_indexPaths_unhindered isThere loads accepts isApart supplied sound spares accepted
  · intro front first rest error isGone accepts refused
    have ended : hindered = _ := indexPaths_of_refused isThere isGone accepts refused state
    rw [ended]
    refine ⟨rfl, rfl, fun project path => ?_⟩
    exact entryAt?_removeCalls accepts sound project path

/-! ## A file that is gone, one that has changed and one that is new -/

theorem goneAt_laterFiles :
    sampleIndexer.goneAt (.ofFiles laterFiles) ["a.rs", "/b.rs", "c.rs"] = ["b.rs"] := by
  have standings : ["a.rs", "/b.rs", "c.rs"].map (sampleIndexer.standing (.ofFiles laterFiles)) =
      [.present ⟨"a.rs", sampleContent "struct X;" 2⟩, .gone "b.rs",
        .present ⟨"c.rs", sampleContent "struct C;" 2⟩] := rfl
  rw [Indexer.goneAt, standings]
  exact congrArg (Indexer.dropRepeats id) (List.mergeSort_singleton "b.rs")

theorem mem_filesOn_of_filesAt {file : WalkedFile}
    (member : file ∈ sampleIndexer.filesAt (.ofFiles laterFiles) ["a.rs", "/b.rs", "c.rs"]) :
    file ∈ sampleIndexer.filesOn (.ofFiles laterFiles) := by
  rcases (Indexer.mem_filesAt isRootedAt_sampleIndexer findsBare_laterFiles.isThere
    isChangedAt_changedPlaces).mp member with ⟨names, -, found⟩
  exact findsBare_laterFiles.mem_filesOn.mpr ⟨names, found⟩

theorem standing_hinderedIndexer (refused : List (StoreOperation × String)) (disk : FileTree) :
    (hinderedIndexer refused).standing disk = sampleIndexer.standing disk := rfl

/-- If one file cannot be written, another one is still removed and counted, and the new one is
stored. If one cannot be removed, the new one is not even looked at. -/
theorem indexPaths_hinderedIndexer :
    let paths := ["a.rs", "/b.rs", "c.rs"]
    let unwritten := hinderedIndexer [(.persist, "a.rs")]
    let written := unwritten.indexPaths (.ofFiles laterFiles) paths formerIndex
    let unhindered := unwritten.unhindered.indexPaths (.ofFiles laterFiles) paths formerIndex
    let unremoved := hinderedIndexer [(.remove, "b.rs")]
    let ended := unremoved.indexPaths (.ofFiles laterFiles) paths formerIndex
    (written.1.success = true ∧ written.1.stats.pruned = 1 ∧
      written.2.store.entryAt? "p" "b.rs" = none ∧
      written.2.store.entryAt? "p" "c.rs" = unhindered.2.store.entryAt? "p" "c.rs") ∧
    ended.1.error = some (.store (.unconfirmed "b.rs")) ∧ ended.1.stats.pruned = 0 ∧
      ended.2.store.entryAt? "p" "c.rs" = formerIndex.store.entryAt? "p" "c.rs" := by
  intro paths unwritten written unhindered unremoved ended
  have gone : ∀ refused,
      (hinderedIndexer refused).goneAt (.ofFiles laterFiles) paths = ["b.rs"] := by
    intro refused
    rw [← goneAt_laterFiles, Indexer.goneAt, standing_hinderedIndexer]
    rfl
  have found : ∀ refused, ∀ file ∈ (hinderedIndexer refused).filesAt (.ofFiles laterFiles) paths,
      file ∈ sampleIndexer.filesOn (.ofFiles laterFiles) := by
    intro refused file member
    rw [Indexer.filesAt, standing_hinderedIndexer] at member
    exact mem_filesOn_of_filesAt member
  have isolates := fun refused loads =>
    @indexPaths_isolates_refusals (hinderedIndexer refused) loads (.ofFiles laterFiles)
      (Option.isSome_of_eq_some (findsBare_hinderedIndexer refused).isThere) changedTexts
      identifiersDiffer_changedTexts paths
      (fun file member => identifiesBy_hinderedIndexer refused
        (List.mem_append_right _ (found refused file member)))
      formerIndex isSound_formerIndex (spares_sampleFiles rfl rfl
        fun file member => List.mem_append_right _ (found refused file member))
  constructor
  · rcases (isolates [(.persist, "a.rs")] rfl).1 (fun _ _ => rfl) with
      ⟨succeeds, pruned, removed, same⟩
    rw [gone] at pruned removed
    refine ⟨succeeds, ?_, removed "b.rs" List.mem_cons_self ?_, same "p" "c.rs" ?_⟩
    · refine pruned.trans (congrArg List.length (List.filter_eq_self.mpr ?_))
      rw [List.forall_mem_singleton]
      exact isSome_removed
    · exact fun file member => path_ne_of_laterFiles (found _ file member)
    · intro _ operation _
      cases operation with
      | load | persist | touch | remove => rfl
  · rcases (isolates [(.remove, "b.rs")] rfl).2 [] "b.rs" [] _ (gone _) (List.forall_mem_nil _)
      rfl with ⟨error, pruned, unchanged⟩
    refine ⟨error, pruned, (unchanged "p" "c.rs").trans ?_⟩
    exact if_neg fun both => absurd both.2 List.not_mem_nil

end SourceIndex
