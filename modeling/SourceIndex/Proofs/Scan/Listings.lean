import SourceIndex.Proofs.Scan.Batching
import SourceIndex.Proofs.Scan.Removals
import Mathlib.Data.List.Sort

/-! Indexing single paths comes to the same however they are listed: in whatever order, with whatever
repetitions, and whether each of them starts at the root or at the top of the disk. -/

namespace SourceIndex

namespace Indexer

variable {indexer : Indexer} {disk tree : FileTree} {root : List String} {paths others : List String}

/-! ## Lists of the same paths -/

/-- A path as it is from the top of the disk. -/
def absolutely (indexer : Indexer) (path : String) : List Char :=
  absolutePath indexer.root.toList path.toList

/-- Whether two lists contain the same paths from the top of the disk. -/
def ListsSame (indexer : Indexer) (paths others : List String) : Prop :=
  ∀ absolute, absolute ∈ paths.map indexer.absolutely ↔ absolute ∈ others.map indexer.absolutely

/-- Paths that spell certain places below the root lead there from the top of the disk. -/
theorem map_absolutely_of_spells (rooted : indexer.IsRootedAt root) {places : List (List String)}
    (plain : ∀ names ∈ places, names ≠ [] ∧ ∀ name ∈ names, FileTree.IsPlain name)
    (spelled : List.Forall₂ (Spells root) places paths) :
    paths.map indexer.absolutely = places.map fun names => FileTree.spelling (root ++ names) := by
  induction spelled with
  | nil => rfl
  | cons first _ induction =>
      rw [List.forall_mem_cons] at plain
      rw [List.map_cons, List.map_cons, induction plain.2]
      exact congrArg (· :: _) (absolutePath_eq rooted plain.1.2 plain.1.1 first)

/-- Lists that spell the same places, however each place is spelled, contain the same paths. -/
theorem listsSame_of_spells (rooted : indexer.IsRootedAt root)
    {places otherPlaces : List (List String)}
    (plain : ∀ names ∈ places, names ≠ [] ∧ ∀ name ∈ names, FileTree.IsPlain name)
    (same : ∀ names, names ∈ places ↔ names ∈ otherPlaces)
    (spelled : List.Forall₂ (Spells root) places paths)
    (spelledOther : List.Forall₂ (Spells root) otherPlaces others) :
    indexer.ListsSame paths others := by
  intro absolute
  rw [map_absolutely_of_spells rooted plain spelled,
    map_absolutely_of_spells rooted (fun names member => plain names ((same names).mpr member))
      spelledOther]
  simp only [List.mem_map, same]

/-! ## What the paths stand for -/

/-- What a path stands for depends only on where it leads from the top of the disk. -/
theorem ListsSame.mem_standings (same : indexer.ListsSame paths others) (disk : FileTree)
    (standing : PathStanding) : standing ∈ paths.map (indexer.standing disk) ↔
      standing ∈ others.map (indexer.standing disk) := by
  have sameStanding : ∀ path other, indexer.absolutely path = indexer.absolutely other →
      indexer.standing disk path = indexer.standing disk other := by
    intro path other sameAbsolute
    unfold absolutely at sameAbsolute
    unfold Indexer.standing
    rw [sameAbsolute]
  have within : ∀ {paths others : List String},
      (∀ absolute ∈ paths.map indexer.absolutely, absolute ∈ others.map indexer.absolutely) →
      standing ∈ paths.map (indexer.standing disk) →
        standing ∈ others.map (indexer.standing disk) := by
    intro paths others contained member
    rcases List.mem_map.mp member with ⟨path, isPath, rfl⟩
    rcases List.mem_map.mp (contained _ (List.mem_map_of_mem isPath)) with
      ⟨other, isOther, sameAbsolute⟩
    rw [← sameStanding other path sameAbsolute]
    exact List.mem_map_of_mem isOther
  exact ⟨within fun absolute => (same absolute).mp, within fun absolute => (same absolute).mpr⟩

/-- Two paths that stand for files with the same path below the root stand for the same file. -/
theorem eq_of_standing_eq_present (rooted : indexer.IsRootedAt root) (proper : disk.IsProper)
    (isThere : indexer.rootTree? disk = some tree) {path other : String} {file otherFile : WalkedFile}
    (present : indexer.standing disk path = .present file)
    (otherPresent : indexer.standing disk other = .present otherFile)
    (samePath : file.path = otherFile.path) : file = otherFile := by
  rcases of_standing_eq_present rooted isThere present with ⟨-, names, found, spelled⟩
  rcases of_standing_eq_present rooted isThere otherPresent with
    ⟨-, otherNames, otherFound, otherSpelled⟩
  have treeProper := isProper_rootTree proper isThere
  have sameNames : names = otherNames :=
    joinSegments_injective (treeProper.isName_of_file? (Option.isSome_of_eq_some found))
      (treeProper.isName_of_file? (Option.isSome_of_eq_some otherFound))
      (spelled.symm.trans (samePath.trans otherSpelled))
  rw [sameNames, otherFound] at found
  cases file
  cases otherFile
  cases samePath
  cases found
  rfl

/-! ## Lists in order -/

/-- Lists of which each is in strictly increasing order and that have the same members are equal. -/
theorem eq_of_pairwise_lt {α : Type} {key : α → String} {items later : List α}
    (sorted : items.Pairwise fun item next => key item < key next)
    (sortedLater : later.Pairwise fun item next => key item < key next)
    (same : ∀ item, item ∈ items ↔ item ∈ later) : items = later := by
  have irreflexive : Std.Irrefl fun item next : α => key item < key next :=
    ⟨fun item => String.lt_irrefl (key item)⟩
  have antisymmetric : Std.Antisymm fun item next : α => key item < key next :=
    ⟨fun _ _ before after => absurd (String.lt_trans before after) (String.lt_irrefl _)⟩
  exact sorted.eq_of_mem_iff sortedLater same

theorem goneAt_eq (same : indexer.ListsSame paths others) (disk : FileTree) :
    indexer.goneAt disk paths = indexer.goneAt disk others := by
  have sorted : ∀ paths : List String,
      (indexer.goneAt disk paths).Pairwise fun path next => id path < id next :=
    fun _ => pairwise_dropRepeats (pairwise_mergeSort_key id _)
  apply eq_of_pairwise_lt (sorted paths) (sorted others)
  intro path
  rw [goneAt, goneAt, mem_gonePaths, mem_gonePaths]
  exact same.mem_standings disk _

/-- The files that are indexed are those that one of the paths stands for. -/
theorem mem_filesAt_iff (rooted : indexer.IsRootedAt root) (proper : disk.IsProper)
    (isThere : indexer.rootTree? disk = some tree) {file : WalkedFile} :
    file ∈ indexer.filesAt disk paths ↔ .present file ∈ paths.map (indexer.standing disk) := by
  constructor
  · exact present_of_mem_presentFiles
  · intro present
    rcases exists_mem_presentFiles present with ⟨kept, member, samePath⟩
    rcases List.mem_map.mp (present_of_mem_presentFiles member) with ⟨path, -, isKept⟩
    rcases List.mem_map.mp present with ⟨other, -, isFile⟩
    rwa [← eq_of_standing_eq_present rooted proper isThere isKept isFile samePath]

theorem filesAt_eq (same : indexer.ListsSame paths others) (rooted : indexer.IsRootedAt root)
    (proper : disk.IsProper) (isThere : indexer.rootTree? disk = some tree) :
    indexer.filesAt disk paths = indexer.filesAt disk others := by
  have sorted : ∀ paths : List String,
      (indexer.filesAt disk paths).Pairwise fun file next => file.path < next.path :=
    fun _ => pairwise_dropRepeats (pairwise_mergeSort_key WalkedFile.path _)
  apply eq_of_pairwise_lt (sorted paths) (sorted others)
  intro file
  rw [mem_filesAt_iff rooted proper isThere, mem_filesAt_iff rooted proper isThere]
  exact same.mem_standings disk _

/-! ## Reads that come in in some order -/

/-- Indexing single paths with the reads coming in in a certain order. -/
def indexPathsArriving (indexer : Indexer) (arrival : Arrival) (disk : FileTree)
    (paths : List String) (state : IndexState) : ScanReport × Run :=
  let run := (Run.ofState state).enter .scanning {}
  match indexer.rootTree? disk with
  | none => indexer.finish run (some (.invalidRoot indexer.root))
  | some _ =>
    let files := indexer.filesAt disk paths
    let run := run.count fun stats => { stats with totalFiles := files.length }
    let run := run.emit (.started indexer.project indexer.root .incremental files.length)
    let (removal, state) := indexer.removePaths (indexer.goneAt disk paths) 0 run.toIndexState
    let run := { run with toIndexState := state }
    match removal with
    | .error error => indexer.finish run (some (.store error))
    | .ok removed =>
      let run := run.count fun stats => { stats with pruned := stats.pruned + removed }
      if files.isEmpty then indexer.finish run none
      else
        match indexer.gate.states run.store indexer.project with
        | .error error => indexer.finish run (some (.store error))
        | .ok stored =>
          indexer.finish (indexer.processFilesArriving arrival stored false files run) none

theorem indexPathsArriving_inOrder : indexer.indexPathsArriving .inOrder = indexer.indexPaths := rfl

/-- Lists of the same paths are worked off in the same way. -/
theorem indexPathsArriving_congr (same : indexer.ListsSame paths others)
    (rooted : indexer.IsRootedAt root) (proper : disk.IsProper) (arrival : Arrival)
    (state : IndexState) : indexer.indexPathsArriving arrival disk paths state =
      indexer.indexPathsArriving arrival disk others state := by
  unfold indexPathsArriving
  cases isThere : indexer.rootTree? disk with
  | none => rfl
  | some tree => simp only [goneAt_eq same disk, filesAt_eq same rooted proper isThere]

/-- The order in which reads come in makes no difference to what indexing single paths comes to. -/
theorem indexPathsArriving_result {vectorOf : String → Embedding}
    (gives : indexer.embedder.Gives vectorOf) (roomy : indexer.HasRoom) (arrival later : Arrival)
    (disk : FileTree) (paths : List String) (state : IndexState) :
    let listed := indexer.indexPathsArriving arrival disk paths state
    let otherwise := indexer.indexPathsArriving later disk paths state
    listed.1 = otherwise.1 ∧ listed.2.result = otherwise.2.result := by
  have once : ((indexer.filesAt disk paths).map (·.path)).Nodup := nodup_presentFiles _
  have finished : ∀ run other : Run, run.result = other.result →
      (indexer.finish run none).1 = (indexer.finish other none).1 ∧
        (indexer.finish run none).2.result = (indexer.finish other none).2.result := by
    intro run other sameResult
    have sameStats : run.stats = other.stats := congrArg RunResult.stats sameResult
    rw [result_finish, result_finish]
    refine ⟨?_, sameResult⟩
    unfold finish Run.finish
    rw [sameStats]
  unfold indexPathsArriving
  simp only
  split
  · exact ⟨rfl, rfl⟩
  · split
    · exact ⟨rfl, rfl⟩
    · split
      · exact ⟨rfl, rfl⟩
      · split
        · exact ⟨rfl, rfl⟩
        · apply finished
          rw [result_processFiles gives roomy arrival once, result_processFiles gives roomy later once]

end Indexer

open Indexer in
/-- Indexing the same paths comes to the same report and the same run, in whatever order they are
listed, however often each of them is, and whether it starts at the root or at the top of the disk.
If all texts can be embedded and there is room in memory, the order in which the files are read does
not matter either: the reports are the same, and so are what is stored, what is kept in memory of
each file, what is counted and what is told of the files indexed. -/
theorem indexPaths_ignores_listing {indexer : Indexer} {root : List String}
    (rooted : indexer.IsRootedAt root) {disk : FileTree} (proper : disk.IsProper)
    {paths others : List String} (same : indexer.ListsSame paths others) (state : IndexState) :
    indexer.indexPaths disk paths state = indexer.indexPaths disk others state ∧
      ∀ vectorOf : String → Embedding, indexer.embedder.IsUniform →
        (∀ text, indexer.embedder.embed text = .ok (vectorOf text)) → indexer.HasRoom →
        ∀ arrival later : Arrival,
          let listed := indexer.indexPathsArriving arrival disk paths state
          let otherwise := indexer.indexPathsArriving later disk others state
          listed.1 = otherwise.1 ∧ listed.2.result = otherwise.2.result := by
  constructor
  · rw [← indexPathsArriving_inOrder]
    exact indexPathsArriving_congr same rooted proper .inOrder state
  · intro vectorOf uniform embeds roomy arrival later
    have gives : indexer.embedder.Gives vectorOf :=
      fun _ => uniform.embedAll_eq fun text _ => embeds text
    rw [← indexPathsArriving_congr same rooted proper later state]
    exact indexPathsArriving_result gives roomy arrival later disk paths state

/-! ## Three paths -/

/-- An indexer whose root is not the top of the disk. -/
def innerIndexer : Indexer := { sampleIndexer with root := "/w" }

theorem isRootedAt_innerIndexer : innerIndexer.IsRootedAt ["w"] where
  plain := List.forall_mem_singleton.mpr ⟨⟨by decide, by decide⟩, by decide, by decide⟩
  spelled := by decide

def innerDisk : FileTree := .directory [("w", .ofFiles laterFiles)]

theorem isProper_innerDisk : innerDisk.IsProper := by
  apply FileTree.IsProper.directory
  · exact List.forall_mem_singleton.mpr ⟨by decide, by decide⟩
  · exact List.nodup_singleton _
  · exact List.forall_mem_singleton.mpr findsBare_laterFiles.proper

theorem listsSame_innerPaths : innerIndexer.ListsSame ["a.rs", "/w/b.rs", "c.rs"]
    ["/w/c.rs", "b.rs", "/w/a.rs", "c.rs"] := by
  let places := [["c.rs"], ["b.rs"], ["a.rs"], ["c.rs"]]
  have spelled : List.Forall₂ (Indexer.Spells ["w"]) changedPlaces ["a.rs", "/w/b.rs", "c.rs"] :=
    .cons (.inl rfl) (.cons (.inr rfl) (.cons (.inl rfl) .nil))
  have spelledOther : List.Forall₂ (Indexer.Spells ["w"]) places
      ["/w/c.rs", "b.rs", "/w/a.rs", "c.rs"] :=
    .cons (.inr rfl) (.cons (.inl rfl) (.cons (.inr rfl) (.cons (.inl rfl) .nil)))
  have below : ∀ names ∈ changedPlaces, names ≠ [] := by decide
  refine Indexer.listsSame_of_spells isRootedAt_innerIndexer ?_ ?_ spelled spelledOther
  · exact fun names member => ⟨below names member, isChangedAt_changedPlaces.plain names member⟩
  · have within : changedPlaces ⊆ places ∧ places ⊆ changedPlaces := by decide
    exact fun names => ⟨fun member => within.1 member, fun member => within.2 member⟩

/-- Two files and one that is gone come to the same the other way round, with one of them listed
twice and each spelled in the other way. -/
theorem indexPaths_innerDisk :
    let listed := innerIndexer.indexPathsArriving .inOrder innerDisk ["a.rs", "/w/b.rs", "c.rs"]
      formerIndex
    let otherwise := innerIndexer.indexPathsArriving .reversed innerDisk
      ["/w/c.rs", "b.rs", "/w/a.rs", "c.rs"] formerIndex
    listed.1 = otherwise.1 ∧ listed.2.result = otherwise.2.result :=
  (indexPaths_ignores_listing isRootedAt_innerIndexer isProper_innerDisk listsSame_innerPaths
    formerIndex).2 _ (Embedder.isUniform_digesting 4) (fun _ => rfl) nofun .inOrder .reversed

end SourceIndex
