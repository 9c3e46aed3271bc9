import SourceIndex.Proofs.Scan.Following
import SourceIndex.Proofs.Scan.Reflection

/-! A scan that is forced brings a store to what the tree alone tells, whatever has been stored of
the project before. -/

namespace SourceIndex

/-! ## The paths of a project -/

namespace Store

variable {store : Store} {project path : String}

theorem mem_paths_iff : path ∈ store.paths project ↔ (store.entryAt? project path).isSome := by
  rw [paths, List.mem_mergeSort, rowsOf, List.mem_map, entryAt?, Option.isSome_map, row?,
    List.find?_isSome]
  constructor
  · rintro ⟨row, member, rfl⟩
    rcases List.mem_filter.mp member with ⟨isRow, sameProject⟩
    exact ⟨row, isRow, (row.isAt_iff _ _).mpr ⟨eq_of_beq sameProject, rfl⟩⟩
  · rintro ⟨row, isRow, atPlace⟩
    rcases (row.isAt_iff _ _).mp atPlace with ⟨sameProject, samePath⟩
    exact ⟨row, List.mem_filter.mpr ⟨isRow, beq_iff_eq.mpr sameProject⟩, samePath⟩

theorem IsSound.nodup_paths (sound : store.IsSound) : (store.paths project).Nodup := by
  rw [paths, (List.mergeSort_perm _ _).nodup_iff, rowsOf]
  apply List.Nodup.map_on
  · intro row member other otherMember samePath
    rw [List.mem_filter, beq_iff_eq] at member otherMember
    apply List.inj_on_of_nodup_map sound.places member.1 otherMember.1
    rw [FileRow.place, FileRow.place, member.2, otherMember.2, samePath]
  · exact (List.Nodup.of_map _ sound.places).filter _

/-- The paths of a project are told in order by where something is stored. -/
theorem IsSound.paths_eq (sound : store.IsSound) {known : List String}
    (sorted : known.Pairwise (· < ·))
    (stored : ∀ path, (store.entryAt? project path).isSome ↔ path ∈ known) :
    store.paths project = known := by
  have same : (store.paths project).Perm known := by
    apply (List.perm_ext_iff_of_nodup sound.nodup_paths (sorted.imp String.ne_of_lt)).mpr
    intro path
    rw [mem_paths_iff, stored]
  have inOrder : (store.paths project).Pairwise (· ≤ ·) :=
    @pairwise_mergeSort_key String id _
  exact same.eq_of_pairwise (fun _ _ _ _ => String.le_antisymm) inOrder
    (sorted.imp Std.le_of_lt)

end Store

namespace Indexer

variable {indexer : Indexer} {source : FileSource} {finishes : Candidate → IndexedFile → Prop}
  {disk tree : FileTree}

/-! ## One file -/

/-- A scan that is forced writes every file that can be read. -/
theorem IsReady.reflects_scan_force {texts : List (List String)} (differ : IdentifiersDiffer texts)
    (ready : indexer.IsReady source finishes) (proper : disk.IsProper)
    (isThere : (indexer.rootTree? disk).isSome)
    (supplied : indexer.Supplies source (indexer.filesOn disk)) {state : IndexState}
    (sound : state.store.IsSound) (spares : state.store.Spares source) {file : WalkedFile}
    (member : file ∈ indexer.filesOn disk) (identifies : indexer.Identifies texts file)
    (small : file.content.bytes.size ≤ indexer.config.scan.maxFileBytes)
    (reads : file.content.isReadable = true) :
    ∃ entry, (indexer.scan disk .force state).2.store.entryAt? indexer.project file.path =
      some entry ∧ indexer.Reflects file entry := by
  have leaves := ready.leavesAt_scan proper isThere supplied .force sound spares member
  have isForced : decide (ScanMode.force = .force) = true := rfl
  rw [isForced, outcomeOf_forced, if_neg (Nat.not_lt.mpr small), reads,
    if_neg (by decide)] at leaves
  generalize (indexer.scan disk .force state).2.store.entryAt? indexer.project file.path = left
    at leaves ⊢
  cases leaves with
  | ready isFinished =>
      refine ⟨_, rfl, ?_⟩
      exact reflects_writtenOver differ identifies (ready.outlines _ _ isFinished) _

end Indexer

end SourceIndex
