import SourceIndex.Proofs.Scan.Sequences
import SourceIndex.Proofs.Scan.Standing

/-! Indexing single paths, as when they have been seen to change: what is stored lies in the tree
and is admitted, but ignore files are not asked. -/

namespace SourceIndex

namespace Indexer

/-! ## Rows -/

/-- Removing paths leaves the row of a file as it is or takes it away. -/
theorem row?_removeCalls (indexer : Indexer) (paths : List String) (store : Store)
    (project path : String) :
    let left := indexer.gate.performAll store (indexer.removeCalls paths)
    left.row? project path = none ∨ left.row? project path = store.row? project path := by
  induction paths generalizing store with
  | nil => exact .inr rfl
  | cons first paths induction =>
      have once : (indexer.gate.perform store (.remove indexer.project first)).row? project path =
          none ∨ (indexer.gate.perform store (.remove indexer.project first)).row? project path =
            store.row? project path := by
        rcases indexer.gate.perform_cases store (.remove indexer.project first) with
          same | ⟨_, _, isPersist, -⟩ | ⟨_, _, _, isTouch, -⟩ | ⟨removedProject, removed, -, done⟩
        · exact .inr (by rw [same])
        · cases isPersist
        · cases isTouch
        · rw [done, Store.remove_eq]
          split
          · exact .inr rfl
          · rw [Store.row?_without]
            split
            · exact .inl rfl
            · exact .inr rfl
      rcases induction (indexer.gate.perform store (.remove indexer.project first)) with gone | same
      · exact .inl gone
      · rcases once with gone | kept
        · exact .inl (same.trans gone)
        · exact .inr (same.trans kept)

variable {indexer : Indexer}

/-- Where there is no root nothing is indexed. -/
theorem store_indexPaths_of_missing {disk : FileTree} (missing : indexer.rootTree? disk = none)
    (paths : List String) (state : IndexState) :
    (indexer.indexPaths disk paths state).2.store = state.store := by
  unfold indexPaths
  simp only [missing]
  rfl

/-- The row of a file that indexing single paths has written or changed is that of a file that one
of the paths stands for. -/
theorem mem_filesAt_of_changed {disk : FileTree} {paths : List String} {state : IndexState}
    {path : String} {row : FileRow}
    (stored : (indexer.indexPaths disk paths state).2.store.row? indexer.project path = some row)
    (changed : state.store.row? indexer.project path ≠ some row) :
    ∃ file ∈ indexer.filesAt disk paths, file.path = path := by
  rcases indexer.store_indexPaths disk paths state with ⟨removed, calls, same, worked⟩
  rw [same, StoreGate.performAll_append] at stored
  by_cases isCalled : ∃ call ∈ calls, call.place = (indexer.project, path)
  · rcases isCalled with ⟨call, member, place⟩
    rcases worked with rfl | ⟨recorded, rfl⟩
    · exact absurd member List.not_mem_nil
    · rcases brings_of_mem_fileCalls indexer.finishes_bare member with ⟨file, isFile, brings⟩
      have paths : ∀ candidate finished, IndexedFile.bare finished = indexer.outlineOf candidate →
          finished.path = candidate.path := by
        intro candidate finished outline
        have same := congrArg IndexedFile.path outline
        rwa [path_outlineOf] at same
      rw [path_of_brings paths brings, Prod.mk.injEq] at place
      exact ⟨file, isFile, place.2⟩
  · have elsewhere : ∀ call ∈ calls, call.place ≠ (indexer.project, path) :=
      fun call member place => isCalled ⟨call, member, place⟩
    rw [indexer.gate.row?_performAll_elsewhere calls elsewhere] at stored
    rcases indexer.row?_removeCalls removed state.store indexer.project path with gone | kept
    · exact nomatch gone.symm.trans stored
    · exact absurd (kept.symm.trans stored) changed

end Indexer

/-- A row that indexing single paths writes or changes is that of a file in the tree that is
indexed, and its path is admitted. Ignore files are not asked: the walk of the same tree finds the
file just if none of those on the way leaves it out. -/
theorem indexPaths_stores_admitted {indexer : Indexer} {root : List String}
    (rooted : indexer.IsRootedAt root) {disk : FileTree} (proper : disk.IsProper)
    {paths : List String} {state : IndexState} {path : String} {row : FileRow}
    (stored : (indexer.indexPaths disk paths state).2.store.row? indexer.project path = some row)
    (changed : state.store.row? indexer.project path ≠ some row) :
    admitsPath indexer.options indexer.policy path = true ∧
      ∃ tree names, indexer.rootTree? disk = some tree ∧ (tree.file? names).isSome ∧
        path = joinSegments names ∧
        (path ∈ (tree.walk indexer.options indexer.policy).map (·.path) ↔
          tree.ignoresBelow indexer.options.respectGitignore [] [] names = false) := by
  cases isThere : indexer.rootTree? disk with
  | none =>
      rw [Indexer.store_indexPaths_of_missing isThere] at stored
      exact absurd stored changed
  | some tree =>
      rcases Indexer.mem_filesAt_of_changed stored changed with ⟨file, member, rfl⟩
      rcases List.mem_map.mp (Indexer.present_of_mem_presentFiles member) with ⟨given, -, present⟩
      rcases Indexer.of_standing_eq_present rooted isThere present with
        ⟨admitted, names, isFile, path⟩
      have isFound := Option.isSome_of_eq_some isFile
      have treeProper : tree.IsProper := proper.of_find? (rooted.find?_root isThere)
      refine ⟨admitted, tree, names, rfl, isFound, path, ?_⟩
      rw [(walk_eq_admitted indexer.options indexer.policy treeProper).2.1]
      constructor
      · rintro ⟨-, others, otherFound, otherPath, kept⟩
        have same : others = names := by
          apply joinSegments_injective (treeProper.isName_of_file? otherFound)
            (treeProper.isName_of_file? isFound)
          rw [← otherPath, path]
        rwa [same] at kept
      · exact fun kept => ⟨admitted, names, isFound, path, kept⟩

/-! ## A file that is ignored -/

/-- An indexer that respects ignore files. -/
def ignoringIndexer : Indexer where
  project := "p"
  root := "/"
  config := { embedding := { enabled := false } }
  options := ⟨2, [], ["rs"], [], true⟩
  policy := fun _ _ => false
  embedder := Embedder.digesting 4

theorem isRootedAt_ignoringIndexer : ignoringIndexer.IsRootedAt [] where
  plain := List.forall_mem_nil _
  spelled := rfl

def ignoredFiles : List (String × FileTree) :=
  [(".gitignore", .file ⟨"a.rs".toUTF8, ⟨0⟩, true⟩), ("a.rs", .file ⟨"x".toUTF8, ⟨0⟩, true⟩)]

theorem isProper_ignoredFiles : (FileTree.directory ignoredFiles).IsProper := by
  apply FileTree.IsProper.directory
  · intro entry member
    have all : ∀ entry ∈ ignoredFiles, entry.1 ≠ "" ∧ '/' ∉ entry.1.toList := by decide
    exact all entry member
  · decide
  · intro entry member
    rcases List.mem_cons.mp member with rfl | member
    · exact .file _
    · rw [List.mem_singleton.mp member]
      exact .file _

/-- A file that is to be ignored is stored when its path is indexed, although the walk does not find
it. -/
theorem indexPaths_ignoredFiles :
    let stored := (ignoringIndexer.indexPaths (.directory ignoredFiles) ["a.rs"] {}).2.store
    (stored.row? "p" "a.rs").isSome = true ∧
      "a.rs" ∉ ((FileTree.directory ignoredFiles).walk ignoringIndexer.options
        ignoringIndexer.policy).map (·.path) := by
  have isStored : ((ignoringIndexer.indexPaths (.directory ignoredFiles) ["a.rs"] {}).2.store.row?
      "p" "a.rs").isSome = true := by decide +kernel
  refine ⟨isStored, ?_⟩
  rcases Option.isSome_iff_exists.mp isStored with ⟨row, stored⟩
  have isNew : ({} : IndexState).store.row? "p" "a.rs" ≠ some row := nofun
  rcases indexPaths_stores_admitted isRootedAt_ignoringIndexer isProper_ignoredFiles stored isNew
    with ⟨-, tree, names, isThere, isFile, path, walked⟩
  cases (isThere : some (FileTree.directory ignoredFiles) = some tree)
  have isName : ∀ name ∈ ["a.rs"], FileTree.IsName name :=
    List.forall_mem_singleton.mpr ⟨by decide, by decide⟩
  have same : names = ["a.rs"] :=
    joinSegments_injective (isProper_ignoredFiles.isName_of_file? isFile) isName path.symm
  have ignored : (FileTree.directory ignoredFiles).ignoresBelow true [] [] ["a.rs"] = true := by
    decide +kernel
  intro found
  have kept := walked.mp found
  rw [same] at kept
  exact nomatch ignored.symm.trans kept

end SourceIndex
