import SourceIndex.Proofs.Scan.Holdings

/-! Paths at which there is no file any more, when they are indexed. What has been stored at a path
that leads nowhere is removed; a directory that has taken the place of a file is passed over, and
what has been stored of the file stays. -/

namespace SourceIndex

/-! ## Paths with steps that lead nowhere -/

namespace Path

/-- A step behind a slash is left out, leads up, or is a name. -/
theorem laterComponents_cons (piece : List Char) (pieces : List (List Char)) :
    laterComponents (piece :: pieces) =
      if piece = [] ∨ piece = ['.'] then laterComponents pieces
      else if piece = ['.', '.'] then .up :: laterComponents pieces
      else .name piece :: laterComponents pieces := by
  unfold laterComponents
  rw [List.filterMap_cons]
  by_cases nowhere : piece = [] ∨ piece = ['.']
  · simp only [if_pos nowhere]
  · by_cases isUp : piece = ['.', '.']
    · simp only [if_neg nowhere, if_pos isUp]
    · simp only [if_neg nowhere, if_neg isUp]

theorem toText_of_mem_laterComponents {pieces : List (List Char)}
    (noSlash : ∀ piece ∈ pieces, '/' ∉ piece) :
    ∀ component ∈ laterComponents pieces, component.toText ≠ [] ∧ '/' ∉ component.toText := by
  intro component member
  rcases List.mem_filterMap.mp member with ⟨piece, isPiece, kept⟩
  split at kept
  · cases kept
  · next someText =>
      split at kept
      · cases kept
        exact ⟨List.cons_ne_nil _ _, by decide⟩
      · cases kept
        exact ⟨fun empty => someText (.inl empty), noSlash piece isPiece⟩

/-- A path that starts at the root has a slash in front. -/
theorem of_components_eq_root {path : List Char} {rest : List PathComponent}
    (spelled : components path = .root :: rest) :
    path ≠ [] ∧ laterComponents (Text.splitAll (· == '/') path) = rest := by
  have notRoot : ∀ {pieces : List (List Char)}, laterComponents pieces ≠ .root :: rest := by
    intro pieces same
    have member : PathComponent.root ∈ laterComponents pieces := same ▸ List.mem_cons_self
    rcases List.mem_filterMap.mp member with ⟨piece, -, kept⟩
    split at kept
    · cases kept
    · split at kept <;> cases kept
  unfold components at spelled
  split at spelled
  · cases spelled
    exact ⟨List.cons_ne_nil _ _, rfl⟩
  · cases spelled
  · exact absurd spelled notRoot

end Path

namespace FileTree

/-- What lies above a directory is a directory. -/
theorem isDirectory_of_find?_append {tree : FileTree} {above names : List String}
    {entries : List (String × FileTree)}
    (found : tree.find? (above ++ names) = some (.directory entries)) :
    ∃ inner, tree.find? above = some (.directory inner) ∧
      (FileTree.directory inner).find? names = some (.directory entries) := by
  rw [find?_append] at found
  rcases Option.bind_eq_some_iff.mp found with ⟨what, isThere, below⟩
  cases what with
  | directory inner => exact ⟨inner, isThere, below⟩
  | file content => cases names <;> cases below

/-- Steps that name the way to a directory lead there, with others in between that lead nowhere. -/
theorem follow?_of_laterComponents (tree : FileTree) {pieces : List (List Char)}
    {trail names : List String} {entries : List (String × FileTree)}
    (spelled : Path.laterComponents pieces = names.map fun name => .name name.toList)
    (found : tree.find? (trail.reverse ++ names) = some (.directory entries)) :
    tree.follow? trail pieces = some (trail.reverse ++ names) := by
  induction pieces generalizing trail names with
  | nil =>
      rw [List.map_eq_nil_iff.mp spelled.symm, List.append_nil]
      rfl
  | cons piece pieces induction =>
      rcases isDirectory_of_find?_append found with ⟨inner, isThere, below⟩
      rw [follow?, isThere]
      simp only
      rw [Path.laterComponents_cons] at spelled
      split at spelled
      · next nowhere =>
          rw [if_pos nowhere]
          exact induction spelled found
      · next someStep =>
          rw [if_neg someStep]
          split at spelled
          · cases names <;> cases spelled
          · next notUp =>
              rw [if_neg notUp]
              cases names with
              | nil => cases spelled
              | cons name names =>
                  rw [List.map_cons, List.cons.injEq, PathComponent.name.injEq] at spelled
                  have isEntry : (inner.lookup name).isSome := by
                    rw [find?] at below
                    split at below
                    · next child isChild => exact Option.isSome_of_eq_some isChild
                    · cases below
                  have next : trail.reverse ++ name :: names = (name :: trail).reverse ++ names := by
                    rw [List.reverse_cons, List.append_assoc, List.singleton_append]
                  rw [spelled.1, String.ofList_toList, if_pos isEntry, next]
                  exact induction spelled.2 (next ▸ found)

theorem resolve?_of_components (tree : FileTree) {path : List Char} {names : List String}
    {entries : List (String × FileTree)}
    (spelled : Path.components path = .root :: names.map fun name => .name name.toList)
    (found : tree.find? names = some (.directory entries)) : tree.resolve? path = some names := by
  rcases Path.of_components_eq_root spelled with ⟨some, later⟩
  rw [resolve?, if_neg some]
  exact tree.follow?_of_laterComponents later found

/-- A path leads only to where a directory is at the top. -/
theorem isFile_of_resolve? {tree : FileTree} {path : List Char} {names : List String}
    (resolved : tree.resolve? path = some names) : tree.isFile = false := by
  cases tree with
  | directory entries => rfl
  | file content =>
      rcases List.exists_cons_of_ne_nil (Text.splitAll_ne_nil (· == '/') path) with
        ⟨piece, pieces, split⟩
      rw [resolve?, split] at resolved
      split at resolved <;> cases resolved

end FileTree

namespace Indexer

variable {indexer : Indexer} {root below : List String} {disk tree : FileTree}

/-! ## Directories -/

/-- A path that stands for one that is gone does not lead anywhere as it is written. -/
theorem of_standing_eq_gone {path relative : String}
    (gone : indexer.standing disk path = .gone relative) :
    let absolute := absolutePath indexer.root.toList path.toList
    disk.resolve? absolute = none ∧
      Path.relativeTo? indexer.root.toList absolute = some relative.toList := by
  intro absolute
  unfold standing at gone
  rw [FileTree.canonical_eq] at gone
  cases resolved : disk.resolve? absolute with
  | none =>
      unfold absolute at resolved
      simp only [resolved, Option.map_none, Option.getD_none] at gone
      split at gone
      · cases gone
      · next isBelow =>
          split at gone
          · cases gone
          · cases gone
            rw [String.toList_ofList]
            exact ⟨rfl, isBelow⟩
  | some names =>
      rcases disk.of_resolve?_eq_some resolved with ⟨plain, isThere⟩
      have again : disk.resolve? (FileTree.spelling names) = some names := by
        rw [disk.resolve?_spelling plain, FileTree.isFile_of_resolve? resolved, if_pos isThere]
        exact if_neg fun both => Bool.false_ne_true both.2
      unfold absolute at resolved
      simp only [resolved, Option.map_some, Option.getD_some, again] at gone
      split at gone
      · cases gone
      · split at gone
        · cases gone
        · split at gone <;> cases gone

/-- What is seen below a root under plain names is spelled with these names. -/
theorem components_of_relativeTo? {path : List Char}
    (rootPlain : ∀ name ∈ root, FileTree.IsPlain name)
    (plain : ∀ name ∈ below, FileTree.IsPlain name)
    (isBelow : Path.relativeTo? (FileTree.spelling root) path =
      some (joinSegments below).toList) :
    Path.components path = .root :: (root ++ below).map fun name => .name name.toList := by
  unfold Path.relativeTo? at isBelow
  split at isBelow
  · next first rest dropped =>
      let seen := first :: rest
      have whole := FileTree.append_of_dropLead? dropped
      rw [FileTree.components_spelling rootPlain, List.cons_append] at whole
      have texts : ∀ component ∈ seen, component.toText ≠ [] ∧ '/' ∉ component.toText := by
        intro component member
        have noSlash : ∀ piece ∈ Text.splitAll (· == '/') path, '/' ∉ piece := by
          intro piece isPiece slash
          have separates := Text.not_separates_of_mem_splitAll isPiece '/' slash
          cases separates
        apply Path.toText_of_mem_laterComponents noSlash component
        rw [(Path.of_components_eq_root whole).2]
        exact List.mem_append_right _ member
      -- The texts of the steps are the names, since both are joined to the same path.
      have names : seen.map (fun component => String.ofList component.toText) = below := by
        apply joinSegments_injective
        · intro name member
          rcases List.mem_map.mp member with ⟨component, isSeen, rfl⟩
          rcases texts component isSeen with ⟨some, noSlash⟩
          refine ⟨fun empty => some (String.ofList_inj.mp empty), ?_⟩
          rwa [String.toList_ofList]
        · exact fun name member => (plain name member).1
        · apply String.toList_inj.mp
          rw [← Option.some.inj isBelow, joinSegments, String.toList_intercalate, List.map_map,
            Path.join]
          refine congrArg (List.intercalate ['/']) (List.map_congr_left ?_)
          exact fun component _ => String.toList_ofList
      have steps : seen = below.map fun name => .name name.toList := by
        rw [← names, List.map_map]
        conv => lhs; rw [← List.map_id seen]
        apply List.map_congr_left
        intro component member
        have isPlain : FileTree.IsPlain (String.ofList component.toText) :=
          plain _ (names ▸ List.mem_map_of_mem member)
        cases component with
        | root => exact absurd List.mem_cons_self (texts _ member).2
        | here => exact absurd rfl isPlain.2.1
        | up => exact absurd rfl isPlain.2.2
        | name text => exact congrArg PathComponent.name String.toList_ofList.symm
      rw [whole, List.map_append]
      exact congrArg (fun steps => PathComponent.root :: (_ ++ steps)) steps
  · cases isBelow

/-- Where there is a directory no path stands for one that is gone. -/
theorem standing_ne_gone (rooted : indexer.IsRootedAt root)
    (isThere : indexer.rootTree? disk = some tree)
    (plain : ∀ name ∈ below, FileTree.IsPlain name) {entries : List (String × FileTree)}
    (found : tree.find? below = some (.directory entries)) (path : String) :
    indexer.standing disk path ≠ .gone (joinSegments below) := by
  intro gone
  rcases of_standing_eq_gone gone with ⟨unresolved, isBelow⟩
  rw [rooted.toList_root] at unresolved isBelow
  have spelled := components_of_relativeTo? rooted.plain plain isBelow
  have leads : disk.find? (root ++ below) = some (.directory entries) := by
    rw [FileTree.find?_append, rooted.find?_root isThere]
    exact found
  exact nomatch unresolved.symm.trans (disk.resolve?_of_components spelled leads)

/-- Files are indexed only where there are files. -/
theorem path_ne_of_file?_eq_none (rooted : indexer.IsRootedAt root) (proper : disk.IsProper)
    (isThere : indexer.rootTree? disk = some tree)
    (plain : ∀ name ∈ below, FileTree.IsPlain name) (noFile : tree.file? below = none)
    (paths : List String) :
    ∀ file ∈ indexer.filesAt disk paths, file.path ≠ joinSegments below := by
  intro file member samePath
  rcases List.mem_map.mp (present_of_mem_presentFiles member) with ⟨path, -, present⟩
  rcases of_standing_eq_present rooted isThere present with ⟨-, names, found, spelled⟩
  have named := (isProper_rootTree proper isThere).isName_of_file? (Option.isSome_of_eq_some found)
  rw [joinSegments_injective named (fun name member => (plain name member).1)
    (spelled.symm.trans samePath), noFile] at found
  cases found

end Indexer

open Indexer in
/-- When indexing single paths has succeeded, nothing is stored and nothing is kept in memory at a
listed path that is admitted and leads nowhere, from the root or from the top of the disk. At one
where there is a directory, what has been stored and kept before stays as it has been, vectors in
memory aside. -/
theorem indexPaths_vacates_missing {indexer : Indexer} {root : List String}
    (rooted : indexer.IsRootedAt root) {disk tree : FileTree} (proper : disk.IsProper)
    (isThere : indexer.rootTree? disk = some tree) {paths : List String} {state : IndexState}
    (succeeds : (indexer.indexPaths disk paths state).1.success = true) {below : List String}
    (plain : ∀ name ∈ below, FileTree.IsPlain name) (inside : below ≠ []) {path : String}
    (listed : path ∈ paths) (spelled : Spells root below path)
    (admitted : admitsPath indexer.options indexer.policy (joinSegments below) = true) :
    let place := joinSegments below
    let left := (indexer.indexPaths disk paths state).2
    (tree.find? below = none →
      left.store.row? indexer.project place = none ∧ left.records.lookup place = none) ∧
    ∀ entries, tree.find? below = some (.directory entries) →
      left.toIndexState.holding indexer.project place =
        state.holding indexer.project place := by
  intro place left
  have standing := standing_of_spells rooted isThere plain inside spelled
  have unfiled := fun noFile : tree.file? below = none =>
    holding_indexPaths_of_ne succeeds (path_ne_of_file?_eq_none rooted proper isThere plain noFile
      paths)
  constructor
  · intro missing
    rw [if_pos admitted, missing] at standing
    have isGone : place ∈ indexer.goneAt disk paths :=
      mem_gonePaths.mpr (List.mem_map.mpr ⟨path, listed, standing⟩)
    have vacated := unfiled (by rw [FileTree.file?, missing])
    rw [if_pos isGone] at vacated
    exact ⟨congrArg Holding.row? vacated, Option.map_eq_none_iff.mp (congrArg Holding.kept? vacated)⟩
  · intro entries found
    have notGone : place ∉ indexer.goneAt disk paths := by
      intro isGone
      rcases List.mem_map.mp (mem_gonePaths.mp isGone) with ⟨other, -, gone⟩
      exact standing_ne_gone rooted isThere plain found other gone
    have kept := unfiled (by rw [FileTree.file?, found])
    rwa [if_neg notGone] at kept

/-! ## A directory in the place of a file -/

/-- A directory has the name of a file that has been stored. -/
def replacedDisk : FileTree :=
  .directory [("a.rs", .file (sampleContent "struct A;" 1)), ("b.rs", .directory [])]

theorem isProper_replacedDisk : replacedDisk.IsProper := by
  apply FileTree.IsProper.directory
  · have named : ∀ entry ∈ [("a.rs", FileTree.file (sampleContent "struct A;" 1)),
        ("b.rs", .directory [])], entry.1 ≠ "" ∧ '/' ∉ entry.1.toList := by decide
    exact named
  · decide
  · rw [List.forall_mem_cons, List.forall_mem_singleton]
    exact ⟨.file _, .directory (List.forall_mem_nil _) .nil (List.forall_mem_nil _)⟩

/-- A file that is gone is not stored any more when its path has been indexed, but one that has been
replaced by a directory still is. -/
theorem indexPaths_replacedDisk :
    let missing := sampleIndexer.indexPaths (.ofFiles laterFiles) ["a.rs", "/b.rs"] formerIndex
    let replaced := sampleIndexer.indexPaths replacedDisk ["a.rs", "/b.rs"] formerIndex
    (missing.1.success = true ∧ missing.2.store.row? "p" "b.rs" = none ∧
      missing.2.records.lookup "b.rs" = none) ∧
    replaced.1.success = true ∧ (replaced.2.store.row? "p" "b.rs").isSome := by
  intro missing replaced
  have plain : ∀ name ∈ ["b.rs"], FileTree.IsPlain name :=
    List.forall_mem_singleton.mpr ⟨⟨by decide, by decide⟩, by decide, by decide⟩
  have succeeds : ∀ disk, (sampleIndexer.rootTree? disk).isSome →
      (sampleIndexer.indexPaths disk ["a.rs", "/b.rs"] formerIndex).1.success = true := by
    intro disk isThere
    rw [Indexer.indexPaths_eq isThere rfl fun _ _ => rfl]
    rfl
  have listed : "/b.rs" ∈ ["a.rs", "/b.rs"] := by decide
  have vacates := (indexPaths_vacates_missing isRootedAt_sampleIndexer findsBare_laterFiles.proper
    findsBare_laterFiles.isThere (succeeds _ rfl) plain (List.cons_ne_nil _ _) listed (.inr rfl)
    (by decide)).1 rfl
  have stays := (indexPaths_vacates_missing isRootedAt_sampleIndexer isProper_replacedDisk rfl
    (succeeds replacedDisk rfl) plain (List.cons_ne_nil _ _) listed (.inr rfl) (by decide)).2 [] rfl
  have sameRow : replaced.2.store.row? "p" "b.rs" = formerIndex.store.row? "p" "b.rs" :=
    congrArg Holding.row? stays
  refine ⟨⟨succeeds _ rfl, vacates⟩, succeeds _ rfl, ?_⟩
  rw [sameRow, ← Option.isSome_map]
  exact isSome_removed

end SourceIndex
