import SourceIndex.Proofs.File.Spelling
import SourceIndex.Proofs.Walk.Admission

/-! What the paths that are given to an indexer stand for. However a file below the root is spelled,
it is found under the names that lead to it. -/

namespace SourceIndex.Indexer

variable (indexer : Indexer)

/-! ## Roots -/

/-- Whether the root of an indexer is spelled as plainly as that of an indexer that has been made
where its root is. -/
structure IsRootedAt (names : List String) : Prop where
  plain : ∀ name ∈ names, FileTree.IsPlain name
  spelled : indexer.root = String.ofList (FileTree.spelling names)

/-- An indexer whose root is there when it is made is rooted. -/
theorem isRootedAt_make {disk : FileTree} {root : String} {embedder : Embedder} {config : Config}
    {indexer : Indexer} (made : make disk root embedder config = .ok indexer) {names : List String}
    (resolved : disk.resolve? root.toList = some names) : indexer.IsRootedAt names := by
  unfold make at made
  split at made
  · cases made
  · cases made
    refine ⟨(disk.of_resolve?_eq_some resolved).1, ?_⟩
    simp only [FileTree.canonical_eq, resolved, Option.map_some, Option.getD_some]

variable {indexer} {disk tree : FileTree} {root : List String}

theorem IsRootedAt.toList_root (rooted : indexer.IsRootedAt root) :
    indexer.root.toList = FileTree.spelling root := by
  rw [rooted.spelled, String.toList_ofList]

/-- The tree that is indexed is where the names of the root lead. -/
theorem IsRootedAt.find?_root (rooted : indexer.IsRootedAt root)
    (isThere : indexer.rootTree? disk = some tree) : disk.find? root = some tree := by
  unfold rootTree? at isThere
  rw [rooted.toList_root, disk.resolve?_spelling rooted.plain] at isThere
  split at isThere
  · next entries found =>
      rw [← Option.some.inj isThere]
      split at found
      · cases found
      · split at found
        · exact found
        · cases found
  · cases isThere

/-! ## Spelled paths -/

/-- Whether a path spells some names below the root, be it from the root on or from the top of the
disk. -/
def Spells (root below : List String) (path : String) : Prop :=
  path = joinSegments below ∨ path = String.ofList (FileTree.spelling (root ++ below))

theorem getLast?_spelling_ne {names : List String} (plain : ∀ name ∈ names, FileTree.IsPlain name)
    (some : names ≠ []) : (FileTree.spelling names).getLast? ≠ .some '/' := by
  rcases List.eq_nil_or_concat names with rfl | ⟨front, last, rfl⟩
  · exact absurd rfl some
  · rw [List.concat_eq_append] at plain some ⊢
    have isLast := plain last (List.mem_append_right _ List.mem_cons_self)
    have step : FileTree.spell [last] = '/' :: last.toList := List.append_nil _
    rcases List.eq_nil_or_concat last.toList with empty | ⟨start, character, characters⟩
    · exact absurd empty isLast.toList_ne.1
    · rw [List.concat_eq_append] at characters
      rw [FileTree.spelling_eq_spell some, FileTree.spell_append, step, characters,
        ← List.cons_append, ← List.append_assoc, List.getLast?_concat, Ne, Option.some.injEq]
      rintro rfl
      apply isLast.1.2
      rw [characters]
      exact List.mem_append_right _ List.mem_cons_self

/-- A path that spells some names stands for the same from the top of the disk. -/
theorem absolutePath_eq (rooted : indexer.IsRootedAt root) {below : List String}
    (plain : ∀ name ∈ below, FileTree.IsPlain name) (some : below ≠ []) {path : String}
    (spelled : Spells root below path) :
    absolutePath indexer.root.toList path.toList = FileTree.spelling (root ++ below) := by
  have whole : root ++ below ≠ [] := by simp [some]
  have start := FileTree.spell_eq_cons some
  rcases spelled with rfl | rfl
  · have noSlash : ∀ rest, (joinSegments below).toList ≠ '/' :: rest := by
      intro rest slash
      rw [slash] at start
      have pieces := FileTree.splitAll_spell fun name member => (plain name member).1
      rw [start, Text.splitAll_cons_separator rfl, Text.splitAll_cons_separator rfl,
        List.cons.injEq] at pieces
      cases below with
      | nil => exact some rfl
      | cons name names =>
          have empty := (List.cons.inj pieces.2).1
          exact (plain name List.mem_cons_self).toList_ne.1 empty.symm
    rw [rooted.toList_root, FileTree.spelling_eq_spell whole, FileTree.spell_append, start]
    unfold absolutePath
    split
    · next rest slash => exact absurd slash (noSlash _)
    · by_cases top : root = []
      · rw [top]
        rfl
      · rw [if_neg (getLast?_spelling_ne rooted.plain top), FileTree.spelling_eq_spell top]
  · rw [String.toList_ofList, FileTree.spelling_eq_spell whole, FileTree.spell_eq_cons whole]
    rfl

/-- What a path that spells some names stands for is told by the tree that is indexed. -/
theorem standing_of_spells (rooted : indexer.IsRootedAt root)
    (isThere : indexer.rootTree? disk = some tree) {below : List String}
    (plain : ∀ name ∈ below, FileTree.IsPlain name) (some : below ≠ []) {path : String}
    (spelled : Spells root below path) :
    indexer.standing disk path =
      if admitsPath indexer.options indexer.policy (joinSegments below) then
        match tree.find? below with
        | .some (.file content) => .present ⟨joinSegments below, content⟩
        | .some (.directory _) => .passedOver
        | none => .gone (joinSegments below)
      else .passedOver := by
  have whole : root ++ below ≠ [] := by simp [some]
  have allPlain : ∀ name ∈ root ++ below, FileTree.IsPlain name :=
    List.forall_mem_append.mpr ⟨rooted.plain, plain⟩
  have found : disk.find? (root ++ below) = tree.find? below := by
    rw [FileTree.find?_append, rooted.find?_root isThere, Option.bind_some]
  have resolved : disk.resolve? (FileTree.spelling (root ++ below)) =
      if (tree.find? below).isSome then .some (root ++ below) else none := by
    rw [FileTree.spelling_eq_spell whole, disk.resolve?_spell allPlain whole, found]
  have canonical : disk.canonical (FileTree.spelling (root ++ below)) =
      FileTree.spelling (root ++ below) := by
    rw [FileTree.canonical_eq, resolved]
    split <;> rfl
  have absolute := absolutePath_eq rooted plain some spelled
  rw [rooted.toList_root] at absolute
  unfold standing
  simp only [rooted.toList_root, absolute, canonical, FileTree.relativeTo?_spelling allPlain some,
    String.ofList_toList, resolved]
  cases admitsPath indexer.options indexer.policy (joinSegments below) with
  | false => rfl
  | true =>
      cases isFound : tree.find? below with
      | none => rfl
      | some what =>
          simp only [Option.isSome_some, if_true, found, isFound, Bool.not_true,
            Bool.false_eq_true, if_false]
          cases what <;> rfl

/-- A file that a path stands for lies in the tree that is indexed, and its path is admitted. -/
theorem of_standing_eq_present (rooted : indexer.IsRootedAt root)
    (isThere : indexer.rootTree? disk = some tree) {path : String} {file : WalkedFile}
    (present : indexer.standing disk path = .present file) :
    admitsPath indexer.options indexer.policy file.path = true ∧
      ∃ below, tree.file? below = some file.content ∧ file.path = joinSegments below := by
  unfold standing at present
  rw [FileTree.canonical_eq, rooted.toList_root] at present
  cases resolved : disk.resolve? (absolutePath (FileTree.spelling root) path.toList) with
  | none =>
      simp only [resolved, Option.map_none, Option.getD_none] at present
      split at present
      · cases present
      · split at present <;> cases present
  | some names =>
      have plain := (disk.of_resolve?_eq_some resolved).1
      simp only [resolved, Option.map_some, Option.getD_some,
        disk.resolve?_spelling plain] at present
      split at present
      · cases present
      · next relative isBelow =>
          rcases FileTree.of_relativeTo?_spelling rooted.plain plain isBelow with
            ⟨below, some, rfl, spelled⟩
          rw [spelled] at present
          split at present
          · cases present
          · next admitted =>
              split at present
              · cases present
              · next names same =>
                  have sameNames : names = root ++ below := by
                    split at same
                    · cases same
                    · split at same
                      · exact (Option.some.inj same).symm
                      · cases same
                  rw [sameNames, FileTree.find?_append, rooted.find?_root isThere,
                    Option.bind_some] at present
                  split at present
                  · next content found =>
                      cases present
                      refine ⟨by simpa using admitted, below, ?_, rfl⟩
                      rw [FileTree.file?, found]
                  · cases present

/-! ## Sorting out -/

section

variable {α : Type} {key : α → String}

theorem mem_of_mem_dropRepeats {items : List α} {item : α} (member : item ∈ dropRepeats key items) :
    item ∈ items := by
  induction items with
  | nil => exact member
  | cons first items induction =>
      rw [dropRepeats] at member
      split at member
      · exact List.mem_cons.mpr (.inl (List.mem_singleton.mp member))
      · next next rest isRest =>
          rw [isRest] at induction
          split at member
          · rcases List.mem_cons.mp member with rfl | member
            · exact List.mem_cons_self
            · exact List.mem_cons_of_mem _ (induction (List.mem_cons_of_mem _ member))
          · rcases List.mem_cons.mp member with rfl | member
            · exact List.mem_cons_self
            · exact List.mem_cons_of_mem _ (induction member)

/-- Some item of every key stays. -/
theorem exists_mem_dropRepeats {items : List α} {item : α} (member : item ∈ items) :
    ∃ kept ∈ dropRepeats key items, key kept = key item := by
  induction items with
  | nil => exact absurd member List.not_mem_nil
  | cons first items induction =>
      rw [dropRepeats]
      split
      · next none =>
          rcases List.mem_cons.mp member with rfl | member
          · exact ⟨_, List.mem_cons_self, rfl⟩
          · rcases induction member with ⟨kept, isKept, -⟩
            rw [none] at isKept
            exact absurd isKept List.not_mem_nil
      · next next rest isRest =>
          rw [isRest] at induction
          split
          · next same =>
              rcases List.mem_cons.mp member with rfl | member
              · exact ⟨_, List.mem_cons_self, rfl⟩
              · rcases induction member with ⟨kept, isKept, sameKey⟩
                rcases List.mem_cons.mp isKept with rfl | isKept
                · exact ⟨first, List.mem_cons_self, same.trans sameKey⟩
                · exact ⟨kept, List.mem_cons_of_mem _ isKept, sameKey⟩
          · rcases List.mem_cons.mp member with rfl | member
            · exact ⟨_, List.mem_cons_self, rfl⟩
            · rcases induction member with ⟨kept, isKept, sameKey⟩
              exact ⟨kept, List.mem_cons_of_mem _ isKept, sameKey⟩

/-- Sorted items are left in strictly increasing order. -/
theorem pairwise_dropRepeats {items : List α}
    (sorted : items.Pairwise fun item later => key item ≤ key later) :
    (dropRepeats key items).Pairwise fun item later => key item < key later := by
  induction items with
  | nil => exact .nil
  | cons first items induction =>
      rw [List.pairwise_cons] at sorted
      have rest := induction sorted.2
      have below : ∀ later ∈ dropRepeats key items, key first ≤ key later :=
        fun later member => sorted.1 later (mem_of_mem_dropRepeats member)
      rw [dropRepeats]
      split
      · exact List.pairwise_singleton _ _
      · next next later isRest =>
          rw [isRest, List.pairwise_cons] at rest
          rw [isRest, List.forall_mem_cons] at below
          split
          · next same =>
              rw [List.pairwise_cons, same]
              exact rest
          · next different =>
              have before : key first < key next := Std.lt_of_le_of_ne below.1 different
              rw [List.pairwise_cons, List.forall_mem_cons, List.pairwise_cons]
              exact ⟨⟨before, fun item member => String.lt_trans before (rest.1 item member)⟩, rest⟩

end

theorem present_of_mem_presentFiles {standings : List PathStanding} {file : WalkedFile}
    (member : file ∈ presentFiles standings) : .present file ∈ standings := by
  have sorted := mem_of_mem_dropRepeats member
  rw [List.mem_mergeSort, List.mem_filterMap] at sorted
  rcases sorted with ⟨standing, isStanding, isPresent⟩
  cases standing with
  | present other => exact Option.some.inj isPresent ▸ isStanding
  | gone path => cases isPresent
  | passedOver => cases isPresent

theorem exists_mem_presentFiles {standings : List PathStanding} {file : WalkedFile}
    (present : .present file ∈ standings) :
    ∃ kept ∈ presentFiles standings, kept.path = file.path := by
  apply exists_mem_dropRepeats
  rw [List.mem_mergeSort, List.mem_filterMap]
  exact ⟨_, present, rfl⟩

theorem mem_gonePaths {standings : List PathStanding} {path : String} :
    path ∈ gonePaths standings ↔ .gone path ∈ standings := by
  constructor
  · intro member
    have sorted := mem_of_mem_dropRepeats member
    rw [List.mem_mergeSort, List.mem_filterMap] at sorted
    rcases sorted with ⟨standing, isStanding, isGone⟩
    cases standing with
    | gone other => exact Option.some.inj isGone ▸ isStanding
    | present file => cases isGone
    | passedOver => cases isGone
  · intro gone
    have kept : ∃ kept ∈ gonePaths standings, id kept = id path := by
      apply exists_mem_dropRepeats
      rw [List.mem_mergeSort, List.mem_filterMap]
      exact ⟨_, gone, rfl⟩
    rcases kept with ⟨kept, member, same⟩
    rw [id, id] at same
    rwa [← same]

theorem nodup_presentFiles (standings : List PathStanding) :
    ((presentFiles standings).map (·.path)).Nodup := by
  have sorted : (presentFiles standings).Pairwise fun file later => file.path < later.path :=
    pairwise_dropRepeats (pairwise_mergeSort_key WalkedFile.path _)
  rw [List.Nodup, List.pairwise_map]
  exact sorted.imp fun before => Std.ne_of_lt before

theorem nodup_gonePaths (standings : List PathStanding) : (gonePaths standings).Nodup := by
  have sorted : (gonePaths standings).Pairwise fun path later => id path < id later :=
    pairwise_dropRepeats (pairwise_mergeSort_key id _)
  exact sorted.imp fun before => Std.ne_of_lt before

end SourceIndex.Indexer
