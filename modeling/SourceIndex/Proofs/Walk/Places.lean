import SourceIndex.Proofs.Lookup
import SourceIndex.Proofs.Text.Pieces
import SourceIndex.Walk.Traversal

/-! Where the files lie that a walk finds: a path leads to one file only. -/

namespace SourceIndex

/-! ## Paths and their segments -/

namespace FileTree

/-- Whether a text can be the name of an entry. -/
def IsName (name : String) : Prop := name ≠ "" ∧ '/' ∉ name.toList

end FileTree

/-- A path tells the names that it has been made of. -/
theorem pathSegments_joinSegments {names : List String}
    (proper : ∀ name ∈ names, FileTree.IsName name) :
    pathSegments (joinSegments names) = names := by
  cases names with
  | nil => rfl
  | cons name names =>
      have noSlash : ∀ piece ∈ (name :: names).map String.toList, ∀ character ∈ piece,
          (character == '/') = false := by
        intro piece member character inside
        rcases List.mem_map.mp member with ⟨segment, segmentMember, rfl⟩
        rw [beq_eq_false_iff_ne]
        rintro rfl
        exact (proper segment segmentMember).2 inside
      have split : Text.splitAll (· == '/')
          (['/'].intercalate ((name :: names).map String.toList)) =
          (name :: names).map String.toList := by
        refine Text.splitAll_intercalate ?_ noSlash (List.cons_ne_nil _ _)
        rfl
      have kept : ((name :: names).map String.toList).filter (! ·.isEmpty) =
          (name :: names).map String.toList := by
        rw [List.filter_eq_self]
        intro piece member
        rcases List.mem_map.mp member with ⟨segment, segmentMember, rfl⟩
        simpa using (proper segment segmentMember).1
      unfold pathSegments joinSegments
      have slash : "/".toList = ['/'] := rfl
      rw [String.toList_intercalate, slash, split, kept, List.map_map]
      simp [Function.comp_def]

theorem joinSegments_injective {names others : List String}
    (proper : ∀ name ∈ names, FileTree.IsName name)
    (otherProper : ∀ name ∈ others, FileTree.IsName name)
    (same : joinSegments names = joinSegments others) : names = others := by
  rw [← pathSegments_joinSegments proper, same, pathSegments_joinSegments otherProper]

/-! ## Trees -/

namespace FileTree

/-- Whether a tree can be on a disk: no directory has two entries of one name. -/
inductive IsProper : FileTree → Prop
  | file (content : StoredBytes) : IsProper (.file content)
  | directory {entries : List (String × FileTree)} (named : ∀ entry ∈ entries, IsName entry.1)
      (distinct : (entries.map (·.1)).Nodup) (below : ∀ entry ∈ entries, IsProper entry.2) :
      IsProper (.directory entries)

/-- What lies in a proper tree is a proper tree. -/
theorem IsProper.of_find? {tree found : FileTree} (proper : tree.IsProper) {names : List String}
    (isFound : tree.find? names = some found) : found.IsProper := by
  induction names generalizing tree with
  | nil =>
      rw [find?, Option.some.injEq] at isFound
      exact isFound ▸ proper
  | cons name names induction =>
      rw [find?] at isFound
      split at isFound
      · next child isChild =>
          apply induction _ isFound
          cases proper with
          | file content => cases isChild
          | directory named distinct below =>
              rw [FileTree.entries, List.lookup_eq_some_iff] at isChild
              rcases isChild with ⟨front, back, rfl, -⟩
              exact below (name, child) (List.mem_append_right _ List.mem_cons_self)
      · cases isFound

/-! ## Walks -/

section

variable {options : WalkOptions} {policy : ExclusionPolicy}

/-- Whether a file is the one that some names, which follow the names of a place, lead to. -/
structure Leads (place names : List String) (content : Option StoredBytes) (file : WalkedFile) :
    Prop where
  named : ∀ name ∈ names, IsName name
  path : file.path = joinSegments (place ++ names)
  content : content = some file.content

mutual

theorem leads_of_mem_walkFrom {scopes : List IgnoreScope} {place : List String}
    {file : WalkedFile} :
    {tree : FileTree} → tree.IsProper → file ∈ walkFrom options policy scopes place tree →
      ∃ names, Leads place names (tree.file? names) file
  | .file _, _, member => by
      rw [walkFrom] at member
      exact absurd member List.not_mem_nil
  | .directory entries, .directory named distinct below, member => by
      rw [walkFrom] at member
      split at member
      · rcases leads_of_mem_walkEntries named below member with ⟨name, tree, names, inside, leads⟩
        refine ⟨name :: names, leads.named, leads.path, ?_⟩
        have step : (FileTree.directory entries).file? (name :: names) = tree.file? names := by
          unfold file?
          rw [find?, FileTree.entries, lookup_of_mem distinct inside]
        rw [step, leads.content]
      · exact absurd member List.not_mem_nil

theorem leads_of_mem_walkEntries {scopes : List IgnoreScope} {place : List String}
    {file : WalkedFile} :
    {entries : List (String × FileTree)} → (∀ entry ∈ entries, IsName entry.1) →
      (∀ entry ∈ entries, IsProper entry.2) →
      file ∈ walkEntries options policy scopes place entries →
      ∃ name tree names, (name, tree) ∈ entries ∧
        Leads place (name :: names) (tree.file? names) file
  | [], _, _, member => by
      rw [walkEntries] at member
      exact absurd member List.not_mem_nil
  | (name, tree) :: entries, named, below, member => by
      have later : file ∈ walkEntries options policy scopes place entries →
          ∃ other found names, (other, found) ∈ (name, tree) :: entries ∧
            Leads place (other :: names) (found.file? names) file := by
        intro member
        rcases leads_of_mem_walkEntries (fun entry inside =>
          named entry (List.mem_cons_of_mem _ inside))
          (fun entry inside => below entry (List.mem_cons_of_mem _ inside)) member with
          ⟨other, found, names, inside, leads⟩
        exact ⟨other, found, names, List.mem_cons_of_mem _ inside, leads⟩
      have isName : IsName name := named (name, tree) List.mem_cons_self
      have proper : tree.IsProper := below (name, tree) List.mem_cons_self
      unfold walkEntries at member
      simp only at member
      split at member
      · exact later member
      · cases tree with
        | file content =>
            simp only at member
            split at member
            · rcases List.mem_cons.mp member with rfl | member
              · refine ⟨name, .file content, [], List.mem_cons_self, ?_, rfl, rfl⟩
                intro other inside
                rw [List.mem_singleton.mp inside]
                exact isName
              · exact later member
            · exact later member
        | directory inner =>
            rcases List.mem_append.mp member with member | member
            · rcases leads_of_mem_walkFrom proper member with ⟨names, leads⟩
              refine ⟨name, .directory inner, names, List.mem_cons_self, ?_, ?_, leads.content⟩
              · intro other inside
                rcases List.mem_cons.mp inside with rfl | inside
                · exact isName
                · exact leads.named other inside
              · rw [leads.path, List.append_assoc, List.singleton_append]
            · exact later member

end

/-- The files of a walk that have one path are one file. -/
theorem eq_of_mem_walk {tree : FileTree} (proper : tree.IsProper) {file other : WalkedFile}
    (member : file ∈ tree.walk options policy) (otherMember : other ∈ tree.walk options policy)
    (same : file.path = other.path) : file = other := by
  rcases leads_of_mem_walkFrom proper (List.mem_mergeSort.mp member) with ⟨names, leads⟩
  rcases leads_of_mem_walkFrom proper (List.mem_mergeSort.mp otherMember) with
    ⟨otherNames, otherLeads⟩
  rw [leads.path, otherLeads.path] at same
  have sameNames : names = otherNames := joinSegments_injective leads.named otherLeads.named same
  have sameContent : file.content = other.content := by
    apply Option.some.inj
    rw [← leads.content, ← otherLeads.content, sameNames]
  cases file
  cases other
  simp only at sameContent
  rw [WalkedFile.mk.injEq]
  exact ⟨leads.path.trans (same.trans otherLeads.path.symm), sameContent⟩

end

end FileTree

end SourceIndex
