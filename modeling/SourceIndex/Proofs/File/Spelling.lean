import SourceIndex.Proofs.Walk.Places
import SourceIndex.Scan.Paths

/-! Paths as texts: what the plainest spelling of some names leads to, and which names a path that
leads somewhere stands for. -/

namespace SourceIndex

namespace FileTree

/-! ## Plain names -/

/-- Whether a name stands for itself in a path, and not for the directory that the path has come to
or for the one above. -/
def IsPlain (name : String) : Prop := IsName name ∧ name ≠ "." ∧ name ≠ ".."

theorem IsPlain.toList_ne {name : String} (plain : IsPlain name) :
    name.toList ≠ [] ∧ name.toList ≠ ['.'] ∧ name.toList ≠ ['.', '.'] := by
  refine ⟨?_, ?_, ?_⟩
  · exact fun empty => plain.1.1 (String.toList_eq_nil_iff.mp empty)
  · exact fun here => plain.2.1 (String.toList_inj.mp here)
  · exact fun up => plain.2.2 (String.toList_inj.mp up)

theorem isPlain_ofList {piece : List Char} (noSlash : '/' ∉ piece) (some : piece ≠ [])
    (notHere : piece ≠ ['.']) (notUp : piece ≠ ['.', '.']) : IsPlain (String.ofList piece) := by
  refine ⟨⟨?_, ?_⟩, ?_, ?_⟩
  · exact fun empty => some (String.ofList_inj.mp empty)
  · rwa [String.toList_ofList]
  · exact fun here => notHere (String.ofList_inj.mp here)
  · exact fun up => notUp (String.ofList_inj.mp up)

/-- The names on a plain path, each behind a slash, are the pieces of the path. -/
theorem splitAll_spell {names : List String} (named : ∀ name ∈ names, IsName name) :
    Text.splitAll (· == '/') (spell names) = [] :: names.map String.toList := by
  induction names with
  | nil => rfl
  | cons name names induction =>
      rw [List.forall_mem_cons] at named
      have noSlash : ∀ character ∈ name.toList, (character == '/') = false := by
        intro character member
        rw [beq_eq_false_iff_ne]
        rintro rfl
        exact named.1.2 member
      have step : spell (name :: names) = '/' :: (name.toList ++ spell names) := rfl
      rw [step, Text.splitAll_cons_separator rfl,
        Text.splitAll_append noSlash (induction named.2), List.append_nil, List.map_cons]

theorem spell_append (names others : List String) :
    spell (names ++ others) = spell names ++ spell others := List.flatMap_append

/-- A path below the root is the plainest spelling without the slash in front. -/
theorem spell_eq_cons {names : List String} (some : names ≠ []) :
    spell names = '/' :: (joinSegments names).toList := by
  induction names with
  | nil => exact absurd rfl some
  | cons name names induction =>
      have step : spell (name :: names) = '/' :: (name.toList ++ spell names) := rfl
      rw [step, joinSegments, String.toList_intercalate]
      cases names with
      | nil =>
          rw [List.map_singleton, List.intercalate_singleton]
          exact congrArg _ (List.append_nil _)
      | cons next names =>
          have slash : "/".toList = ['/'] := rfl
          rw [induction (List.cons_ne_nil _ _), joinSegments, String.toList_intercalate,
            List.map_cons, List.map_cons, List.map_cons, List.intercalate_cons_cons, slash,
            List.append_assoc, List.singleton_append]

/-! ## What a path leads to -/

theorem find?_append (tree : FileTree) (names others : List String) :
    tree.find? (names ++ others) = (tree.find? names).bind (·.find? others) := by
  induction names generalizing tree with
  | nil => rfl
  | cons name names induction =>
      rw [List.cons_append, find?, find?]
      cases tree.entries.lookup name with
      | none => rfl
      | some child => exact induction child

theorem find?_singleton (tree : FileTree) (name : String) :
    tree.find? [name] = tree.entries.lookup name := by
  rw [find?]
  cases tree.entries.lookup name <;> rfl

/-- Names that are followed one by one lead where they lead at once. -/
theorem follow?_map_toList (tree : FileTree) {names : List String}
    (plain : ∀ name ∈ names, IsPlain name) {trail : List String}
    (there : (tree.find? trail.reverse).isSome) :
    tree.follow? trail (names.map String.toList) =
      if (tree.find? (trail.reverse ++ names)).isSome then some (trail.reverse ++ names)
      else none := by
  induction names generalizing trail with
  | nil => rw [List.append_nil, if_pos there]; rfl
  | cons name names induction =>
      rw [List.forall_mem_cons] at plain
      have ne := plain.1.toList_ne
      have next : trail.reverse ++ name :: names = (name :: trail).reverse ++ names := by
        rw [List.reverse_cons, List.append_assoc, List.singleton_append]
      have step := find?_append tree trail.reverse [name]
      rcases Option.isSome_iff_exists.mp there with ⟨found, isFound⟩
      rw [isFound, Option.bind_some, find?_singleton, ← List.reverse_cons] at step
      rw [List.map_cons, follow?, isFound, next]
      cases found with
      | file content =>
          simp only
          have nothing : tree.find? ((name :: trail).reverse ++ names) = none := by
            rw [find?_append, step]
            rfl
          rw [nothing]
          rfl
      | directory entries =>
          simp only [ne, or_self, if_false, String.ofList_toList]
          split
          · next isEntry =>
              apply induction plain.2
              rw [step]
              exact isEntry
          · next noEntry =>
              have nothing : tree.find? ((name :: trail).reverse ++ names) = none := by
                rw [find?_append, step]
                exact (congrArg (Option.bind · _) (Option.not_isSome_iff_eq_none.mp noEntry))
              rw [nothing]
              rfl

/-- Where a path leads is told by plain names. -/
theorem of_follow?_eq_some (tree : FileTree) {pieces : List (List Char)}
    (noSlash : ∀ piece ∈ pieces, '/' ∉ piece) {trail names : List String}
    (plain : ∀ name ∈ trail, IsPlain name) (there : (tree.find? trail.reverse).isSome)
    (followed : tree.follow? trail pieces = some names) :
    (∀ name ∈ names, IsPlain name) ∧ (tree.find? names).isSome := by
  induction pieces generalizing trail with
  | nil =>
      cases followed
      exact ⟨fun name member => plain name (List.mem_reverse.mp member), there⟩
  | cons piece pieces induction =>
      rw [List.forall_mem_cons] at noSlash
      rw [follow?] at followed
      split at followed
      · next entries isFound =>
          split at followed
          · exact induction noSlash.2 plain there followed
          · next notHere =>
              split at followed
              · apply induction noSlash.2 (fun name member => plain name (List.mem_of_mem_tail member))
                  _ followed
                cases trail with
                | nil => exact there
                | cons name trail =>
                    rw [List.reverse_cons, find?_append] at there
                    cases above : tree.find? trail.reverse with
                    | none => rw [above] at there; cases there
                    | some directory =>
                        rw [List.tail_cons, above]
                        rfl
              · next notUp =>
                  simp only at followed
                  split at followed
                  · next isEntry =>
                      rw [not_or] at notHere
                      refine induction noSlash.2 (List.forall_mem_cons.mpr
                        ⟨isPlain_ofList noSlash.1 notHere.1 notHere.2 notUp, plain⟩) ?_ followed
                      rw [List.reverse_cons, find?_append, isFound, Option.bind_some,
                        find?_singleton]
                      exact isEntry
                  · cases followed
      · cases followed

theorem of_resolve?_eq_some (tree : FileTree) {path : List Char} {names : List String}
    (resolved : tree.resolve? path = some names) :
    (∀ name ∈ names, IsPlain name) ∧ (tree.find? names).isSome := by
  unfold resolve? at resolved
  split at resolved
  · cases resolved
  · refine tree.of_follow?_eq_some ?_ (List.forall_mem_nil _) rfl resolved
    intro piece member slash
    have none := Text.not_separates_of_mem_splitAll member '/' slash
    cases none

/-- The plainest spelling of names leads where the names lead. -/
theorem resolve?_spell (tree : FileTree) {names : List String}
    (plain : ∀ name ∈ names, IsPlain name) (some : names ≠ []) :
    tree.resolve? (spell names) =
      if (tree.find? names).isSome then .some names else none := by
  have nonempty : spell names ≠ [] := by
    rw [spell_eq_cons some]
    exact List.cons_ne_nil _ _
  unfold resolve?
  rw [if_neg nonempty, splitAll_spell fun name member => (plain name member).1, follow?]
  have atTop : tree.follow? [] (names.map String.toList) =
      if (tree.find? names).isSome then .some names else none :=
    tree.follow?_map_toList plain rfl
  cases tree with
  | file content =>
      have nothing : (FileTree.file content).find? names = .none := by
        cases names with
        | nil => exact absurd rfl some
        | cons name names => rfl
      rw [nothing]
      rfl
  | directory entries => exact atTop

/-- What is written of a path that leads to something. -/
def spelling : List String → List Char
  | [] => ['/']
  | name :: names => spell (name :: names)

theorem spelling_eq_spell {names : List String} (some : names ≠ []) :
    spelling names = spell names := by
  cases names with
  | nil => exact absurd rfl some
  | cons name names => rfl

theorem canonical_eq (tree : FileTree) (path : List Char) :
    tree.canonical path = ((tree.resolve? path).map spelling).getD path := by
  unfold canonical
  cases tree.resolve? path with
  | none => rfl
  | some names => cases names <;> rfl

theorem resolve?_spelling (tree : FileTree) {names : List String}
    (plain : ∀ name ∈ names, IsPlain name) :
    tree.resolve? (spelling names) = if names = [] ∧ tree.isFile then none
      else if (tree.find? names).isSome then some names else none := by
  cases names with
  | nil => cases tree <;> rfl
  | cons name names =>
      rw [if_neg (List.cons_ne_nil name names ·.1)]
      exact tree.resolve?_spell plain (List.cons_ne_nil _ _)

/-! ## Paths below others -/

theorem components_spelling {names : List String} (plain : ∀ name ∈ names, IsPlain name) :
    Path.components (spelling names) = .root :: names.map fun name => .name name.toList := by
  have later : ∀ {names : List String}, (∀ name ∈ names, IsPlain name) →
      Path.laterComponents (names.map String.toList) =
        names.map fun name => PathComponent.name name.toList := by
    intro names plain
    induction names with
    | nil => rfl
    | cons name names induction =>
        rw [List.forall_mem_cons] at plain
        have ne := plain.1.toList_ne
        have rest := induction plain.2
        unfold Path.laterComponents at rest ⊢
        simp only [List.map_cons, List.filterMap_cons, ne, or_self, if_false, rest]
  cases names with
  | nil => rfl
  | cons name names =>
      have split := splitAll_spell fun name member => (plain name member).1
      have start := spell_eq_cons (List.cons_ne_nil name names)
      have dropped : Path.laterComponents ([] :: (name :: names).map String.toList) =
          Path.laterComponents ((name :: names).map String.toList) := rfl
      rw [spelling]
      rw [start] at split ⊢
      rw [Path.components, split, dropped, later plain]

theorem dropLead?_append (lead components : List PathComponent) :
    Path.dropLead? lead (lead ++ components) = some components := by
  induction lead with
  | nil => rfl
  | cons first lead induction => rw [List.cons_append, Path.dropLead?, if_pos rfl, induction]

theorem append_of_dropLead? {lead components rest : List PathComponent}
    (dropped : Path.dropLead? lead components = some rest) : components = lead ++ rest := by
  induction lead generalizing components with
  | nil => exact Option.some.inj dropped
  | cons first lead induction =>
      cases components with
      | nil => cases dropped
      | cons component components =>
          rw [Path.dropLead?] at dropped
          split at dropped
          · next same => rw [List.cons_append, ← induction dropped, same]
          · cases dropped

theorem join_map_name (names : List String) :
    Path.join (names.map fun name => .name name.toList) = (joinSegments names).toList := by
  rw [Path.join, List.map_map, joinSegments, String.toList_intercalate]
  rfl

/-- A path below a root, seen from the root, is made of the names behind those of the root. -/
theorem relativeTo?_spelling {names below : List String}
    (plain : ∀ name ∈ names ++ below, IsPlain name) (some : below ≠ []) :
    Path.relativeTo? (spelling names) (spelling (names ++ below)) =
      .some (joinSegments below).toList := by
  have rootPlain : ∀ name ∈ names, IsPlain name :=
    fun name member => plain name (List.mem_append_left _ member)
  rw [Path.relativeTo?, components_spelling rootPlain, components_spelling plain, List.map_append,
    ← List.cons_append, dropLead?_append, ← join_map_name]
  cases below with
  | nil => exact absurd rfl some
  | cons name below => rfl

/-- What is seen from a root lies below it. -/
theorem of_relativeTo?_spelling {root names : List String}
    (rootPlain : ∀ name ∈ root, IsPlain name) (plain : ∀ name ∈ names, IsPlain name)
    {relative : List Char}
    (isBelow : Path.relativeTo? (spelling root) (spelling names) = some relative) :
    ∃ below, below ≠ [] ∧ names = root ++ below ∧ String.ofList relative = joinSegments below := by
  have injective : ∀ left right : List String,
      (left.map fun name => PathComponent.name name.toList) =
        (right.map fun name => PathComponent.name name.toList) → left = right := by
    intro left right same
    refine (List.map_inj_right ?_).mp same
    intro name other sameName
    rw [PathComponent.name.injEq] at sameName
    exact String.toList_inj.mp sameName
  rw [Path.relativeTo?, components_spelling rootPlain, components_spelling plain] at isBelow
  split at isBelow
  · next first rest dropped =>
      have split := append_of_dropLead? dropped
      rw [List.cons_append, List.cons.injEq, List.map_eq_append_iff] at split
      rcases split with ⟨-, above, below, rfl, sameRoot, sameBelow⟩
      refine ⟨below, ?_, ?_, ?_⟩
      · rintro rfl
        cases sameBelow
      · rw [injective above root sameRoot]
      · rw [← Option.some.inj isBelow, ← sameBelow, join_map_name, String.ofList_toList]
  · cases isBelow

end FileTree

end SourceIndex
