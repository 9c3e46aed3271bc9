import SourceIndex.Proofs.Walk.Places

/-! Which files a walk finds: those whose paths are admitted and that no ignore file on the way
leaves out. The walk decides entry by entry from the root on; a path is judged as a whole. -/

namespace SourceIndex

/-- Items that have been sorted by a text come in the order of their texts. -/
theorem pairwise_mergeSort_key {α : Type} (key : α → String) (items : List α) :
    (items.mergeSort fun left right => key left ≤ key right).Pairwise
      fun item later => key item ≤ key later := by
  have transitive : ∀ left middle right : α, decide (key left ≤ key middle) = true →
      decide (key middle ≤ key right) = true → decide (key left ≤ key right) = true :=
    fun left middle right before after => decide_eq_true (String.le_trans
      (of_decide_eq_true before) (of_decide_eq_true after))
  have total : ∀ left right : α,
      (decide (key left ≤ key right) || decide (key right ≤ key left)) = true := by
    intro left right
    rw [Bool.or_eq_true, decide_eq_true_iff, decide_eq_true_iff]
    exact String.le_total (key left) (key right)
  exact (List.pairwise_mergeSort transitive total items).imp fun before => of_decide_eq_true before

/-! ## Judging names one by one -/

/-- Whether a walk that has come to a place admits the file that some more names lead to, judged by
the names alone. -/
def admitsBelow (options : WalkOptions) (policy : ExclusionPolicy) :
    (place names : List String) → Bool
  | _, [] => false
  | place, [name] =>
    decide (place.length < options.maxDepth) && !options.hides name
      && !policy (joinSegments (place ++ [name])) false && options.admitsFile name
  | place, name :: next :: names =>
    decide (place.length < options.maxDepth) && !options.hides name
      && !policy (joinSegments (place ++ [name])) true
      && admitsBelow options policy (place ++ [name]) (next :: names)

section

variable (options : WalkOptions) (policy : ExclusionPolicy)

/-- Names that follow a place are admitted one by one exactly if they are admitted all at once. -/
theorem admitsBelow_append (place names : List String) (last : String) :
    admitsBelow options policy place (names ++ [last]) =
      (decide (place.length + names.length < options.maxDepth)
        && !(names ++ [last]).any options.hides
        && !(leads names).any (fun lead => policy (joinSegments (place ++ lead)) true)
        && !policy (joinSegments (place ++ (names ++ [last]))) false
        && options.admitsFile last) := by
  induction names generalizing place with
  | nil => simp [admitsBelow, leads]
  | cons name names induction =>
      have step : admitsBelow options policy place (name :: (names ++ [last])) =
          (decide (place.length < options.maxDepth) && !options.hides name
            && !policy (joinSegments (place ++ [name])) true
            && admitsBelow options policy (place ++ [name]) (names ++ [last])) := by
        cases names <;> rfl
      have deep : decide (place.length + 1 + names.length < options.maxDepth) =
          (decide (place.length < options.maxDepth)
            && decide (place.length + (names.length + 1) < options.maxDepth)) := by
        rw [Bool.eq_iff_iff, Bool.and_eq_true, decide_eq_true_iff, decide_eq_true_iff,
          decide_eq_true_iff]
        omega
      rw [List.cons_append, step, induction, List.length_cons, ← Nat.add_assoc,
        Nat.add_right_comm]
      simp only [leads, List.any_cons, List.any_map, Function.comp_def, List.append_assoc,
        List.singleton_append, List.length_append, List.length_singleton, Bool.not_or, deep]
      ac_rfl

/-- Judged from the root on, a file is admitted exactly if its path is. -/
theorem admitsBelow_eq_admitsPath {names : List String}
    (named : ∀ name ∈ names, FileTree.IsName name) :
    admitsBelow options policy [] names = admitsPath options policy (joinSegments names) := by
  rcases List.eq_nil_or_concat names with rfl | ⟨front, last, rfl⟩
  · rfl
  · rw [List.concat_eq_append] at named ⊢
    have below := admitsBelow_append options policy [] front last
    simp only [List.nil_append, List.length_nil, Nat.zero_add] at below
    rw [below]
    unfold admitsPath
    rw [pathSegments_joinSegments named]
    simp only [List.getLast?_concat, List.dropLast_concat, List.length_append,
      List.length_singleton, Nat.succ_le_iff]

end

namespace FileTree

/-! ## Ignore files on the way -/

/-- Whether ignore files leave out what some names lead to from a tree on, be they in the
directories on the way or in those above, whose rules `scopes` holds. -/
def ignoresBelow (respectGitignore : Bool) :
    (scopes : List IgnoreScope) → (place : List String) → FileTree → (names : List String) → Bool
  | _, _, _, [] => false
  | scopes, place, tree, name :: names =>
    let scopes := IgnoreScope.ofDirectory respectGitignore place.length tree :: scopes
    match tree.entries.lookup name with
    | none => false
    | some child => IgnoreScope.ignores scopes (place ++ [name]) child.isDirectory
        || ignoresBelow respectGitignore scopes (place ++ [name]) child names

/-- Whether no directory of a tree has rules about which files to ignore. -/
def HasNoIgnoreFiles (tree : FileTree) : Prop :=
  ∀ place directory, tree.find? place = some directory →
    directory.file? [".ignore"] = none ∧ directory.file? [".gitignore"] = none ∧
      directory.file? [".git", "info", "exclude"] = none

theorem HasNoIgnoreFiles.of_lookup {tree child : FileTree} (bare : tree.HasNoIgnoreFiles)
    {name : String} (isChild : tree.entries.lookup name = some child) : child.HasNoIgnoreFiles := by
  intro place directory found
  apply bare (name :: place) directory
  rw [find?, isChild]
  exact found

/-- Scopes without rules ignore nothing. -/
theorem ignores_of_bare {scopes : List IgnoreScope}
    (bare : ∀ scope ∈ scopes, scope.general = [] ∧ scope.git = [] ∧ scope.gitExclude = [])
    (path : List String) (isDirectory : Bool) :
    IgnoreScope.ignores scopes path isDirectory = false := by
  have silent : ∀ rules : IgnoreScope → List IgnoreRule, (∀ scope ∈ scopes, rules scope = []) →
      IgnoreScope.innermost rules path isDirectory scopes = .silent := by
    intro rules without
    induction scopes with
    | nil => rfl
    | cons scope scopes induction =>
        rw [IgnoreScope.innermost, without scope List.mem_cons_self,
          induction (fun other member => bare other (List.mem_cons_of_mem _ member))
            (fun other member => without other (List.mem_cons_of_mem _ member))]
        rfl
  rw [IgnoreScope.ignores, silent _ fun scope member => (bare scope member).1,
    silent _ fun scope member => (bare scope member).2.1,
    silent _ fun scope member => (bare scope member).2.2]
  rfl

theorem ofDirectory_of_bare {tree : FileTree} (bare : tree.HasNoIgnoreFiles)
    (respectGitignore : Bool) (depth : Nat) :
    let scope := IgnoreScope.ofDirectory respectGitignore depth tree
    scope.general = [] ∧ scope.git = [] ∧ scope.gitExclude = [] := by
  rcases bare [] tree rfl with ⟨general, git, exclude⟩
  simp only [IgnoreScope.ofDirectory, IgnoreScope.rulesAt, general, git, exclude, ite_self,
    and_self]

theorem ignoresBelow_of_bare {tree : FileTree} (bare : tree.HasNoIgnoreFiles)
    (respectGitignore : Bool) {scopes : List IgnoreScope}
    (bareAbove : ∀ scope ∈ scopes, scope.general = [] ∧ scope.git = [] ∧ scope.gitExclude = [])
    (place names : List String) :
    ignoresBelow respectGitignore scopes place tree names = false := by
  induction names generalizing tree scopes place with
  | nil => rfl
  | cons name names induction =>
      have bareHere : ∀ scope ∈
          IgnoreScope.ofDirectory respectGitignore place.length tree :: scopes,
          scope.general = [] ∧ scope.git = [] ∧ scope.gitExclude = [] := by
        intro scope member
        rcases List.mem_cons.mp member with rfl | member
        · exact ofDirectory_of_bare bare respectGitignore place.length
        · exact bareAbove scope member
      unfold ignoresBelow
      cases isChild : tree.entries.lookup name with
      | none => rfl
      | some child =>
          simp only
          rw [ignores_of_bare bareHere, induction (bare.of_lookup isChild) bareHere, Bool.or_self]

/-! ## Files and their names -/

/-- Whether a path is that of a file of a tree. -/
def HasFileAt (tree : FileTree) (path : String) : Prop :=
  ∃ names, (tree.file? names).isSome ∧ path = joinSegments names

theorem file?_cons (tree : FileTree) (name : String) (names : List String) :
    tree.file? (name :: names) = (tree.entries.lookup name).bind (·.file? names) := by
  simp only [file?, find?]
  cases tree.entries.lookup name <;> rfl

theorem lookup_eq_some_iff {entries : List (String × FileTree)}
    (distinct : (entries.map (·.1)).Nodup) {name : String} {tree : FileTree} :
    entries.lookup name = some tree ↔ (name, tree) ∈ entries := by
  constructor
  · intro found
    rcases List.lookup_eq_some_iff.mp found with ⟨front, back, rfl, -⟩
    exact List.mem_append_right _ List.mem_cons_self
  · exact lookup_of_mem distinct

/-- What leads to something in a proper tree are names. -/
theorem IsProper.isName_of_find? {tree found : FileTree} (proper : tree.IsProper)
    {names : List String} (isFound : tree.find? names = some found) :
    ∀ name ∈ names, IsName name := by
  induction names generalizing tree with
  | nil => exact nofun
  | cons name names induction =>
      rw [find?] at isFound
      split at isFound
      · next child isChild =>
          have childProper : child.IsProper := by
            have found : tree.find? [name] = some child := by
              rw [find?, isChild]
              rfl
            exact proper.of_find? found
          have isName : IsName name := by
            cases proper with
            | file content => cases isChild
            | directory named distinct below =>
                exact named (name, child) ((lookup_eq_some_iff distinct).mp isChild)
          rw [List.forall_mem_cons]
          exact ⟨isName, induction childProper isFound⟩
      · cases isFound

theorem IsProper.isName_of_file? {tree : FileTree} (proper : tree.IsProper) {names : List String}
    (isFile : (tree.file? names).isSome) : ∀ name ∈ names, IsName name := by
  unfold file? at isFile
  split at isFile
  · next content found => exact proper.isName_of_find? found
  · cases isFile

/-! ## Walks -/

section

variable (options : WalkOptions) (policy : ExclusionPolicy)

/-- The files that a walk finds at or below an entry. -/
def walkEntry (scopes : List IgnoreScope) (place : List String) (entry : String × FileTree) :
    List WalkedFile :=
  let path := place ++ [entry.1]
  if isPassedOver options policy scopes path entry.1 entry.2.isDirectory then []
  else
    match entry.2 with
    | .file content => if options.admitsFile entry.1 then [⟨joinSegments path, content⟩] else []
    | .directory below => walkFrom options policy scopes path (.directory below)

theorem walkEntries_eq_flatMap (scopes : List IgnoreScope) (place : List String)
    (entries : List (String × FileTree)) :
    walkEntries options policy scopes place entries =
      entries.flatMap (walkEntry options policy scopes place) := by
  induction entries with
  | nil =>
      rw [walkEntries]
      rfl
  | cons entry entries induction =>
      rcases entry with ⟨name, tree⟩
      rw [List.flatMap_cons, ← induction, walkEntry]
      cases tree with
      | file content =>
          rw [walkEntries]
          simp only
          split
          · rfl
          · split <;> rfl
      | directory below =>
          rw [walkEntries]
          simp only
          split <;> rfl

/-- Whether a walk that comes to a directory finds a file depends on the names that lead there and
on the ignore files on the way. -/
def Finds (scopes : List IgnoreScope) (place : List String) (tree : FileTree) (file : WalkedFile)
    (names : List String) : Prop :=
  tree.file? names = some file.content ∧ file.path = joinSegments (place ++ names) ∧
    admitsBelow options policy place names = true ∧
    ignoresBelow options.respectGitignore scopes place tree names = false

theorem isPassedOver_eq_false_iff (scopes : List IgnoreScope) (path : List String) (name : String)
    (isDirectory : Bool) : isPassedOver options policy scopes path name isDirectory = false ↔
      IgnoreScope.ignores scopes path isDirectory = false ∧ options.hides name = false ∧
        policy (joinSegments path) isDirectory = false := by
  rw [isPassedOver, Bool.or_eq_false_iff, Bool.or_eq_false_iff, and_assoc]

section

variable {scopes : List IgnoreScope} {place : List String} {name : String} {file : WalkedFile}

/-- Whether a walk that comes to an entry finds a file by the names that lead there from it. -/
def FindsThrough (scopes : List IgnoreScope) (place : List String) (name : String)
    (child : FileTree) (file : WalkedFile) (names : List String) : Prop :=
  child.file? names = some file.content ∧ file.path = joinSegments (place ++ name :: names) ∧
    admitsBelow options policy place (name :: names) = true ∧
    (IgnoreScope.ignores scopes (place ++ [name]) child.isDirectory
      || ignoresBelow options.respectGitignore scopes (place ++ [name]) child names) = false

/-- Nothing is found through an entry that is passed over. -/
theorem isPassedOver_of_findsThrough {child : FileTree} {names : List String}
    (found : FindsThrough options policy scopes place name child file names) :
    isPassedOver options policy scopes (place ++ [name]) name child.isDirectory = false := by
  rcases found with ⟨isFile, -, admitted, kept⟩
  rw [Bool.or_eq_false_iff] at kept
  rw [isPassedOver_eq_false_iff]
  cases names with
  | nil =>
      cases child with
      | file content =>
          simp only [admitsBelow, Bool.and_eq_true, Bool.not_eq_true'] at admitted
          exact ⟨kept.1, admitted.1.1.2, admitted.1.2⟩
      | directory entries => cases isFile
  | cons next names =>
      cases child with
      | file content => rw [file?_cons] at isFile; cases isFile
      | directory entries =>
          simp only [admitsBelow, Bool.and_eq_true, Bool.not_eq_true'] at admitted
          exact ⟨kept.1, admitted.1.1.2, admitted.1.2⟩

variable (deep : place.length < options.maxDepth)

include deep

theorem mem_walkEntry_file {content : StoredBytes}
    (entered : isPassedOver options policy scopes (place ++ [name]) name false = false) :
    file ∈ walkEntry options policy scopes place (name, .file content) ↔
      ∃ names, FindsThrough options policy scopes place name (.file content) file names := by
  rcases (isPassedOver_eq_false_iff options policy scopes _ name _).mp entered with
    ⟨kept, shown, included⟩
  have here : walkEntry options policy scopes place (name, .file content) =
      if options.admitsFile name then [⟨joinSegments (place ++ [name]), content⟩] else [] := by
    rw [walkEntry, isDirectory, entered]
    rfl
  have admitted : admitsBelow options policy place [name] = options.admitsFile name := by
    simp only [admitsBelow, deep, shown, included, decide_true, Bool.not_false, Bool.and_true,
      Bool.true_and]
  rw [here]
  constructor
  · intro member
    split at member
    · next isAdmitted =>
        rw [List.mem_singleton] at member
        subst member
        refine ⟨[], rfl, rfl, admitted.trans isAdmitted, ?_⟩
        rw [isDirectory, kept]
        rfl
    · exact absurd member List.not_mem_nil
  · rintro ⟨names, isFile, path, isAdmitted, -⟩
    cases names with
    | nil =>
        rw [if_pos (admitted.symm.trans isAdmitted), List.mem_singleton]
        cases file
        cases isFile
        cases path
        rfl
    | cons next names => rw [file?_cons] at isFile; cases isFile

theorem mem_walkEntry_directory {entries : List (String × FileTree)}
    (entered : isPassedOver options policy scopes (place ++ [name]) name true = false)
    (below : file ∈ walkFrom options policy scopes (place ++ [name]) (.directory entries) ↔
      ∃ names, Finds options policy scopes (place ++ [name]) (.directory entries) file names) :
    file ∈ walkEntry options policy scopes place (name, .directory entries) ↔
      ∃ names, FindsThrough options policy scopes place name (.directory entries) file names := by
  rcases (isPassedOver_eq_false_iff options policy scopes _ name _).mp entered with
    ⟨kept, shown, included⟩
  have here : walkEntry options policy scopes place (name, .directory entries) =
      walkFrom options policy scopes (place ++ [name]) (.directory entries) := by
    rw [walkEntry, isDirectory, entered]
    rfl
  have admitted : ∀ next names, admitsBelow options policy place (name :: next :: names) =
      admitsBelow options policy (place ++ [name]) (next :: names) := by
    intro next names
    simp only [admitsBelow, deep, shown, included, decide_true, Bool.not_false, Bool.true_and]
  rw [here, below]
  apply exists_congr
  intro names
  rw [Finds, FindsThrough, isDirectory, kept, Bool.false_or, List.append_assoc,
    List.singleton_append]
  cases names with
  | nil =>
      constructor
      · rintro ⟨found, -⟩
        cases found
      · rintro ⟨found, -⟩
        cases found
  | cons next names => rw [admitted]

/-- What is found at or below an entry, if it is known what is found below. -/
theorem mem_walkEntry_iff {child : FileTree}
    (below : file ∈ walkFrom options policy scopes (place ++ [name]) child ↔
      ∃ names, Finds options policy scopes (place ++ [name]) child file names) :
    file ∈ walkEntry options policy scopes place (name, child) ↔
      ∃ names, FindsThrough options policy scopes place name child file names := by
  cases entered : isPassedOver options policy scopes (place ++ [name]) name child.isDirectory with
  | true =>
      rw [walkEntry, if_pos entered]
      refine ⟨fun member => absurd member List.not_mem_nil, ?_⟩
      rintro ⟨names, found⟩
      rw [isPassedOver_of_findsThrough options policy found] at entered
      cases entered
  | false =>
      cases child with
      | file content => exact mem_walkEntry_file options policy deep entered
      | directory entries => exact mem_walkEntry_directory options policy deep entered below

end

theorem mem_walkFrom_iff {tree : FileTree} (proper : tree.IsProper) {scopes : List IgnoreScope}
    {place : List String} {file : WalkedFile} :
    file ∈ walkFrom options policy scopes place tree ↔
      ∃ names, Finds options policy scopes place tree file names := by
  induction proper generalizing scopes place with
  | file content =>
      rw [walkFrom]
      refine ⟨fun member => absurd member List.not_mem_nil, ?_⟩
      rintro ⟨names, isFile, -, admitted, -⟩
      cases names with
      | nil => cases admitted
      | cons name names => rw [file?_cons] at isFile; cases isFile
  | @directory entries named distinct proper induction =>
      rw [walkFrom, walkEntries_eq_flatMap]
      split
      · next deep =>
          rw [List.mem_flatMap]
          constructor
          · rintro ⟨⟨name, child⟩, member, found⟩
            rcases (mem_walkEntry_iff options policy deep (induction _ member)).mp found with
              ⟨names, isFile, path, admitted, kept⟩
            refine ⟨name :: names, ?_, path, admitted, ?_⟩
            · rw [file?_cons, FileTree.entries, lookup_of_mem distinct member]
              exact isFile
            · rw [ignoresBelow, FileTree.entries, lookup_of_mem distinct member]
              exact kept
          · rintro ⟨names, isFile, path, admitted, kept⟩
            cases names with
            | nil => cases isFile
            | cons name names =>
                rw [file?_cons, Option.bind_eq_some_iff] at isFile
                rcases isFile with ⟨child, isChild, isFile⟩
                have member := (lookup_eq_some_iff distinct).mp isChild
                rw [ignoresBelow, isChild] at kept
                exact ⟨(name, child), member,
                  (mem_walkEntry_iff options policy deep (induction _ member)).mpr
                    ⟨names, isFile, path, admitted, kept⟩⟩
      · next tooDeep =>
          refine ⟨fun member => absurd member List.not_mem_nil, ?_⟩
          rintro ⟨names, isFile, -, admitted, -⟩
          cases names with
          | nil => cases isFile
          | cons name names =>
              cases names <;> simp [admitsBelow, tooDeep] at admitted

/-- Files below different entries have different paths. -/
theorem path_of_mem_walkEntry {scopes : List IgnoreScope} {place : List String} {name : String}
    {child : FileTree} (proper : child.IsProper) {file : WalkedFile}
    (member : file ∈ walkEntry options policy scopes place (name, child)) :
    ∃ names, (∀ other ∈ names, IsName other) ∧
      file.path = joinSegments (place ++ name :: names) := by
  unfold walkEntry at member
  simp only at member
  split at member
  · exact absurd member List.not_mem_nil
  · split at member
    · split at member
      · rw [List.mem_singleton.mp member]
        exact ⟨[], List.forall_mem_nil _, rfl⟩
      · exact absurd member List.not_mem_nil
    · rcases leads_of_mem_walkFrom proper member with ⟨names, leads⟩
      refine ⟨names, leads.named, ?_⟩
      rw [leads.path, List.append_assoc, List.singleton_append]

theorem pairwise_walkFrom {tree : FileTree} (proper : tree.IsProper) {scopes : List IgnoreScope}
    {place : List String} (placed : ∀ name ∈ place, IsName name) :
    (walkFrom options policy scopes place tree).Pairwise fun file other =>
      file.path ≠ other.path := by
  induction proper generalizing scopes place with
  | file content =>
      rw [walkFrom]
      exact .nil
  | @directory entries named distinct proper induction =>
      rw [walkFrom, walkEntries_eq_flatMap]
      split
      · rw [List.pairwise_flatMap]
        constructor
        · rintro ⟨name, child⟩ member
          have placedBelow : ∀ other ∈ place ++ [name], IsName other := by
            rw [List.forall_mem_append, List.forall_mem_singleton]
            exact ⟨placed, named (name, child) member⟩
          have below := @induction (name, child) member
          unfold walkEntry
          simp only
          split
          · exact .nil
          · split
            · split
              · exact List.pairwise_singleton _ _
              · exact .nil
            · exact below placedBelow
        · apply List.Pairwise.imp_of_mem _ (List.pairwise_map.mp distinct)
          rintro ⟨name, child⟩ ⟨otherName, otherChild⟩ member otherMember different file found
            other otherFound samePath
          rcases path_of_mem_walkEntry options policy (proper _ member) found with
            ⟨names, areNames, path⟩
          rcases path_of_mem_walkEntry options policy (proper _ otherMember) otherFound with
            ⟨otherNames, otherAreNames, otherPath⟩
          rw [path, otherPath] at samePath
          have same := joinSegments_injective (List.forall_mem_append.mpr
              ⟨placed, List.forall_mem_cons.mpr ⟨named _ member, areNames⟩⟩)
            (List.forall_mem_append.mpr
              ⟨placed, List.forall_mem_cons.mpr ⟨named _ otherMember, otherAreNames⟩⟩) samePath
          rw [List.append_cancel_left_eq, List.cons.injEq] at same
          exact different same.1
      · exact .nil

/-- A walk yields its files in the order of their paths, each once. -/
theorem pairwise_walk {tree : FileTree} (proper : tree.IsProper) :
    ((tree.walk options policy).map (·.path)).Pairwise (· < ·) := by
  have sorted : (tree.walk options policy).Pairwise fun file other => file.path ≤ other.path :=
    pairwise_mergeSort_key WalkedFile.path (walkFrom options policy [] [] tree)
  have distinct : (tree.walk options policy).Pairwise fun file other =>
      file.path ≠ other.path := by
    apply (List.mergeSort_perm _ _).symm.pairwise (pairwise_walkFrom options policy proper
        (List.forall_mem_nil _))
    exact fun different => different.symm
  rw [List.pairwise_map]
  exact (sorted.and distinct).imp fun both => Std.lt_of_le_of_ne both.1 both.2

/-- A walk finds the files whose paths are admitted and that no ignore file on the way leaves
out. -/
theorem mem_walk_iff {tree : FileTree} (proper : tree.IsProper) {file : WalkedFile} :
    file ∈ tree.walk options policy ↔
      ∃ names, tree.file? names = some file.content ∧ file.path = joinSegments names ∧
        admitsPath options policy file.path = true ∧
        tree.ignoresBelow options.respectGitignore [] [] names = false := by
  rw [walk, List.mem_mergeSort, mem_walkFrom_iff options policy proper]
  apply exists_congr
  intro names
  unfold Finds
  rw [List.nil_append]
  apply and_congr_right
  intro isFile
  have named := proper.isName_of_file? (Option.isSome_of_eq_some isFile)
  apply and_congr_right
  intro path
  rw [admitsBelow_eq_admitsPath options policy named, path]

/-- In a tree without ignore files a walk finds the files whose paths are admitted. -/
theorem mem_walk_iff_of_bare {tree : FileTree} (proper : tree.IsProper)
    (bare : tree.HasNoIgnoreFiles) {file : WalkedFile} :
    file ∈ tree.walk options policy ↔
      ∃ names, tree.file? names = some file.content ∧ file.path = joinSegments names ∧
        admitsPath options policy file.path = true := by
  rw [mem_walk_iff options policy proper]
  apply exists_congr
  intro names
  rw [ignoresBelow_of_bare bare options.respectGitignore (List.forall_mem_nil _) [] names, eq_self,
    and_true]

end

end FileTree

open FileTree in
/-- A walk yields, in strictly increasing order, the paths of the files that are admitted and that
no ignore file on the way leaves out. Without ignore files it yields the paths that are admitted. -/
theorem walk_eq_admitted (options : WalkOptions) (policy : ExclusionPolicy) {tree : FileTree}
    (proper : tree.IsProper) :
    let paths := (tree.walk options policy).map (·.path)
    paths.Pairwise (· < ·) ∧
      (∀ path, path ∈ paths ↔ admitsPath options policy path = true ∧
        ∃ names, (tree.file? names).isSome ∧ path = joinSegments names ∧
          tree.ignoresBelow options.respectGitignore [] [] names = false) ∧
      (tree.HasNoIgnoreFiles → ∀ path, path ∈ paths ↔
        tree.HasFileAt path ∧ admitsPath options policy path = true) := by
  have members : ∀ path, path ∈ (tree.walk options policy).map (·.path) ↔
      admitsPath options policy path = true ∧
        ∃ names, (tree.file? names).isSome ∧ path = joinSegments names ∧
          tree.ignoresBelow options.respectGitignore [] [] names = false := by
    intro path
    rw [List.mem_map]
    constructor
    · rintro ⟨file, member, rfl⟩
      rcases (mem_walk_iff options policy proper).mp member with
        ⟨names, isFile, path, admitted, kept⟩
      exact ⟨admitted, names, Option.isSome_of_eq_some isFile, path, kept⟩
    · rintro ⟨admitted, names, isFile, rfl, kept⟩
      rcases Option.isSome_iff_exists.mp isFile with ⟨content, found⟩
      exact ⟨⟨joinSegments names, content⟩,
        (mem_walk_iff options policy proper).mpr ⟨names, found, rfl, admitted, kept⟩, rfl⟩
  refine ⟨pairwise_walk options policy proper, members, ?_⟩
  intro bare path
  rw [members, HasFileAt, and_comm]
  apply and_congr_left
  intro admitted
  apply exists_congr
  intro names
  rw [ignoresBelow_of_bare bare options.respectGitignore (List.forall_mem_nil _) [] names, eq_self,
    and_true]

/-! ## Directories of files -/

namespace FileTree

/-- A directory that holds nothing but files. -/
def ofFiles (files : List (String × StoredBytes)) : FileTree :=
  .directory (files.map fun file => (file.1, .file file.2))

variable {files : List (String × StoredBytes)}

theorem lookup_entries_ofFiles (files : List (String × StoredBytes)) (name : String) :
    (ofFiles files).entries.lookup name = (files.lookup name).map .file := by
  unfold ofFiles entries
  induction files with
  | nil => rfl
  | cons file files induction =>
      rw [List.map_cons, List.lookup_cons, List.lookup_cons, induction]
      split <;> rfl

theorem find?_ofFiles (files : List (String × StoredBytes)) (name : String) (names : List String) :
    (ofFiles files).find? (name :: names) =
      if names = [] then (files.lookup name).map .file else none := by
  rw [find?, lookup_entries_ofFiles]
  cases files.lookup name with
  | none => exact (ite_self none).symm
  | some content =>
      cases names with
      | nil => rfl
      | cons next names => rfl

theorem file?_ofFiles (files : List (String × StoredBytes)) (name : String) (names : List String) :
    (ofFiles files).file? (name :: names) = if names = [] then files.lookup name else none := by
  rw [file?, find?_ofFiles]
  by_cases last : names = []
  · rw [if_pos last, if_pos last]
    cases files.lookup name <;> rfl
  · rw [if_neg last, if_neg last]

theorem isProper_ofFiles (named : ∀ file ∈ files, IsName file.1)
    (distinct : (files.map (·.1)).Nodup) : (ofFiles files).IsProper := by
  apply IsProper.directory
  · intro entry member
    rcases List.mem_map.mp member with ⟨file, isFile, rfl⟩
    exact named file isFile
  · rw [List.map_map]
    exact distinct
  · intro entry member
    rcases List.mem_map.mp member with ⟨file, -, rfl⟩
    exact .file file.2

theorem hasNoIgnoreFiles_ofFiles
    (others : ∀ file ∈ files, file.1 ≠ ".ignore" ∧ file.1 ≠ ".gitignore") :
    (ofFiles files).HasNoIgnoreFiles := by
  have missing : ∀ name, (∀ file ∈ files, file.1 ≠ name) → (ofFiles files).file? [name] = none := by
    intro name different
    have notThere : files.lookup name = none := by
      rw [List.lookup_eq_none_iff]
      intro file member
      exact bne_iff_ne.mpr (different file member).symm
    rw [file?_ofFiles, notThere]
    rfl
  intro place directory found
  cases place with
  | nil =>
      cases found
      refine ⟨missing _ fun file member => (others file member).1,
        missing _ fun file member => (others file member).2, ?_⟩
      rw [file?_ofFiles]
      rfl
  | cons name names =>
      rw [find?_ofFiles] at found
      split at found
      · rcases Option.map_eq_some_iff.mp found with ⟨content, -, rfl⟩
        exact ⟨rfl, rfl, rfl⟩
      · cases found

end FileTree

/-! ## A repository with rules of its own -/

def sampleWalkOptions : WalkOptions := ⟨2, [], ["rs"], [], true⟩

def sampleSources : List (String × FileTree) :=
  [("b.rs", .file ⟨ByteArray.empty, ⟨0⟩, true⟩), ("a.rs", .file ⟨ByteArray.empty, ⟨0⟩, true⟩)]

/-- Two files, one of which is excluded by rules that are kept with the repository. -/
def sampleRepository : FileTree :=
  let rules := FileTree.file ⟨"a.rs".toUTF8, ⟨0⟩, true⟩
  .directory ((".git", .directory [("info", .directory [("exclude", rules)])]) :: sampleSources)

def sampleContents : List (String × StoredBytes) :=
  [("b.rs", ⟨ByteArray.empty, ⟨0⟩, true⟩), ("a.rs", ⟨ByteArray.empty, ⟨0⟩, true⟩)]

theorem sampleSources_eq : FileTree.directory sampleSources = .ofFiles sampleContents := rfl

theorem isProper_sampleSources : (FileTree.directory sampleSources).IsProper := by
  have named : ∀ file ∈ sampleContents, file.1 ≠ "" ∧ '/' ∉ file.1.toList := by decide
  rw [sampleSources_eq]
  exact FileTree.isProper_ofFiles named (by decide)

theorem isProper_sampleRepository : sampleRepository.IsProper := by
  have single : ∀ (name : String) (tree : FileTree), FileTree.IsName name → tree.IsProper →
      (FileTree.directory [(name, tree)]).IsProper := by
    intro name tree named proper
    apply FileTree.IsProper.directory
    · intro entry member
      rw [List.mem_singleton.mp member]
      exact named
    · exact List.pairwise_singleton _ _
    · intro entry member
      rw [List.mem_singleton.mp member]
      exact proper
  cases isProper_sampleSources with
  | directory named distinct below =>
      apply FileTree.IsProper.directory
      · exact List.forall_mem_cons.mpr ⟨⟨by decide, by decide⟩, named⟩
      · decide
      · refine List.forall_mem_cons.mpr ⟨?_, below⟩
        exact single "info" _ ⟨by decide, by decide⟩
          (single "exclude" _ ⟨by decide, by decide⟩ (.file _))

theorem hasNoIgnoreFiles_sampleSources : (FileTree.directory sampleSources).HasNoIgnoreFiles := by
  rw [sampleSources_eq]
  exact FileTree.hasNoIgnoreFiles_ofFiles (by decide)

/-- Rules that are kept with the repository leave out a file whose path is admitted; without them
the walk finds it. -/
theorem walk_sampleRepository :
    let found := (sampleRepository.walk sampleWalkOptions fun _ _ => false).map (·.path)
    let foundWithout :=
      ((FileTree.directory sampleSources).walk sampleWalkOptions fun _ _ => false).map (·.path)
    admitsPath sampleWalkOptions (fun _ _ => false) "a.rs" = true ∧ "a.rs" ∉ found ∧
      "b.rs" ∈ found ∧ "a.rs" ∈ foundWithout := by
  rcases walk_eq_admitted sampleWalkOptions (fun _ _ => false) isProper_sampleRepository with
    ⟨-, members, -⟩
  rcases walk_eq_admitted sampleWalkOptions (fun _ _ => false) isProper_sampleSources with
    ⟨-, -, membersWithout⟩
  have admitted : admitsPath sampleWalkOptions (fun _ _ => false) "a.rs" = true := by decide
  refine ⟨admitted, ?_, ?_, ?_⟩
  · rw [members]
    rintro ⟨-, names, isFile, path, kept⟩
    have same : names = ["a.rs"] := by
      have named := isProper_sampleRepository.isName_of_file? isFile
      have isName : ∀ name ∈ ["a.rs"], FileTree.IsName name :=
        List.forall_mem_singleton.mpr ⟨by decide, by decide⟩
      exact joinSegments_injective named isName path.symm
    rw [same] at kept
    revert kept
    decide +kernel
  · rw [members]
    exact ⟨by decide, ["b.rs"], rfl, rfl, by decide +kernel⟩
  · rw [membersWithout hasNoIgnoreFiles_sampleSources]
    exact ⟨⟨["a.rs"], rfl, rfl⟩, admitted⟩

end SourceIndex
