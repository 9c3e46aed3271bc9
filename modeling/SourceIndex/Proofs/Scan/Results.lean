import SourceIndex.Proofs.Scan.Runs

/-! What is stored at each path behind a scan. It depends on nothing but the file that lies there
and what has been stored there before. -/

namespace SourceIndex

/-! ## Changes at single paths -/

namespace FileMap

variable {α : Type} {project : String} {pathOf : α → String} {step : FileMap → α → FileMap}
  {effect : α → Option IndexedFile → Option IndexedFile}

/-- Whether a step changes what is at one path of a project, by what has been there. -/
def IsLocal (project : String) (pathOf : α → String) (step : FileMap → α → FileMap)
    (effect : α → Option IndexedFile → Option IndexedFile) : Prop :=
  ∀ view item path, step view item project path =
    if path = pathOf item then effect item (view project path) else view project path

namespace IsLocal

theorem at_path (isLocal : IsLocal project pathOf step effect) (view : FileMap) (item : α) :
    step view item project (pathOf item) = effect item (view project (pathOf item)) := by
  rw [isLocal, if_pos rfl]

theorem elsewhere (isLocal : IsLocal project pathOf step effect) (view : FileMap) {item : α}
    {path : String} (different : pathOf item ≠ path) :
    step view item project path = view project path := by
  rw [isLocal, if_neg different.symm]

theorem foldl_elsewhere (isLocal : IsLocal project pathOf step effect) (items : List α)
    {path : String}
    (different : ∀ item ∈ items, pathOf item ≠ path) (view : FileMap) :
    items.foldl step view project path = view project path := by
  induction items generalizing view with
  | nil => rfl
  | cons item items induction =>
      have first := isLocal.elsewhere view (different item List.mem_cons_self)
      rw [List.foldl_cons, ← first]
      exact induction (fun other member => different other (List.mem_cons_of_mem _ member)) _

/-- An item that comes several times does what it does once, if no other one has its path. -/
theorem foldl_at (isLocal : IsLocal project pathOf step effect) {item : α}
    (again : ∀ entry, effect item (effect item entry) = effect item entry) (items : List α)
    (member : item ∈ items) (only : ∀ other ∈ items, pathOf other = pathOf item → other = item)
    (view : FileMap) :
    items.foldl step view project (pathOf item) = effect item (view project (pathOf item)) := by
  induction items generalizing view with
  | nil => exact absurd member List.not_mem_nil
  | cons first items induction =>
      have onlyLater : ∀ other ∈ items, pathOf other = pathOf item → other = item :=
        fun other member => only other (List.mem_cons_of_mem _ member)
      rw [List.foldl_cons]
      by_cases later : item ∈ items
      · rw [induction later onlyLater]
        by_cases same : pathOf first = pathOf item
        · rw [only first List.mem_cons_self same, isLocal.at_path, again]
        · rw [isLocal.elsewhere view same]
      · have isFirst : item = first := (List.mem_cons.mp member).resolve_right later
        have different : ∀ other ∈ items, pathOf other ≠ pathOf item := by
          intro other otherMember same
          rw [onlyLater other otherMember same] at otherMember
          exact later otherMember
        rw [isLocal.foldl_elsewhere items different, ← isFirst, isLocal.at_path]

end IsLocal

end FileMap

namespace Indexer

variable (indexer : Indexer) (stored : List FileState) (force : Bool)

/-! ## One file -/

/-- What an operation leaves at a path. One that the store refuses leaves what has been there. -/
def unlessRefused (operation : StoreOperation) (path : String)
    (change : Option IndexedFile → Option IndexedFile) (former : Option IndexedFile) :
    Option IndexedFile :=
  match indexer.gate.refuses operation path with
  | some _ => former
  | none => change former

/-- What a file that is to be indexed leaves at its path. -/
def persistEffect (file : WalkedFile) (former : Option IndexedFile) : Option IndexedFile :=
  match (indexer.outcomeOf stored force file).candidate? with
  | some candidate =>
    indexer.unlessRefused .persist file.path (fun _ => some (indexer.outlineOf candidate)) former
  | none => former

/-- What a file whose content has not changed leaves at its path. -/
def touchEffect (file : WalkedFile) (former : Option IndexedFile) : Option IndexedFile :=
  match (indexer.outcomeOf stored force file).touchTime? with
  | some time =>
    indexer.unlessRefused .touch file.path (Option.map fun file => { file with time }) former
  | none => former

/-- What a file leaves at its path, by what has become of it. -/
def outcomeEffect (path : String) (outcome : ReadOutcome) (former : Option IndexedFile) :
    Option IndexedFile :=
  match outcome with
  | .ready candidate =>
    indexer.unlessRefused .persist path (fun _ => some (indexer.outlineOf candidate)) former
  | .unchangedByContent time =>
    indexer.unlessRefused .touch path (Option.map fun file => { file with time }) former
  | _ => former

/-- What a file leaves at its path. -/
def effect (file : WalkedFile) (former : Option IndexedFile) : Option IndexedFile :=
  indexer.outcomeEffect file.path (indexer.outcomeOf stored force file) former

/-- No file is both indexed and touched, so what it leaves is what either leaves. -/
theorem effect_eq (file : WalkedFile) (former : Option IndexedFile) :
    indexer.effect stored force file former =
      indexer.persistEffect stored force file (indexer.touchEffect stored force file former) := by
  unfold effect outcomeEffect persistEffect touchEffect
  cases indexer.outcomeOf stored force file with
  | ready candidate => rfl
  | unchangedByContent time => rfl
  | unchangedByTime size => rfl
  | oversize => rfl
  | failed => rfl

theorem unlessRefused_again (operation : StoreOperation) (path : String)
    {change : Option IndexedFile → Option IndexedFile}
    (again : ∀ entry, change (change entry) = change entry) (former : Option IndexedFile) :
    indexer.unlessRefused operation path change
      (indexer.unlessRefused operation path change former) =
      indexer.unlessRefused operation path change former := by
  unfold unlessRefused
  cases indexer.gate.refuses operation path with
  | some error => rfl
  | none => exact again former

theorem persistEffect_again (file : WalkedFile) (former : Option IndexedFile) :
    indexer.persistEffect stored force file (indexer.persistEffect stored force file former) =
      indexer.persistEffect stored force file former := by
  unfold persistEffect
  cases (indexer.outcomeOf stored force file).candidate? with
  | none => rfl
  | some candidate =>
      apply indexer.unlessRefused_again
      exact fun entry => rfl

theorem touchEffect_again (file : WalkedFile) (former : Option IndexedFile) :
    indexer.touchEffect stored force file (indexer.touchEffect stored force file former) =
      indexer.touchEffect stored force file former := by
  unfold touchEffect
  cases (indexer.outcomeOf stored force file).touchTime? with
  | none => rfl
  | some time =>
      apply indexer.unlessRefused_again
      intro entry
      rw [Option.map_map]
      rfl

theorem effect_again (file : WalkedFile) (former : Option IndexedFile) :
    indexer.effect stored force file (indexer.effect stored force file former) =
      indexer.effect stored force file former := by
  unfold effect outcomeEffect
  cases indexer.outcomeOf stored force file with
  | ready candidate =>
      apply indexer.unlessRefused_again
      exact fun entry => rfl
  | unchangedByContent time =>
      apply indexer.unlessRefused_again
      intro entry
      rw [Option.map_map]
      rfl
  | unchangedByTime size => rfl
  | oversize => rfl
  | failed => rfl

/-! ## Batches -/

def persistStep (view : FileMap) (file : WalkedFile) : FileMap :=
  match (indexer.outcomeOf stored force file).candidate? with
  | some candidate => indexer.persistIn view (indexer.outlineOf candidate)
  | none => view

def touchStep (view : FileMap) (file : WalkedFile) : FileMap :=
  match (indexer.outcomeOf stored force file).touchTime? with
  | some time => indexer.touchIn view file.path time
  | none => view

theorem persistAllIn_candidatesOf (view : FileMap) (batch : List WalkedFile) :
    indexer.persistAllIn view ((indexer.candidatesOf stored force batch).map indexer.outlineOf) =
      batch.foldl (indexer.persistStep stored force) view := by
  induction batch generalizing view with
  | nil => rfl
  | cons file batch induction =>
      rw [List.foldl_cons, ← induction, candidatesOf, List.filterMap_cons, persistStep]
      cases (indexer.outcomeOf stored force file).candidate? with
      | none => rfl
      | some candidate => rfl

theorem touchAllIn_touchesOf (view : FileMap) (batch : List WalkedFile) :
    indexer.touchAllIn view (indexer.touchesOf stored force batch) =
      batch.foldl (indexer.touchStep stored force) view := by
  induction batch generalizing view with
  | nil => rfl
  | cons file batch induction =>
      rw [List.foldl_cons, ← induction, touchesOf, List.filterMap_cons, touchStep]
      cases (indexer.outcomeOf stored force file).touchTime? with
      | none => rfl
      | some time => rfl

theorem batchIn_eq_foldl (view : FileMap) (batch : List WalkedFile) :
    indexer.batchIn stored force view batch =
      batch.foldl (indexer.persistStep stored force)
        (batch.foldl (indexer.touchStep stored force) view) := by
  rw [batchIn, persistAllIn_candidatesOf, touchAllIn_touchesOf]

theorem isLocal_persistStep : FileMap.IsLocal indexer.project WalkedFile.path
    (indexer.persistStep stored force) (indexer.persistEffect stored force) := by
  intro view file path
  unfold persistStep persistEffect
  cases isReady : (indexer.outcomeOf stored force file).candidate? with
  | none => simp only [ite_self]
  | some candidate =>
      have samePath : (indexer.outlineOf candidate).path = file.path := by
        rw [path_outlineOf, indexer.candidate?_outcomeOf isReady]
        rfl
      simp only
      unfold persistIn unlessRefused
      rw [samePath]
      cases indexer.gate.refuses .persist file.path with
      | some error => simp only [ite_self]
      | none => simp only [FileMap.persist, FileMap.set, samePath, true_and]

theorem isLocal_touchStep : FileMap.IsLocal indexer.project WalkedFile.path
    (indexer.touchStep stored force) (indexer.touchEffect stored force) := by
  intro view file path
  unfold touchStep touchEffect
  cases (indexer.outcomeOf stored force file).touchTime? with
  | none => simp only [ite_self]
  | some time =>
      simp only
      unfold touchIn unlessRefused
      cases indexer.gate.refuses .touch file.path with
      | some error => simp only [ite_self]
      | none =>
          simp only [FileMap.touch, FileMap.set, true_and]
          split
          · next same => rw [same]
          · rfl

variable {files : List WalkedFile}

/-- Files none of which lies at a path change nothing there. -/
theorem batchIn_elsewhere {path : String} (different : ∀ file ∈ files, file.path ≠ path)
    (view : FileMap) :
    indexer.batchIn stored force view files indexer.project path = view indexer.project path := by
  rw [batchIn_eq_foldl, (indexer.isLocal_persistStep stored force).foldl_elsewhere files different,
    (indexer.isLocal_touchStep stored force).foldl_elsewhere files different]

theorem batchIn_at {file : WalkedFile} (member : file ∈ files)
    (only : ∀ other ∈ files, other.path = file.path → other = file) (view : FileMap) :
    indexer.batchIn stored force view files indexer.project file.path =
      indexer.effect stored force file (view indexer.project file.path) := by
  rw [batchIn_eq_foldl,
    (indexer.isLocal_persistStep stored force).foldl_at
    (indexer.persistEffect_again stored force file)
      files member only,
    (indexer.isLocal_touchStep stored force).foldl_at (indexer.touchEffect_again stored force file)
      files member only, effect_eq]

/-! ## Whole trees -/

theorem foldl_batchIn_elsewhere (parts : List (List WalkedFile)) {path : String}
    (different : ∀ file ∈ parts.flatten, file.path ≠ path) (view : FileMap) :
    parts.foldl (indexer.batchIn stored force) view indexer.project path =
      view indexer.project path := by
  induction parts generalizing view with
  | nil => rfl
  | cons part parts induction =>
      rw [List.flatten_cons] at different
      have here : ∀ file ∈ part, file.path ≠ path :=
        fun file member => different file (List.mem_append_left _ member)
      rw [List.foldl_cons, induction fun file member =>
        different file (List.mem_append_right _ member)]
      exact indexer.batchIn_elsewhere stored force here view

theorem processIn_elsewhere {path : String} (different : ∀ file ∈ files, file.path ≠ path)
    (view : FileMap) :
    indexer.processIn stored force view files indexer.project path = view indexer.project path := by
  apply indexer.foldl_batchIn_elsewhere
  rwa [flatten_batches (batchSize_pos indexer.config.scan files.length) files]

/-- Into which batch a file comes, and what else there is in the batch, makes no difference. -/
theorem processIn_at {file : WalkedFile} (member : file ∈ files)
    (only : ∀ other ∈ files, other.path = file.path → other = file) (view : FileMap) :
    indexer.processIn stored force view files indexer.project file.path =
      indexer.effect stored force file (view indexer.project file.path) := by
  have all : ∀ (parts : List (List WalkedFile)), file ∈ parts.flatten →
      (∀ other ∈ parts.flatten, other.path = file.path → other = file) →
      ∀ view : FileMap, parts.foldl (indexer.batchIn stored force) view indexer.project file.path =
        indexer.effect stored force file (view indexer.project file.path) := by
    intro parts
    induction parts with
    | nil => exact fun member _ _ => absurd member List.not_mem_nil
    | cons part parts induction =>
        intro member only view
        rw [List.flatten_cons] at member only
        have onlyHere : ∀ other ∈ part, other.path = file.path → other = file :=
          fun other member => only other (List.mem_append_left _ member)
        have onlyLater : ∀ other ∈ parts.flatten, other.path = file.path → other = file :=
          fun other member => only other (List.mem_append_right _ member)
        have absent : ∀ others : List WalkedFile, file ∉ others →
            (∀ other ∈ others, other.path = file.path → other = file) →
            ∀ other ∈ others, other.path ≠ file.path := by
          intro others notMember only other otherMember same
          exact notMember (only other otherMember same ▸ otherMember)
        rw [List.foldl_cons]
        by_cases later : file ∈ parts.flatten
        · rw [induction later onlyLater]
          by_cases here : file ∈ part
          · rw [indexer.batchIn_at stored force here onlyHere, effect_again]
          · rw [indexer.batchIn_elsewhere stored force (absent part here onlyHere)]
        · have here : file ∈ part := (List.mem_append.mp member).resolve_right later
          rw [indexer.foldl_batchIn_elsewhere stored force parts
            (absent parts.flatten later onlyLater), indexer.batchIn_at stored force here onlyHere]
  unfold processIn
  rw [all]
  · rwa [flatten_batches (batchSize_pos indexer.config.scan files.length) files]
  · rwa [flatten_batches (batchSize_pos indexer.config.scan files.length) files]

/-! ## Paths at which there is no file -/

/-- What removing a path leaves there. -/
def removeEffect (path : String) (former : Option IndexedFile) : Option IndexedFile :=
  indexer.unlessRefused .remove path (fun _ => none) former

theorem isLocal_removeIn :
    FileMap.IsLocal indexer.project id indexer.removeIn indexer.removeEffect := by
  intro view path otherPath
  unfold removeIn removeEffect unlessRefused
  cases indexer.gate.refuses .remove path with
  | some error => simp only [ite_self]
  | none => simp only [FileMap.remove, FileMap.set, true_and, id]

theorem removeAllIn_elsewhere {paths : List String} {path : String} (notMember : path ∉ paths)
    (view : FileMap) :
    indexer.removeAllIn view paths indexer.project path = view indexer.project path := by
  apply indexer.isLocal_removeIn.foldl_elsewhere
  rintro other member rfl
  exact notMember member

theorem removeAllIn_at {paths : List String} {path : String} (member : path ∈ paths)
    (view : FileMap) : indexer.removeAllIn view paths indexer.project path =
      indexer.removeEffect path (view indexer.project path) := by
  refine indexer.isLocal_removeIn.foldl_at ?_ paths member (fun _ _ same => same) view
  intro entry
  apply indexer.unlessRefused_again
  exact fun entry => rfl

/-! ## Scans -/

theorem mem_missingFrom {path : String} : path ∈ missingFrom stored files ↔
    (recordOf? stored path).isSome ∧ ∀ file ∈ files, file.path ≠ path := by
  have isStored : path ∈ stored.map (·.path) ↔ (recordOf? stored path).isSome := by
    rw [List.mem_map, recordOf?, List.find?_isSome]
    simp only [beq_iff_eq]
  unfold missingFrom
  rw [List.mem_mergeSort, List.mem_filter, isStored]
  apply and_congr_right
  intro _
  rw [Bool.not_eq_true', List.contains_eq_mem, decide_eq_false_iff_not, List.mem_map]
  constructor
  · exact fun absent file member same => absent ⟨file, member, same⟩
  · rintro different ⟨file, member, same⟩
    exact different file member same

/-- At the path of a file that a scan comes upon, nothing but that file counts. -/
theorem scanIn_at {file : WalkedFile} (member : file ∈ files)
    (only : ∀ other ∈ files, other.path = file.path → other = file) (view : FileMap) :
    indexer.scanIn stored force view files indexer.project file.path =
      indexer.effect stored force file (view indexer.project file.path) := by
  have processed := indexer.processIn_at stored force member only view
  unfold scanIn
  split
  · rw [indexer.removeAllIn_elsewhere, processed]
    rw [mem_missingFrom]
    exact fun missing => missing.2 file member rfl
  · exact processed

/-- At any other path nothing stays stored if a scan removes what is missing. -/
theorem scanIn_elsewhere {path : String} (different : ∀ file ∈ files, file.path ≠ path)
    {view : FileMap} (recorded : recordOf? stored path =
      (view indexer.project path).map IndexedFile.state)
    (prunes : indexer.config.scan.pruneMissing = true) :
    indexer.scanIn stored force view files indexer.project path =
      indexer.removeEffect path (view indexer.project path) := by
  have processed := indexer.processIn_elsewhere stored force different view
  unfold scanIn
  rw [if_pos prunes]
  by_cases missing : path ∈ missingFrom stored files
  · rw [indexer.removeAllIn_at missing, processed]
  · have notStored : view indexer.project path = none := by
      rw [mem_missingFrom, recorded, Option.isSome_map] at missing
      cases there : view indexer.project path with
      | none => rfl
      | some file =>
          rw [there] at missing
          exact absurd ⟨rfl, different⟩ missing
    rw [indexer.removeAllIn_elsewhere missing, processed, notStored]
    unfold removeEffect unlessRefused
    cases indexer.gate.refuses .remove path with
    | some error => rfl
    | none => rfl

end Indexer

end SourceIndex
