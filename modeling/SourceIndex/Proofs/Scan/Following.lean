import SourceIndex.Proofs.Scan.Finishing
import SourceIndex.Proofs.Scan.Reflection
import SourceIndex.Proofs.Scan.Standing

/-! Indexing just the paths at which a tree has changed leaves the same as scanning the whole tree,
once a scan has brought the store in step with the tree as it was before. -/

namespace SourceIndex

namespace Indexer

variable {indexer : Indexer} {source : FileSource} {finishes : Candidate → IndexedFile → Prop}
  {stored : List FileState} {force : Bool} {file : WalkedFile} {former : Option StoredEntry}
  {store : Store} {disk tree : FileTree} {root : List String}

/-! ## What is left is certain -/

theorem LeavesAt.unique {finish : Candidate → IndexedFile} {outcome : ReadOutcome}
    {left other : Option StoredEntry}
    (leaves : indexer.LeavesAt (fun candidate finished => finished = finish candidate) file former
      outcome left)
    (otherLeaves : indexer.LeavesAt (fun candidate finished => finished = finish candidate) file
      former outcome other) : left = other := by
  cases leaves with
  | ready isFinished =>
      cases otherLeaves with
      | ready otherFinished => rw [isFinished, otherFinished]
  | unchangedByContent time => cases otherLeaves; rfl
  | unchangedByTime size => cases otherLeaves; rfl
  | oversize => cases otherLeaves; rfl
  | failed => cases otherLeaves; rfl

theorem LeavesAt.eq_former {outcome : ReadOutcome} {left : Option StoredEntry}
    (leaves : indexer.LeavesAt finishes file former outcome left)
    (idle : outcome.changesNothing = true) : left = former := by
  cases leaves with
  | ready _ => cases idle
  | unchangedByContent _ => cases idle
  | unchangedByTime _ | oversize | failed => rfl

/-! ## Files for which nothing is left to be done -/

/-- Whether a file is too large, cannot be read, or is not later than what is stored of it. -/
def IsSettled (indexer : Indexer) (file : WalkedFile) (entryAt? : Option StoredEntry) : Prop :=
  file.content.bytes.size > indexer.config.scan.maxFileBytes ∨ file.content.isReadable = false ∨
    ∃ entry, entryAt? = some entry ∧ file.content.time.isLaterThan entry.file.time = false

theorem isLaterThan_self (time : FileTime) : time.isLaterThan time = false :=
  decide_eq_false (Int.lt_irrefl _)

theorem settledByTime_some {state : FileState} {time : FileTime} :
    Detection.settledByTime force (some state) time = true ↔
      force = false ∧ time.isLaterThan state.time = false := by
  rw [Detection.settledByTime, Bool.and_eq_true, Bool.not_eq_true', Bool.not_eq_true']

@[simp] theorem time_outlineOf (candidate : Candidate) :
    (indexer.outlineOf candidate).time = candidate.time := by
  unfold outlineOf analyzeFile
  split
  · rfl
  · rfl

/-- What has been worked off is settled. -/
theorem LeavesAt.isSettled (outlines : ∀ candidate finished, finishes candidate finished →
      finished.bare = indexer.outlineOf candidate)
    (recorded : recordOf? stored file.path = former.map (·.file.state)) {left : Option StoredEntry}
    (leaves : indexer.LeavesAt finishes file former (indexer.outcomeOf stored force file) left) :
    indexer.IsSettled file left := by
  rw [outcomeOf, Candidate.read_eq, recorded] at leaves
  split at leaves
  · next large => exact .inl large
  · split at leaves
    · next settled =>
        cases leaves
        cases former with
        | none => cases settled
        | some entry =>
            refine .inr (.inr ⟨entry, rfl, ?_⟩)
            exact settledByTime_some.mp settled |>.2
    · split at leaves
      · next unreadable => exact .inr (.inl unreadable)
      · split at leaves
        · next unchanged =>
            cases leaves
            cases former with
            | none => cases unchanged
            | some entry => exact .inr (.inr ⟨_, rfl, isLaterThan_self _⟩)
        · cases leaves with
          | ready isFinished =>
              refine .inr (.inr ⟨_, rfl, ?_⟩)
              have time := congrArg IndexedFile.time (outlines _ _ isFinished)
              rw [time_outlineOf] at time
              exact (congrArg _ time).trans (isLaterThan_self _)

/-- For what is settled there is nothing to be done unless it is forced. -/
theorem changesNothing_of_isSettled (recorded : recordOf? stored file.path =
      former.map (·.file.state)) (settled : indexer.IsSettled file former) :
    (indexer.outcomeOf stored false file).changesNothing = true := by
  rw [outcomeOf, Candidate.read_eq, recorded]
  split
  · rfl
  · next small =>
      split
      · rfl
      · next later =>
          split
          · rfl
          · next reads =>
              rcases settled with large | unreadable | ⟨entry, rfl, notLater⟩
              · exact absurd large small
              · exact absurd unreadable reads
              · refine absurd ?_ later
                exact settledByTime_some.mpr ⟨rfl, notLater⟩

/-! ## Stores that are in step -/

/-- Whether a store is in step with a disk: there is nothing to be done for the files that a walk
finds, and nothing is stored of others. -/
structure IsInStep (indexer : Indexer) (store : Store) (disk : FileTree) : Prop where
  settled : ∀ file ∈ indexer.filesOn disk,
    indexer.IsSettled file (store.entryAt? indexer.project file.path)
  nowhere : ∀ path, (∀ file ∈ indexer.filesOn disk, file.path ≠ path) →
    store.entryAt? indexer.project path = none

/-- A scan that prunes brings the store in step. -/
theorem IsReady.isInStep_scan (ready : indexer.IsReady source finishes) (proper : disk.IsProper)
    (isThere : (indexer.rootTree? disk).isSome)
    (supplied : indexer.Supplies source (indexer.filesOn disk)) (mode : ScanMode)
    {state : IndexState} (sound : state.store.IsSound) (spares : state.store.Spares source)
    (prunes : indexer.config.scan.pruneMissing = true) :
    indexer.IsInStep (indexer.scan disk mode state).2.store disk where
  settled file member := by
    have leaves := ready.leavesAt_scan proper isThere supplied mode sound spares member
    exact leaves.isSettled ready.outlines (state.store.find?_states_entry _ _)
  nowhere path nowhere :=
    ready.entryAt?_scan_eq_none proper isThere supplied mode sound spares prunes nowhere

/-! ## Paths at which a tree has changed -/

/-- Whether an indexer finds a tree at its root that has no ignore files. -/
structure FindsBare (indexer : Indexer) (disk tree : FileTree) : Prop where
  proper : disk.IsProper
  isThere : indexer.rootTree? disk = some tree
  bare : tree.HasNoIgnoreFiles

/-- The files on a disk are those of its tree whose paths are admitted. -/
theorem FindsBare.mem_filesOn (finds : indexer.FindsBare disk tree) :
    file ∈ indexer.filesOn disk ↔ ∃ names, tree.file? names = some file.content ∧
      file.path = joinSegments names ∧
      admitsPath indexer.options indexer.policy file.path = true := by
  rw [filesOn, finds.isThere]
  exact FileTree.mem_walk_iff_of_bare _ _ (isProper_rootTree finds.proper finds.isThere) finds.bare

/-- Whether a tree has become another one by changes at some places, none of which is a directory
now, and some paths spell these places. -/
structure IsChangedAt (root : List String) (tree changed : FileTree) (places : List (List String))
    (paths : List String) : Prop where
  plain : ∀ names ∈ places, ∀ name ∈ names, FileTree.IsPlain name
  spelled : List.Forall₂ (Spells root) places paths
  noDirectory : ∀ names ∈ places, ∀ entries, changed.find? names ≠ some (.directory entries)
  same : ∀ names, names ∉ places → changed.file? names = tree.file? names

/-- What a path stands for that leads to a place where there is a file or nothing. -/
def standingAt (indexer : Indexer) (tree : FileTree) (names : List String) : PathStanding :=
  let path := joinSegments names
  if admitsPath indexer.options indexer.policy path then
    match tree.file? names with
    | some content => .present ⟨path, content⟩
    | none => .gone path
  else .passedOver

theorem standingAt_eq_present {names : List String} :
    indexer.standingAt tree names = .present file ↔
      tree.file? names = some file.content ∧ file.path = joinSegments names ∧
        admitsPath indexer.options indexer.policy file.path = true := by
  unfold standingAt
  simp only
  split
  · next admitted =>
      constructor
      · intro present
        split at present
        · next content found =>
            cases present
            exact ⟨found, rfl, admitted⟩
        · cases present
      · rintro ⟨found, path, -⟩
        rw [found, ← path]
  · next excluded =>
      constructor
      · exact nofun
      · rintro ⟨-, path, admitted⟩
        exact absurd (path ▸ admitted) excluded

theorem standingAt_eq_gone {names : List String} {path : String} :
    indexer.standingAt tree names = .gone path ↔
      tree.file? names = none ∧ path = joinSegments names ∧
        admitsPath indexer.options indexer.policy path = true := by
  unfold standingAt
  simp only
  split
  · next admitted =>
      constructor
      · intro gone
        split at gone
        · cases gone
        · next missing =>
            cases gone
            exact ⟨missing, rfl, admitted⟩
      · rintro ⟨missing, path, -⟩
        rw [missing, ← path]
  · next excluded =>
      constructor
      · exact nofun
      · rintro ⟨-, path, admitted⟩
        exact absurd (path ▸ admitted) excluded

section

variable {changed : FileTree} {places : List (List String)} {paths : List String}
  (rooted : indexer.IsRootedAt root) (isThere : indexer.rootTree? disk = some changed)
  (changes : IsChangedAt root tree changed places paths)

include rooted isThere changes

theorem standing_of_changed {names : List String} (member : names ∈ places) {path : String}
    (spelled : Spells root names path) :
    indexer.standing disk path = indexer.standingAt changed names := by
  have isDirectory : ∃ entries, changed = .directory entries := by
    unfold rootTree? at isThere
    split at isThere
    · next entries found => exact ⟨entries, (Option.some.inj isThere).symm⟩
    · cases isThere
  rcases isDirectory with ⟨entries, rfl⟩
  have below : names ≠ [] := by
    rintro rfl
    exact changes.noDirectory [] member entries rfl
  have noDirectory := changes.noDirectory names member
  rw [standing_of_spells rooted isThere (changes.plain names member) below spelled, standingAt,
    FileTree.file?]
  cases found : (FileTree.directory entries).find? names with
  | none => rfl
  | some what =>
      cases what with
      | file content => rfl
      | directory inner => exact absurd found (noDirectory inner)

/-- The paths stand for what there is at the places. -/
theorem mem_standings {standing : PathStanding} :
    standing ∈ paths.map (indexer.standing disk) ↔
      ∃ names ∈ places, indexer.standingAt changed names = standing := by
  rw [List.mem_map]
  constructor
  · rintro ⟨path, member, rfl⟩
    rcases exists_of_mem_right changes.spelled member with ⟨names, isPlace, spelled⟩
    exact ⟨names, isPlace, (standing_of_changed rooted isThere changes isPlace spelled).symm⟩
  · rintro ⟨names, isPlace, rfl⟩
    rcases exists_of_mem_right changes.spelled.flip isPlace with ⟨path, member, spelled⟩
    exact ⟨path, member, standing_of_changed rooted isThere changes isPlace spelled⟩

/-- The files that are indexed are those that lie at the places now. -/
theorem mem_filesAt : file ∈ indexer.filesAt disk paths ↔
    ∃ names ∈ places, changed.file? names = some file.content ∧
      file.path = joinSegments names ∧
      admitsPath indexer.options indexer.policy file.path = true := by
  have present : ∀ file, .present file ∈ paths.map (indexer.standing disk) ↔
      ∃ names ∈ places, changed.file? names = some file.content ∧
        file.path = joinSegments names ∧
        admitsPath indexer.options indexer.policy file.path = true := by
    intro file
    rw [mem_standings rooted isThere changes]
    simp only [standingAt_eq_present]
  constructor
  · exact fun member => (present file).mp (present_of_mem_presentFiles member)
  · intro placed
    rcases exists_mem_presentFiles ((present file).mpr placed) with ⟨kept, isKept, samePath⟩
    rcases placed with ⟨names, isPlace, found, path, -⟩
    rcases (present kept).mp (present_of_mem_presentFiles isKept) with
      ⟨others, isOther, otherFound, otherPath, -⟩
    -- The file that is kept lies at the same place.
    have sameNames : others = names := by
      apply joinSegments_injective
      · exact fun name member => (changes.plain others isOther name member).1
      · exact fun name member => (changes.plain names isPlace name member).1
      · rw [← otherPath, samePath, path]
    have sameContent : kept.content = file.content := by
      rw [sameNames, found] at otherFound
      exact (Option.some.inj otherFound).symm
    have same : kept = file := by
      cases kept
      cases file
      cases samePath
      cases sameContent
      rfl
    rwa [← same]

/-- The paths that are removed are those of the places where there is nothing now. -/
theorem mem_gonePaths_iff {path : String} :
    path ∈ gonePaths (paths.map (indexer.standing disk)) ↔
      ∃ names ∈ places, changed.file? names = none ∧ path = joinSegments names ∧
        admitsPath indexer.options indexer.policy path = true := by
  rw [mem_gonePaths, mem_standings rooted isThere changes]
  simp only [standingAt_eq_gone]

end

/-! ## Indexing single paths -/

/-- A store that accepts everything is brought in line with all paths. -/
theorem IsReady.store_indexPaths (ready : indexer.IsReady source finishes)
    (isThere : (indexer.rootTree? disk).isSome) (paths : List String) (state : IndexState) :
    let left := indexer.gate.performAll state.store
      (indexer.removeCalls (gonePaths (paths.map (indexer.standing disk))))
    (indexer.indexPaths disk paths state).2.store = indexer.gate.performAll left
      (indexer.fileCalls (left.states indexer.project) false (indexer.filesAt disk paths)) := by
  exact indexer.store_indexPaths_of_accepted isThere (ready.accepts .load "")
    (fun path _ => ready.accepts .remove path) state

section

variable (ready : indexer.IsReady source finishes) (isThere : (indexer.rootTree? disk).isSome)
  {paths : List String} (supplied : indexer.Supplies source (indexer.filesAt disk paths))
  {state : IndexState} (sound : state.store.IsSound) (spares : state.store.Spares source)

include ready isThere supplied sound spares

/-- What indexing single paths leaves at the path of a file that is there. -/
theorem IsReady.leavesAt_indexPaths {file : WalkedFile}
    (member : file ∈ indexer.filesAt disk paths)
    (notGone : file.path ∉ gonePaths (paths.map (indexer.standing disk))) :
    indexer.LeavesAt finishes file (state.store.entryAt? indexer.project file.path)
      (indexer.outcomeOf (state.store.states indexer.project) false file)
      ((indexer.indexPaths disk paths state).2.store.entryAt? indexer.project file.path) := by
  rw [ready.store_indexPaths isThere paths state]
  generalize gonePaths (paths.map (indexer.standing disk)) = gone at notGone ⊢
  let left := indexer.gate.performAll state.store (indexer.removeCalls gone)
  have kept : left.entryAt? indexer.project file.path =
      state.store.entryAt? indexer.project file.path := by
    rw [entryAt?_removeCalls (fun path _ => ready.accepts .remove path) sound,
      if_neg fun both => notGone both.2]
  have sameOutcome : indexer.outcomeOf (left.states indexer.project) false file =
      indexer.outcomeOf (state.store.states indexer.project) false file := by
    rw [outcomeOf, outcomeOf, Store.find?_states_entry, Store.find?_states_entry, kept]
  have leftSound : left.IsSound := indexer.gate.isSound_performAll sound _
  have leftSpares : left.Spares source :=
    StoreGate.spares_performAll ready.isApart (comesFrom_removeCalls source gone) sound spares
  have leaves : indexer.LeavesAt finishes file (left.entryAt? indexer.project file.path)
      (indexer.outcomeOf (left.states indexer.project) false file)
      ((indexer.gate.performAll left (indexer.fileCalls (left.states indexer.project) false
        (indexer.filesAt disk paths))).entryAt? indexer.project file.path) :=
    ready.leavesAt supplied (nodup_presentFiles _) leftSound leftSpares member
  rwa [kept, sameOutcome] at leaves

/-- What indexing single paths leaves at any other path: nothing if it is gone. -/
theorem IsReady.entryAt?_indexPaths_elsewhere {project path : String}
    (nowhere : ∀ file ∈ indexer.filesAt disk paths,
      (indexer.project, file.path) ≠ (project, path)) :
    (indexer.indexPaths disk paths state).2.store.entryAt? project path =
      if project = indexer.project ∧ path ∈ gonePaths (paths.map (indexer.standing disk)) then none
      else state.store.entryAt? project path := by
  rw [ready.store_indexPaths isThere paths state]
  generalize gonePaths (paths.map (indexer.standing disk)) = gone
  let left := indexer.gate.performAll state.store (indexer.removeCalls gone)
  have leftSound : left.IsSound := indexer.gate.isSound_performAll sound _
  have leftSpares : left.Spares source :=
    StoreGate.spares_performAll ready.isApart (comesFrom_removeCalls source gone) sound spares
  rw [ready.entryAt?_elsewhere supplied (nodup_presentFiles _) leftSound leftSpares nowhere,
    entryAt?_removeCalls (fun path _ => ready.accepts .remove path) sound]

end

/-! ## Following a tree -/

section

variable {changed before after : FileTree} {places : List (List String)} {paths : List String}
  (rooted : indexer.IsRootedAt root) (finds : indexer.FindsBare before tree)
  (findsChanged : indexer.FindsBare after changed)
  (changes : IsChangedAt root tree changed places paths)

include rooted findsChanged changes

/-- The files that are indexed are among those that a scan comes upon. -/
theorem mem_filesOn_of_mem_filesAt (member : file ∈ indexer.filesAt after paths) :
    file ∈ indexer.filesOn after := by
  rcases (mem_filesAt rooted findsChanged.isThere changes).mp member with ⟨names, -, placed⟩
  exact findsChanged.mem_filesOn.mpr ⟨names, placed⟩

/-- A path that is gone is not that of a file. -/
theorem not_mem_gonePaths (member : file ∈ indexer.filesOn after) :
    file.path ∉ gonePaths (paths.map (indexer.standing after)) := by
  intro gone
  rcases findsChanged.mem_filesOn.mp member with ⟨names, found, path, -⟩
  rcases (mem_gonePaths_iff rooted findsChanged.isThere changes).mp gone with
    ⟨others, isOther, missing, otherPath, -⟩
  have proper := isProper_rootTree findsChanged.proper findsChanged.isThere
  have same : others = names := by
    apply joinSegments_injective
    · exact fun name isName => (changes.plain others isOther name isName).1
    · exact proper.isName_of_file? (Option.isSome_of_eq_some found)
    · rw [← otherPath, path]
  rw [same] at missing
  exact nomatch missing.symm.trans found

include finds

/-- A file that is not among those that are indexed is as it was before. -/
theorem mem_filesOn_of_not_mem_filesAt (member : file ∈ indexer.filesOn after)
    (notListed : file ∉ indexer.filesAt after paths) : file ∈ indexer.filesOn before := by
  rcases findsChanged.mem_filesOn.mp member with ⟨names, found, path, admitted⟩
  apply finds.mem_filesOn.mpr
  refine ⟨names, ?_, path, admitted⟩
  rw [← changes.same names, found]
  intro isPlace
  exact notListed ((mem_filesAt rooted findsChanged.isThere changes).mpr
    ⟨names, isPlace, found, path, admitted⟩)

/-- A file that was there before is still there, at least with its path, or gone. -/
theorem exists_or_gone (member : file ∈ indexer.filesOn before) :
    (∃ other ∈ indexer.filesOn after, other.path = file.path) ∨
      file.path ∈ gonePaths (paths.map (indexer.standing after)) := by
  rcases finds.mem_filesOn.mp member with ⟨names, found, path, admitted⟩
  by_cases isPlace : names ∈ places
  · cases there : changed.file? names with
    | none =>
        right
        exact (mem_gonePaths_iff rooted findsChanged.isThere changes).mpr
          ⟨names, isPlace, there, path, admitted⟩
    | some content =>
        left
        exact ⟨⟨file.path, content⟩,
          findsChanged.mem_filesOn.mpr ⟨names, there, path, admitted⟩, rfl⟩
  · left
    rw [← changes.same names isPlace] at found
    exact ⟨file, findsChanged.mem_filesOn.mpr ⟨names, found, path, admitted⟩, rfl⟩

section

variable {finish : Candidate → IndexedFile}
  (ready : indexer.IsReady source fun candidate finished => finished = finish candidate)
  (supplied : indexer.Supplies source (indexer.filesOn after)) {state : IndexState}
  (sound : state.store.IsSound) (spares : state.store.Spares source)
  (inStep : indexer.IsInStep state.store before)

include finds ready supplied sound spares inStep

/-- At the path of a file that is there, indexing the changed paths leaves what a scan leaves. -/
theorem IsReady.entryAt?_indexPaths_eq_scan_of_mem (member : file ∈ indexer.filesOn after) :
    (indexer.indexPaths after paths state).2.store.entryAt? indexer.project file.path =
      (indexer.scan after .incremental state).2.store.entryAt? indexer.project file.path := by
  have isThere : (indexer.rootTree? after).isSome := Option.isSome_of_eq_some findsChanged.isThere
  have within : ∀ other ∈ indexer.filesAt after paths, other ∈ indexer.filesOn after :=
    fun other listed => mem_filesOn_of_mem_filesAt rooted findsChanged changes listed
  have atSupplied : indexer.Supplies source (indexer.filesAt after paths) :=
    fun other listed => supplied other (within other listed)
  have notGone := not_mem_gonePaths rooted findsChanged changes member
  have scanned := ready.leavesAt_scan findsChanged.proper isThere supplied .incremental sound
    spares member
  by_cases listed : file ∈ indexer.filesAt after paths
  · -- Both runs work off the file, and find the same stored of it.
    exact (ready.leavesAt_indexPaths isThere atSupplied sound spares listed notGone).unique scanned
  · -- The scan finds nothing to be done for the file.
    have isBefore := mem_filesOn_of_not_mem_filesAt rooted finds findsChanged changes member listed
    have idle := changesNothing_of_isSettled (state.store.find?_states_entry _ _)
      (inStep.settled file isBefore)
    rw [scanned.eq_former idle,
      ready.entryAt?_indexPaths_elsewhere isThere atSupplied sound spares,
      if_neg fun both => notGone both.2]
    intro other otherMember same
    have sameFile := eq_of_mem_filesOn findsChanged.proper member (within other otherMember)
      (Prod.mk.inj same).2
    rw [sameFile] at otherMember
    exact listed otherMember

/-- Where no file is there, neither of them leaves anything. -/
theorem IsReady.entryAt?_indexPaths_eq_none {path : String}
    (nowhere : ∀ file ∈ indexer.filesOn after, file.path ≠ path) :
    (indexer.indexPaths after paths state).2.store.entryAt? indexer.project path = none := by
  have isThere : (indexer.rootTree? after).isSome := Option.isSome_of_eq_some findsChanged.isThere
  have within : ∀ file ∈ indexer.filesAt after paths, file ∈ indexer.filesOn after :=
    fun file listed => mem_filesOn_of_mem_filesAt rooted findsChanged changes listed
  rw [ready.entryAt?_indexPaths_elsewhere isThere
    (fun file listed => supplied file (within file listed)) sound spares]
  · split
    · rfl
    · next kept =>
        apply inStep.nowhere
        rintro file member rfl
        rcases exists_or_gone rooted finds findsChanged changes member with
          ⟨other, otherMember, same⟩ | gone
        · exact nowhere other otherMember same
        · exact kept ⟨rfl, gone⟩
  · intro file listed same
    exact nowhere file (within file listed) (Prod.mk.inj same).2

/-- Once a store is in step with a disk, indexing the paths at which the tree on it has changed
leaves at every path what a scan leaves. -/
theorem IsReady.entryAt?_indexPaths_eq_scan (prunes : indexer.config.scan.pruneMissing = true)
    (project path : String) :
    (indexer.indexPaths after paths state).2.store.entryAt? project path =
      (indexer.scan after .incremental state).2.store.entryAt? project path := by
  have isThere : (indexer.rootTree? after).isSome := Option.isSome_of_eq_some findsChanged.isThere
  by_cases sameProject : project = indexer.project
  · subst sameProject
    by_cases walked : ∃ file ∈ indexer.filesOn after, file.path = path
    · rcases walked with ⟨file, member, rfl⟩
      exact ready.entryAt?_indexPaths_eq_scan_of_mem rooted finds findsChanged changes supplied
        sound spares inStep member
    · have nowhere : ∀ file ∈ indexer.filesOn after, file.path ≠ path :=
        fun file member same => walked ⟨file, member, same⟩
      rw [ready.entryAt?_scan_eq_none findsChanged.proper isThere supplied .incremental sound
          spares prunes nowhere,
        ready.entryAt?_indexPaths_eq_none rooted finds findsChanged changes supplied sound spares
          inStep nowhere]
  · rw [ready.entryAt?_scan_other findsChanged.proper isThere supplied .incremental sound spares
        sameProject,
      ready.entryAt?_indexPaths_elsewhere isThere (fun file listed => supplied file
        (mem_filesOn_of_mem_filesAt rooted findsChanged changes listed)) sound spares,
      if_neg fun both => sameProject both.1]
    intro file member same
    exact sameProject (Prod.mk.inj same).1.symm

end

end

end Indexer

def formerFiles : List (String × StoredBytes) :=
  [("a.rs", sampleContent "struct A;" 1), ("b.rs", sampleContent "struct B;" 1),
    ("d.rs", sampleContent "struct D;" 1)]

def laterFiles : List (String × StoredBytes) :=
  [("a.rs", sampleContent "struct X;" 2), ("c.rs", sampleContent "struct C;" 2),
    ("d.rs", sampleContent "struct D;" 1)]

def changedPlaces : List (List String) := [["a.rs"], ["b.rs"], ["c.rs"]]

theorem isRootedAt_sampleIndexer : sampleIndexer.IsRootedAt [] where
  plain := List.forall_mem_nil _
  spelled := rfl

theorem findsBare_ofFiles {files : List (String × StoredBytes)}
    (named : ∀ file ∈ files, file.1 ≠ "" ∧ '/' ∉ file.1.toList)
    (distinct : (files.map (·.1)).Nodup)
    (others : ∀ file ∈ files, file.1 ≠ ".ignore" ∧ file.1 ≠ ".gitignore") :
    sampleIndexer.FindsBare (.ofFiles files) (.ofFiles files) where
  proper := FileTree.isProper_ofFiles named distinct
  isThere := rfl
  bare := FileTree.hasNoIgnoreFiles_ofFiles others

theorem isChangedAt_changedPlaces : Indexer.IsChangedAt [] (.ofFiles formerFiles)
    (.ofFiles laterFiles) changedPlaces ["a.rs", "/b.rs", "c.rs"] where
  plain := by
    have all : ∀ names ∈ changedPlaces, ∀ name ∈ names,
        (name ≠ "" ∧ '/' ∉ name.toList) ∧ name ≠ "." ∧ name ≠ ".." := by decide
    exact all
  spelled := .cons (.inl rfl) (.cons (.inr rfl) (.cons (.inl rfl) .nil))
  noDirectory := by
    intro names member entries found
    have below : ∀ names ∈ changedPlaces, names ≠ [] := by decide
    cases names with
    | nil => exact below [] member rfl
    | cons name names =>
        rw [FileTree.find?_ofFiles] at found
        split at found
        · rcases Option.map_eq_some_iff.mp found with ⟨content, -, isFile⟩
          cases isFile
        · cases found
  same := by
    intro names notThere
    cases names with
    | nil => rfl
    | cons name names =>
        rw [FileTree.file?_ofFiles, FileTree.file?_ofFiles]
        split
        · next single =>
            rw [single] at notThere
            simp only [changedPlaces, List.mem_cons, List.cons.injEq, and_true, List.not_mem_nil,
              or_false, not_or] at notThere
            simp only [laterFiles, formerFiles, List.lookup_cons, beq_false_of_ne notThere.1,
              beq_false_of_ne notThere.2.1, beq_false_of_ne notThere.2.2]
        · rfl

/-- What the identifiers of the files and of all that is found in them are made of. -/
def changedTexts : List (List String) :=
  let id := fileId "p"
  [["p", "a.rs"], ["p", "b.rs"], ["p", "c.rs"], ["p", "d.rs"],
    [id "a.rs", "struct", "A", "1"], [id "a.rs", "struct", "X", "1"],
    [id "b.rs", "struct", "B", "1"], [id "c.rs", "struct", "C", "1"],
    [id "d.rs", "struct", "D", "1"], [id "a.rs", "chunk", "0", "1", "1"],
    [id "b.rs", "chunk", "0", "1", "1"], [id "c.rs", "chunk", "0", "1", "1"],
    [id "d.rs", "chunk", "0", "1", "1"]]

theorem identifiersDiffer_changedTexts : IdentifiersDiffer changedTexts := by
  apply IdentifiersDiffer.of_nodup
  decide +kernel

/-- The files of both trees. -/
def followedFiles : List WalkedFile :=
  (formerFiles ++ laterFiles).map fun file => ⟨file.1, file.2⟩

theorem identifies_changedTexts :
    ∀ file ∈ followedFiles, sampleIndexer.Identifies changedTexts file := by
  have found : ∀ file ∈ followedFiles, ["p", file.path] ∈ changedTexts ∧
      ∀ analysis ∈ sampleIndexer.findings? file,
        (∀ definition ∈ analysis.definitions, definition.identity ∈ changedTexts) ∧
          analysis.dependencies.isEmpty = true ∧
          ∀ chunk ∈ analysis.chunks, chunk.identity ∈ changedTexts := by
    decide +kernel
  exact fun file member => .of_no_dependencies (found file member).1 (found file member).2

theorem mem_of_mem_filesOn_ofFiles {files : List (String × StoredBytes)}
    (finds : sampleIndexer.FindsBare (.ofFiles files) (.ofFiles files)) {file : WalkedFile}
    (member : file ∈ sampleIndexer.filesOn (.ofFiles files)) :
    (file.path, file.content) ∈ files := by
  rcases finds.mem_filesOn.mp member with ⟨names, found, path, -⟩
  cases names with
  | nil => cases found
  | cons name names =>
      rw [FileTree.file?_ofFiles] at found
      split at found
      · next single =>
          have isName : file.path = name := by
            rw [path, single]
            rfl
          rcases List.lookup_eq_some_iff.mp found with ⟨front, back, rfl, -⟩
          rw [isName]
          exact List.mem_append_right _ List.mem_cons_self
      · cases found

theorem findsBare_formerFiles :
    sampleIndexer.FindsBare (.ofFiles formerFiles) (.ofFiles formerFiles) :=
  findsBare_ofFiles (by decide) (by decide) (by decide)

theorem findsBare_laterFiles :
    sampleIndexer.FindsBare (.ofFiles laterFiles) (.ofFiles laterFiles) :=
  findsBare_ofFiles (by decide) (by decide) (by decide)

theorem mem_followedFiles {file : WalkedFile}
    (member : file ∈ sampleIndexer.filesOn (.ofFiles formerFiles) ++
      sampleIndexer.filesOn (.ofFiles laterFiles)) : file ∈ followedFiles := by
  apply List.mem_map.mpr
  refine ⟨(file.path, file.content), ?_, rfl⟩
  rcases List.mem_append.mp member with member | member
  · exact List.mem_append_left _ (mem_of_mem_filesOn_ofFiles findsBare_formerFiles member)
  · exact List.mem_append_right _ (mem_of_mem_filesOn_ofFiles findsBare_laterFiles member)

theorem identifies_filesOn : ∀ file ∈ sampleIndexer.filesOn (.ofFiles formerFiles) ++
    sampleIndexer.filesOn (.ofFiles laterFiles), sampleIndexer.Identifies changedTexts file :=
  fun file member => identifies_changedTexts file (mem_followedFiles member)

end SourceIndex
