import SourceIndex.Proofs.Scan.Accounting

/-! A scan that fails, which it can do only before it has begun to work off files: the directory is
not there, it cannot be walked, or what is stored cannot be read. -/

namespace SourceIndex

/-- Whether a run has ended with an error and everything is as it was before, with nothing
counted. -/
structure EndsUnchanged (state : IndexState) (ended : ScanReport × Run) : Prop where
  store : ended.2.store = state.store
  records : ended.2.records = state.records
  phase : ended.2.phase = .error
  stats : ended.1.stats = {}

namespace Indexer

variable (indexer : Indexer)

/-! ## Walks that fail -/

/-- What a walk of the directory comes to. -/
def walkOn (disk : FileTree) : Except ScanError (List WalkedFile) :=
  match indexer.rootTree? disk with
  | none => .error (.invalidRoot indexer.root)
  | some tree => .ok (tree.walk indexer.options indexer.policy)

/-- A scan that goes by what a walk has come to. The walk may have failed for any reason, also if
the directory has been there a moment before. -/
def scanWalked (walked : Except ScanError (List WalkedFile)) (mode : ScanMode)
    (state : IndexState) : ScanReport × Run :=
  let run := (Run.ofState state).enter .scanning {}
  match walked with
  | .error error => indexer.finish run (some error)
  | .ok files =>
    match indexer.gate.states run.store indexer.project with
    | .error error => indexer.finish run (some (.store error))
    | .ok stored =>
      let run := indexer.processFiles stored (mode = .force) files (indexer.begun mode files state)
      let run := if indexer.config.scan.pruneMissing
        then indexer.pruneMissing stored (files.map (·.path)) run else run
      indexer.finish run none

theorem scanWalked_walkOn (disk : FileTree) (mode : ScanMode) (state : IndexState) :
    indexer.scanWalked (indexer.walkOn disk) mode state = indexer.scan disk mode state := by
  unfold scanWalked walkOn scan
  cases indexer.rootTree? disk with
  | none => rfl
  | some tree => rfl

theorem isOk_walkOn (disk : FileTree) :
    (indexer.walkOn disk).isOk = (indexer.rootTree? disk).isSome := by
  unfold walkOn
  cases indexer.rootTree? disk <;> rfl

variable {indexer} {mode : ScanMode} {state : IndexState}

theorem endsUnchanged_of_error (error : ScanError) :
    EndsUnchanged state
      (indexer.finish ((Run.ofState state).enter .scanning {}) (some error)) := ⟨rfl, rfl, rfl, rfl⟩

/-- A scan that is hindered ends before there are any files. -/
theorem scanWalked_of_hindered {walked : Except ScanError (List WalkedFile)}
    (hindered : walked.isOk = false ∨ (indexer.gate.refuses .load "").isSome) :
    ∃ error, indexer.scanWalked walked mode state =
      indexer.finish ((Run.ofState state).enter .scanning {}) (some error) := by
  cases walked with
  | error error => exact ⟨error, rfl⟩
  | ok files =>
      rcases hindered with failed | refused
      · cases failed
      · rcases Option.isSome_iff_exists.mp refused with ⟨error, refuses⟩
        refine ⟨.store error, ?_⟩
        unfold scanWalked StoreGate.states StoreGate.attempt
        rw [refuses]

theorem success_scanWalked {files : List WalkedFile}
    (loads : indexer.gate.refuses .load "" = none) :
    (indexer.scanWalked (.ok files) mode state).1.success = true := by
  unfold scanWalked StoreGate.states StoreGate.attempt
  rw [loads]
  rfl

/-- A scan fails just if it is hindered. -/
theorem success_scanWalked_eq_false_iff (walked : Except ScanError (List WalkedFile)) :
    (indexer.scanWalked walked mode state).1.success = false ↔
      walked.isOk = false ∨ (indexer.gate.refuses .load "").isSome := by
  constructor
  · intro fails
    by_contra unhindered
    rw [not_or, Bool.not_eq_false, Option.not_isSome_iff_eq_none] at unhindered
    cases walked with
    | error error => cases unhindered.1
    | ok files =>
        rw [success_scanWalked unhindered.2] at fails
        cases fails
  · intro hindered
    rcases @scanWalked_of_hindered indexer mode state walked hindered with ⟨error, ended⟩
    rw [ended]
    rfl

/-- A scan of a disk that fails ends before there are any files. -/
theorem scan_of_failed {disk : FileTree}
    (fails : (indexer.scan disk mode state).1.success = false) :
    ∃ error, indexer.scan disk mode state =
      indexer.finish ((Run.ofState state).enter .scanning {}) (some error) := by
  rw [← scanWalked_walkOn] at fails ⊢
  exact scanWalked_of_hindered ((success_scanWalked_eq_false_iff _).mp fails)

theorem success_scan_eq_false_iff {disk : FileTree} :
    (indexer.scan disk mode state).1.success = false ↔
      indexer.rootTree? disk = none ∨ (indexer.gate.refuses .load "").isSome := by
  have fails := @success_scanWalked_eq_false_iff indexer mode state (indexer.walkOn disk)
  rwa [scanWalked_walkOn, isOk_walkOn, Option.isSome_eq_false_iff,
    Option.isNone_iff_eq_none] at fails

end Indexer

open Indexer in
/-- A scan fails just if its root is not a directory or what is stored cannot be read, and then
nothing that is stored or kept in memory has changed and nothing has been counted: a root that has
vanished does not remove what is stored of it. The same is true if the root is there and the walk
fails all the same. -/
theorem failed_scan_changes_nothing (indexer : Indexer) (mode : ScanMode) (state : IndexState) :
    (∀ disk,
      let scanned := indexer.scan disk mode state
      (scanned.1.success = false ↔
        indexer.rootTree? disk = none ∨ (indexer.gate.refuses .load "").isSome) ∧
      (scanned.1.success = false → EndsUnchanged state scanned)) ∧
    ∀ error,
      let scanned := indexer.scanWalked (.error error) mode state
      scanned.1.success = false ∧ EndsUnchanged state scanned := by
  constructor
  · intro disk scanned
    refine ⟨success_scan_eq_false_iff, ?_⟩
    intro fails
    rcases scan_of_failed fails with ⟨error, ended⟩
    have same : scanned = _ := ended
    rw [same]
    exact endsUnchanged_of_error error
  · exact fun error => ⟨rfl, endsUnchanged_of_error error⟩

/-- When there is a file in the place of the directory, or what is stored cannot be read, a scan
that removes what is gone leaves a file stored that is gone. -/
theorem failed_scan_formerIndex :
    let vanished := sampleIndexer.scan (.file (sampleContent "" 1)) .force formerIndex
    let unread := (hinderedIndexer [(.load, "")]).scan (.ofFiles laterFiles) .force formerIndex
    sampleIndexer.config.scan.pruneMissing = true ∧
      (vanished.1.success = false ∧ vanished.1.stats = {} ∧
        (vanished.2.store.entryAt? "p" "b.rs").isSome) ∧
      unread.1.success = false ∧ unread.1.stats = {} ∧
        (unread.2.store.entryAt? "p" "b.rs").isSome := by
  intro vanished unread
  have unfound :=
    (failed_scan_changes_nothing sampleIndexer .force formerIndex).1 (.file (sampleContent "" 1))
  have refused := (failed_scan_changes_nothing (hinderedIndexer [(.load, "")]) .force
    formerIndex).1 (.ofFiles laterFiles)
  have fails : vanished.1.success = false := unfound.1.mpr (.inl rfl)
  have failsToo : unread.1.success = false := refused.1.mpr (.inr rfl)
  have unchanged := unfound.2 fails
  have unchangedToo := refused.2 failsToo
  refine ⟨rfl, ⟨fails, unchanged.stats, ?_⟩, failsToo, unchangedToo.stats, ?_⟩
  · rw [unchanged.store]
    exact isSome_removed
  · rw [unchangedToo.store]
    exact isSome_removed

end SourceIndex
