import SourceIndex.Proofs.Scan.Holdings
import SourceIndex.Proofs.Scan.Progress

/-! What a run leaves at a path, whatever the run: what there was, nothing, or what working off a
file has made of it. -/

namespace SourceIndex

/-- Whether a run takes place on a proper disk, where it walks one. -/
def IndexerRun.IsProper : IndexerRun → Prop
  | .scan disk _ => disk.IsProper
  | .indexPaths _ _ | .removePaths _ | .restart => True

namespace Indexer

variable {indexer : Indexer} {state : IndexState} {file : WalkedFile}

/-! ## Scans -/

/-- Behind a scan there is nothing at the paths that it has removed, and at others what working off
the files has left. -/
theorem holding_scan {disk : FileTree} {mode : ScanMode}
    (succeeds : (indexer.scan disk mode state).1.success = true)
    (accepts : ∀ path, indexer.gate.refuses .remove path = none) :
    let stored := state.store.states indexer.project
    let files := indexer.filesOn disk
    let worked := indexer.processFiles stored (mode = .force) files (indexer.begun mode files state)
    let scanned := indexer.scan disk mode state
    scanned.1.stats.failed = worked.stats.failed ∧
      ∀ path, scanned.2.toIndexState.holding indexer.project path =
        if path ∈ indexer.pruned stored files then .vacant
        else worked.toIndexState.holding indexer.project path := by
  intro stored files worked scanned
  rcases reaches_of_success succeeds with ⟨isThere, loads⟩
  let left := (indexer.pruned stored files).foldl indexer.prune worked
  have ended : scanned = indexer.finish left none := by
    refine (indexer.scan_eq mode state isThere loads).trans (congrArg (indexer.finish · none) ?_)
    unfold left Indexer.scanned pruned
    split <;> rfl
  have prunes : left.result = (indexer.pruned stored files).foldl
      (fun result path => result.prune indexer path) worked.result :=
    result_foldl _ indexer.result_prune _ worked
  have tally : left.stats.tally = worked.stats.tally :=
    foldl_leaves (fun run : Run => run.stats.tally) indexer.tally_prune _ _
  have failed := congrArg ScanStats.failed tally
  rw [ended]
  refine ⟨failed, fun path => ?_⟩
  have holding := congrArg (·.holding indexer.project path) prunes
  exact holding.trans (RunResult.holding_pruneAll accepts _ _ _)

/-! ## What a run leaves -/

/-- Whether working off a file of a run makes one holding of another: of what there was before, or
of nothing if the path of the file has also been taken for one that is gone. -/
structure IsWorkedOff (indexer : Indexer) (state : IndexState) (run : IndexerRun) (failures : Nat)
    (file : WalkedFile) (former left : Holding) : Prop where
  member : file ∈ indexer.filesOf run
  start : former = state.holding indexer.project file.path ∨ former = .vacant
  recorded : recordOf? (indexer.recordedFor state run) file.path =
    former.row?.map fun row => row.file.state
  becomes : indexer.Becomes (indexer.recordedFor state run) (isForced run) file failures former left

/-- What a run leaves at a path. -/
inductive Leaves (indexer : Indexer) (state : IndexState) (run : IndexerRun) (path : String) :
    Holding → Prop
  | same (goesOn : run ≠ .restart) :
    Leaves indexer state run path (state.holding indexer.project path)
  | forgotten (anew : run = .restart) : Leaves indexer state run path
    { state.holding indexer.project path with kept? := none }
  | vacant : Leaves indexer state run path .vacant
  | workedOff {file : WalkedFile} {failures : Nat} {former left : Holding} (here : file.path = path)
    (worked : indexer.IsWorkedOff state run failures file former left) :
    Leaves indexer state run path left

section

variable {run : IndexerRun} (accepting : indexer.gate = .accepting)

include accepting

theorem refuses_of_accepting (operation : StoreOperation) (path : String) :
    indexer.gate.refuses operation path = none := by
  rw [accepting]
  rfl

/-- A run that succeeds works off each of its files. -/
theorem exists_isWorkedOff (proper : run.IsProper) {report : ScanReport}
    (reports : indexer.reportOf state run = some report) (succeeds : report.success = true)
    (member : file ∈ indexer.filesOf run) :
    ∃ former, indexer.IsWorkedOff state run report.stats.failed file former
      ((indexer.after state run).holding indexer.project file.path) := by
  have accepts := refuses_of_accepting accepting
  cases run with
  | scan disk mode =>
      cases reports
      rcases holding_scan succeeds (accepts .remove) with ⟨failed, left⟩
      let stored := state.store.states indexer.project
      have stays : file.path ∉ indexer.pruned stored (indexer.filesOn disk) :=
        fun isPruned => apart_pruned _ isPruned file member rfl
      refine ⟨_, member, .inl rfl, recordOf?_states _ _ _, ?_⟩
      rw [after, failed, left, if_neg stays]
      exact becomes_processFiles (nodup_filesOn proper) (accepts .touch file.path) member
        (indexer.begun mode (indexer.filesOn disk) state)
  | indexPaths disk paths =>
      cases reports
      let cleared := indexer.cleared disk paths state
      refine ⟨cleared.toIndexState.holding indexer.project file.path, member, ?_,
        recordOf?_states _ _ _, ?_⟩
      · rw [holding_cleared (accepts_of_indexPaths succeeds).2]
        split
        · exact .inr rfl
        · exact .inl rfl
      · rw [after, indexPaths_of_success succeeds]
        exact becomes_processFiles (nodup_presentFiles _) (accepts .touch file.path) member cleared
  | removePaths paths | restart => cases reports

end

/-! ## Other paths -/

section

variable {run : IndexerRun} (accepting : indexer.gate = .accepting) {path : String}

include accepting

theorem leaves_scan {disk : FileTree} (proper : disk.IsProper) (mode : ScanMode)
    (nowhere : (indexer.scan disk mode state).1.success = true →
      ∀ file ∈ indexer.filesOn disk, file.path ≠ path) :
    indexer.Leaves state (.scan disk mode) path
      ((indexer.scan disk mode state).2.toIndexState.holding indexer.project path) := by
  cases succeeds : (indexer.scan disk mode state).1.success with
  | true =>
      rw [(holding_scan succeeds (refuses_of_accepting accepting .remove)).2 path,
        holding_processFiles_of_ne (nodup_filesOn proper) (nowhere succeeds)]
      split
      · exact .vacant
      · exact .same nofun
  | false =>
      rcases scan_of_failed succeeds with ⟨error, ended⟩
      rw [ended]
      exact .same nofun

theorem leaves_indexPaths (disk : FileTree) (paths : List String)
    (nowhere : (indexer.indexPaths disk paths state).1.success = true →
      ∀ file ∈ indexer.filesAt disk paths, file.path ≠ path) :
    indexer.Leaves state (.indexPaths disk paths) path
      ((indexer.indexPaths disk paths state).2.toIndexState.holding indexer.project path) := by
  have accepts := refuses_of_accepting accepting
  cases found : indexer.rootTree? disk with
  | some tree =>
      -- Since no removal is refused, only a missing root can make the run fail.
      have succeeds : (indexer.indexPaths disk paths state).1.success = true :=
        congrArg (·.1.success) (indexPaths_eq (Option.isSome_of_eq_some found) (accepts .load "")
          (fun path _ => accepts .remove path) state)
      rw [holding_indexPaths_of_ne succeeds (nowhere succeeds)]
      split
      · exact .vacant
      · exact .same nofun
  | none =>
      have ended : indexer.indexPaths disk paths state =
          indexer.finish ((Run.ofState state).enter .scanning {})
            (some (.invalidRoot indexer.root)) := by
        unfold indexPaths
        rw [found]
      rw [ended]
      exact .same nofun

theorem leaves_removePaths (paths : List String) :
    indexer.Leaves state (.removePaths paths) path
      ((indexer.removePaths paths 0 state).2.holding indexer.project path) := by
  have accepts := refuses_of_accepting accepting .remove
  have removed := removePaths_append (fun path (_ : path ∈ paths) => accepts path) [] 0 state
  rw [List.append_nil] at removed
  have left : (indexer.removePaths paths 0 state).2 = indexer.without paths state :=
    congrArg Prod.snd removed
  rw [left, holding_without fun path _ => accepts path]
  split
  · exact .vacant
  · exact .same nofun

/-- What there is at a path behind a run. -/
theorem leaves_after (proper : run.IsProper) : indexer.Leaves state run path
    ((indexer.after state run).holding indexer.project path) := by
  by_cases worksOff : ∃ file ∈ indexer.filesOf run, file.path = path ∧
      ∃ report, indexer.reportOf state run = some report ∧ report.success = true
  · rcases worksOff with ⟨file, member, rfl, report, reports, succeeds⟩
    rcases exists_isWorkedOff accepting proper reports succeeds member with ⟨former, worked⟩
    exact .workedOff rfl worked
  · have nowhere : ∀ report, indexer.reportOf state run = some report → report.success = true →
        ∀ file ∈ indexer.filesOf run, file.path ≠ path :=
      fun report reports succeeds file member here =>
        worksOff ⟨file, member, here, report, reports, succeeds⟩
    cases run with
    | scan disk mode => exact leaves_scan accepting proper mode (nowhere _ rfl)
    | indexPaths disk paths => exact leaves_indexPaths accepting disk paths (nowhere _ rfl)
    | removePaths paths => exact leaves_removePaths accepting paths
    | restart => exact .forgotten rfl

end

end Indexer

end SourceIndex
