import SourceIndex.Proofs.Scan.Rescan

/-! Files that have become too large. They are passed over before they are compared with what is
stored of them, but count as present: what has been stored of them when they were smaller stays. -/

namespace SourceIndex

namespace Indexer

variable {indexer : Indexer} {stored : List FileState} {force : Bool} {file : WalkedFile}
  {files seen : List WalkedFile} {store : Store}

/-! ## Where rows come from -/

/-- Only a file that is not too large has to be indexed. -/
theorem small_of_ready (ready : (indexer.outcomeOf stored force file).candidate?.isSome) :
    file.content.bytes.size ≤ indexer.config.scan.maxFileBytes := by
  rw [outcomeOf, Candidate.read_eq] at ready
  split at ready
  · cases ready
  · next small => exact Nat.not_lt.mp small

/-- Whether every row of a project has the digest of a file that has been seen at its path and that
was not too large. -/
def StoresSeen (indexer : Indexer) (seen : List WalkedFile) (store : Store) : Prop :=
  ∀ path row, store.row? indexer.project path = some row → ∃ file ∈ seen, file.path = path ∧
    file.content.bytes.size ≤ indexer.config.scan.maxFileBytes ∧
    row.file.contentHash = contentHash file.content.bytes

/-- Calls that files bring about leave the digests of these files only. -/
theorem StoresSeen.perform (stores : indexer.StoresSeen seen store)
    (within : ∀ file ∈ files, file ∈ seen) {call : StoreCall}
    (isCalled : indexer.IsCalledFor files call) :
    indexer.StoresSeen seen (indexer.gate.perform store call) := by
  rcases indexer.gate.perform_cases store call with same | ⟨project, finished, rfl, done, -⟩ |
    ⟨project, path, time, rfl, done⟩ | ⟨project, path, rfl, done⟩
  · rwa [same]
  · intro path row found
    rw [done, Store.row?_written] at found
    split at found
    · next here =>
        rcases isCalled with ⟨_, isRemove⟩ | ⟨file, isFile, stored, force, brings⟩
        · cases isRemove
        · cases brings with
          | persist ready isFinished =>
              cases found
              have hash : finished.contentHash = contentHash file.content.bytes :=
                (congrArg IndexedFile.contentHash isFinished).trans
                  (indexer.contentHash_outline file)
              refine ⟨file, within file isFile, ?_, small_of_ready ready, hash⟩
              exact (path_of_bare isFinished).symm.trans (Prod.mk.inj here).2.symm
    · exact stores path row found
  · intro otherPath row found
    rw [done, Store.row?_touch] at found
    split at found
    · next here =>
        rcases Option.map_eq_some_iff.mp found with ⟨former, isFormer, rfl⟩
        cases here
        exact stores _ former isFormer
    · exact stores otherPath row found
  · intro otherPath row found
    rw [done, Store.remove_eq] at found
    split at found
    · exact stores otherPath row found
    · rw [Store.row?_without] at found
      split at found
      · cases found
      · exact stores otherPath row found

/-- What a run stores it has come upon. -/
theorem storesSeen_after {state : IndexState} (stores : indexer.StoresSeen seen state.store)
    (run : IndexerRun) (within : ∀ file ∈ indexer.filesOf run, file ∈ seen) :
    indexer.StoresSeen seen (indexer.after state run).store := by
  -- The induction is on the calls that the run comes to, wherever it stops.
  rcases indexer.exists_calls_after state run with ⟨calls, same, called⟩
  rw [same]
  exact List.foldlRecOn calls _ stores fun _ stores call member =>
    stores.perform within (called call member)

theorem storesSeen_afterAll (indexer : Indexer) (runs : List IndexerRun) :
    indexer.StoresSeen (runs.flatMap indexer.filesOf) (indexer.afterAll runs).store :=
  List.foldlRecOn (motive := fun state : IndexState =>
    indexer.StoresSeen (runs.flatMap indexer.filesOf) state.store) runs _ nofun
    fun _ stores run member => storesSeen_after stores run fun _ isFile =>
      List.mem_flatMap.mpr ⟨run, member, isFile⟩

/-! ## Files that have grown -/

/-- Whether what is stored of a file has another digest than the file has now. -/
def IsOutdated (indexer : Indexer) (store : Store) (file : WalkedFile) : Prop :=
  ∃ row, store.row? indexer.project file.path = some row ∧
    row.file.contentHash ≠ contentHash file.content.bytes

end Indexer

open Indexer in
/-- A scan leaves what is stored of a file that is too large as it was. Whatever has been run
before, that is nothing, or it has the digest of the file as it was when it was not too large; it is
outdated behind the scan if it has been so before. -/
theorem scan_leaves_oversize {indexer : Indexer} {runs : List IndexerRun} {disk : FileTree}
    (proper : disk.IsProper) {mode : ScanMode}
    (succeeds : (indexer.scan disk mode (indexer.afterAll runs)).1.success = true)
    {file : WalkedFile} (member : file ∈ indexer.filesOn disk)
    (large : file.content.bytes.size > indexer.config.scan.maxFileBytes) :
    let before := (indexer.afterAll runs).store
    let left := (indexer.scan disk mode (indexer.afterAll runs)).2.store
    left.row? indexer.project file.path = before.row? indexer.project file.path ∧
      (indexer.IsOutdated left file ↔ indexer.IsOutdated before file) ∧
      ∀ row, left.row? indexer.project file.path = some row →
        ∃ run ∈ runs, ∃ former ∈ indexer.filesOf run, former.path = file.path ∧
          former.content.bytes.size ≤ indexer.config.scan.maxFileBytes ∧
          row.file.contentHash = contentHash former.content.bytes := by
  intro before left
  have outcome : indexer.outcomeOf (before.states indexer.project) (mode = .force) file =
      .oversize := (Candidate.read_eq _ _ _ _ _).trans (if_pos large)
  have same : left.row? indexer.project file.path = before.row? indexer.project file.path :=
    (row?_scan_of_mem succeeds member).trans (row?_fileCalls_of_idle (nodup_filesOn proper) member
      (congrArg ReadOutcome.changesNothing outcome) before)
  refine ⟨same, ?_, ?_⟩
  · rw [IsOutdated, IsOutdated, same]
  · intro row found
    rcases indexer.storesSeen_afterAll runs file.path row (same.symm.trans found) with
      ⟨former, isSeen, path, small, hash⟩
    rcases List.mem_flatMap.mp isSeen with ⟨run, isRun, isFormer⟩
    exact ⟨run, isRun, former, isFormer, path, small, hash⟩

/-! ## A file that has grown -/

/-- An indexer that passes over files of more than nine bytes. -/
def shortIndexer : Indexer := { sampleIndexer with config.scan.maxFileBytes := 9 }

def grownFile : WalkedFile := ⟨"a.rs", sampleContent "struct A; struct B;" 2⟩

theorem filesOn_shortIndexer (text : String) (milliseconds : Int) :
    shortIndexer.filesOn (sampleDisk text milliseconds) =
      [⟨"a.rs", sampleContent text milliseconds⟩] := filesOn_sampleDisk text milliseconds

/-- The file has been stored before it has grown. -/
theorem isOutdated_grownFile : shortIndexer.IsOutdated
    (shortIndexer.afterAll [.scan (sampleDisk "struct A;" 1) .force]).store grownFile := by
  let disk := sampleDisk "struct A;" 1
  let small : WalkedFile := ⟨"a.rs", sampleContent "struct A;" 1⟩
  have files : shortIndexer.filesOn disk = [small] := filesOn_shortIndexer _ _
  have member : small ∈ shortIndexer.filesOn disk := files ▸ List.mem_cons_self
  have succeeds : (shortIndexer.scan disk .force {}).1.success = true :=
    congrArg (·.1.success) (shortIndexer.scan_eq .force {} rfl rfl)
  have supplied : shortIndexer.Supplies (sampleIndexer.sourceOf sampleFiles)
      (shortIndexer.filesOn disk) := by
    rw [files]
    intro file isSmall
    cases List.mem_singleton.mp isSmall
    exact ⟨rfl, small, List.mem_cons_self, rfl⟩
  have complete : (shortIndexer.scan disk .force {}).1.stats.failed = 0 := by
    refine Indexer.failed_scan_eq_zero rfl collisionFree_sampleFiles.isApart succeeds supplied ?_
      Store.isSound_empty (Store.spares_empty _)
    intro file isSmall
    rw [files] at isSmall
    cases List.mem_singleton.mp isSmall
    rfl
  have done := Indexer.isDone_scan (isProper_sampleDisk _ _) succeeds (fun _ _ => rfl) complete
    member
  rcases done with large | ⟨row, found, -⟩
  · exact absurd large (by decide)
  · refine ⟨row, found, ?_⟩
    rcases shortIndexer.storesSeen_afterAll [.scan disk .force] "a.rs" row found with
      ⟨former, isSeen, -, -, hash⟩
    have isSmall : former ∈ [small] := by
      rw [← files]
      simpa [Indexer.filesOf] using isSeen
    rw [hash, List.mem_singleton.mp isSmall]
    decide +kernel

/-- A file that has been stored and has become too large is stored as it was, behind a scan that
succeeds and does not fail at any file. -/
theorem scan_leaves_grownFile :
    let before := shortIndexer.afterAll [.scan (sampleDisk "struct A;" 1) .force]
    let scanned := shortIndexer.scan (sampleDisk "struct A; struct B;" 2) .incremental before
    scanned.1.success = true ∧ scanned.1.stats.failed = 0 ∧
      grownFile ∈ shortIndexer.filesOn (sampleDisk "struct A; struct B;" 2) ∧
      grownFile.content.bytes.size > shortIndexer.config.scan.maxFileBytes ∧
      shortIndexer.IsOutdated scanned.2.store grownFile := by
  intro before scanned
  let disk := sampleDisk "struct A; struct B;" 2
  have files : shortIndexer.filesOn disk = [grownFile] := filesOn_shortIndexer _ _
  have member : grownFile ∈ shortIndexer.filesOn disk := files ▸ List.mem_cons_self
  have large : grownFile.content.bytes.size > shortIndexer.config.scan.maxFileBytes := by decide
  have succeeds : scanned.1.success = true :=
    congrArg (·.1.success) (shortIndexer.scan_eq .incremental before rfl rfl)
  have done : ∀ file ∈ shortIndexer.filesOn disk, shortIndexer.IsDone before.store file := by
    rw [files, List.forall_mem_singleton]
    exact .inl large
  refine ⟨succeeds, (Indexer.tally_scan_of_done done succeeds).2.2.1, member, large, ?_⟩
  exact (scan_leaves_oversize (isProper_sampleDisk _ _) succeeds member large).2.1.mpr
    isOutdated_grownFile

end SourceIndex
