import SourceIndex.Proofs.Scan.Batching
import SourceIndex.Proofs.Scan.Rescan
import SourceIndex.Proofs.Scan.Vectors

/-! What runs make of what there is of a single file: its row, and what is kept of it in memory. Only
the steps that are about the file itself matter, and these come to one of a few things. -/

namespace SourceIndex

/-! ## Steps that matter -/

section

variable {α β γ : Type} {step : β → α → β} {items front rest : List α} {item : α}

/-- What each step leaves alone, all of them leave alone. -/
theorem foldl_leaves_of_mem (of : β → γ)
    (leaves : ∀ item ∈ items, ∀ state, of (step state item) = of state) (state : β) :
    of (items.foldl step state) = of state :=
  List.foldlRecOn (motive := fun left => of left = of state) items step rfl
    fun left same item member => (leaves item member left).trans same

/-- What no step makes smaller, all of them do not make smaller. -/
theorem le_foldl (count : β → Nat) (grows : ∀ state item, count state ≤ count (step state item))
    (items : List α) (state : β) : count state ≤ count (items.foldl step state) :=
  List.foldlRecOn (motive := fun left => count state ≤ count left) items step (Nat.le_refl _)
    fun left below item _ => Nat.le_trans below (grows left item)

/-- What all steps but one leave alone is what the one step makes of it, and what is counted by then
is still counted in the end. -/
theorem foldl_append_cons (of : β → γ) (count : β → Nat)
    (before : ∀ other ∈ front, ∀ state, of (step state other) = of state)
    (after : ∀ other ∈ rest, ∀ state, of (step state other) = of state)
    (grows : ∀ state item, count state ≤ count (step state item)) (state : β) :
    ∃ start, of start = of state ∧
      of ((front ++ item :: rest).foldl step state) = of (step start item) ∧
      count (step start item) ≤ count ((front ++ item :: rest).foldl step state) := by
  rw [List.foldl_append, List.foldl_cons]
  exact ⟨_, foldl_leaves_of_mem of before state, foldl_leaves_of_mem of after _,
    le_foldl count grows rest _⟩

/-- Of items with different keys only one matters to what depends on a single key. -/
theorem foldl_of_nodup {key : α → γ} {δ : Type} (of : β → δ) (count : β → Nat)
    (once : (items.map key).Nodup) (member : item ∈ items)
    (elsewhere : ∀ other, key other ≠ key item → ∀ state, of (step state other) = of state)
    (grows : ∀ state item, count state ≤ count (step state item)) (state : β) :
    ∃ start, of start = of state ∧ of (items.foldl step state) = of (step start item) ∧
      count (step start item) ≤ count (items.foldl step state) := by
  rcases exists_append_of_nodup once member with ⟨front, rest, rfl, before, after⟩
  exact foldl_append_cons of count (fun other isBefore => elsewhere other (before other isBefore))
    (fun other isAfter => elsewhere other (after other isAfter)) grows state

end

/-! ## Holdings -/

/-- A file as it is kept in memory when there is no room for its vector. -/
def IndexedFile.stripped (file : IndexedFile) : IndexedFile :=
  { file.release with embedding := none }

/-- What there is of a file: its row, and what is kept of it in memory, vectors aside. -/
@[ext]
structure Holding where
  row? : Option FileRow
  kept? : Option IndexedFile

/-- Nothing is stored of a file, and nothing is kept of it. -/
def Holding.vacant : Holding := ⟨none, none⟩

def IndexState.holding (state : IndexState) (project path : String) : Holding where
  row? := state.store.row? project path
  kept? := (state.records.lookup path).map (·.stripped)

def RunResult.holding (result : RunResult) (project path : String) : Holding where
  row? := result.store.row? project path
  kept? := (result.record? path).map (·.stripped)

theorem holding_result (run : Run) (project path : String) :
    run.result.holding project path = run.toIndexState.holding project path := rfl

namespace RunResult

variable {indexer : Indexer} {result : RunResult} {path other : String}

/-! ## Steps about other files -/

theorem holding_note_of_ne (apart : path ≠ other) (note : FileNote) :
    (result.note indexer path note).holding indexer.project other =
      result.holding indexer.project other := by
  apply Holding.ext
  · simp only [RunResult.holding, RunResult.note]
    split
    · apply indexer.gate.row?_perform_elsewhere
      exact fun same => apart (Prod.mk.inj same).2
    · rfl
  · simp only [RunResult.holding, RunResult.note, Function.update_of_ne apart.symm]

theorem holding_persist_of_ne {file : IndexedFile} (apart : file.path ≠ other) :
    (result.persist indexer file).holding indexer.project other =
      result.holding indexer.project other := by
  unfold RunResult.persist
  cases asked : indexer.gate.persist result.store indexer.project file with
  | error error => rfl
  | ok answer =>
      have written := (Store.persist_eq_ok (StoreGate.persist_eq_ok asked)).1
      apply Holding.ext
      · simp only [RunResult.holding, written, Store.row?_written]
        exact if_neg fun same => apart (Prod.mk.inj same).2.symm
      · simp only [RunResult.holding, Function.update_of_ne apart.symm]

theorem holding_prune_of_ne (apart : path ≠ other) :
    (result.prune indexer path).holding indexer.project other =
      result.holding indexer.project other := by
  have elsewhere : (StoreCall.remove indexer.project path).place ≠ (indexer.project, other) :=
    fun same => apart (Prod.mk.inj same).2
  apply Holding.ext
  · exact indexer.gate.row?_perform_elsewhere result.store elsewhere
  · simp only [RunResult.holding, RunResult.prune, Function.update_of_ne apart.symm]

/-! ## Removing -/

theorem holding_prune (accepts : indexer.gate.refuses .remove path = none) :
    (result.prune indexer path).holding indexer.project path = .vacant := by
  have removed := Indexer.row?_removeCalls_of_mem accepts (List.mem_singleton_self path) result.store
  exact Holding.ext removed (by simp [RunResult.holding, RunResult.prune, Holding.vacant])

theorem holding_pruneAll (accepts : ∀ path, indexer.gate.refuses .remove path = none)
    (paths : List String) (result : RunResult) (path : String) :
    (paths.foldl (fun result path => result.prune indexer path) result).holding indexer.project
      path = if path ∈ paths then .vacant else result.holding indexer.project path := by
  induction paths generalizing result with
  | nil => rw [if_neg List.not_mem_nil]; rfl
  | cons first paths induction =>
      rw [List.foldl_cons, induction]
      by_cases isFirst : first = path
      · rw [isFirst, holding_prune (accepts path), if_pos List.mem_cons_self, ite_self]
      · rw [holding_prune_of_ne isFirst]
        simp only [List.mem_cons, Ne.symm isFirst, false_or]

/-! ## Notes -/

/-- Of a file of which no new time is noted, only what is kept of it may change. -/
theorem holding_note_untimed (note : FileNote) (untimed : note.time? = none) :
    (result.note indexer path note).holding indexer.project path =
      { result.holding indexer.project path with
        kept? := (note.remembered (result.record? path)).map (·.stripped) } := by
  simp only [RunResult.holding, RunResult.note, untimed, Function.update_self]

/-- A new time that is noted is stored. -/
theorem holding_note_timed (accepts : indexer.gate.refuses .touch path = none) (note : FileNote)
    {time : FileTime} (timed : note.time? = some time) :
    (result.note indexer path note).holding indexer.project path =
      { row? := (result.store.row? indexer.project path).map (·.timed time)
        kept? := (note.remembered (result.record? path)).map (·.stripped) } := by
  have refused : ¬ (indexer.gate.refuses .touch path).isSome = true := by
    rw [accepts]
    exact Bool.false_ne_true
  simp only [RunResult.holding, RunResult.note, timed, Function.update_self,
    StoreGate.perform_touch, if_neg refused, Store.row?_touch, if_true]
  rfl

/-! ## Failures -/

theorem failed_persist (file : IndexedFile) :
    result.stats.failed ≤ (result.persist indexer file).stats.failed := by
  unfold RunResult.persist
  split
  · exact Nat.le_add_right _ _
  · exact Nat.le_add_right _ _

end RunResult

namespace Indexer

variable {indexer : Indexer} {stored : List FileState} {force : Bool} {file : WalkedFile}

theorem stripped_rememberedAs (path : String) (known : FileState) (time : FileTime) (size : Nat)
    (former : Option IndexedFile) :
    (indexer.rememberedAs path known time size former).stripped =
      indexer.rememberedAs path known time size (former.map (·.stripped)) := by
  cases former <;> rfl

/-! ## A file that is worked off -/

/-- What working off a file makes of what there is of it, given how many files have failed. -/
inductive Becomes (indexer : Indexer) (stored : List FileState) (force : Bool) (file : WalkedFile)
    (failures : Nat) (former : Holding) : Holding → Prop
  | oversize (large : file.content.bytes.size > indexer.config.scan.maxFileBytes) :
    Becomes indexer stored force file failures former former
  | failed (some : 0 < failures) : Becomes indexer stored force file failures former former
  | unchangedByTime {known : FileState}
    (outcome : indexer.outcomeOf stored force file = .unchangedByTime file.content.bytes.size)
    (recorded : recordOf? stored file.path = some known)
    (notLater : file.content.time.isLaterThan known.time = false) :
    Becomes indexer stored force file failures former
      { former with
        kept? := some (indexer.rememberedAs file.path known known.time file.content.bytes.size
          former.kept?) }
  | unchangedByContent {known : FileState}
    (outcome : indexer.outcomeOf stored force file = .unchangedByContent file.content.time)
    (recorded : recordOf? stored file.path = some known)
    (same : known.contentHash = contentHash file.content.bytes) :
    Becomes indexer stored force file failures former
      { row? := former.row?.map (·.timed file.content.time)
        kept? := some (indexer.rememberedAs file.path known file.content.time
          ((former.kept?.map (·.size)).getD 0) former.kept?) }
  | written {finished : IndexedFile} {id : String}
    (ready : (indexer.outcomeOf stored force file).candidate?.isSome)
    (isFinished : finished.bare = indexer.outline file) :
    Becomes indexer stored force file failures former
      { row? := some ⟨indexer.project, { finished.release with id }⟩
        kept? := some finished.stripped }

theorem Becomes.mono {failures more : Nat} {former left : Holding} (few : failures ≤ more)
    (becomes : indexer.Becomes stored force file failures former left) :
    indexer.Becomes stored force file more former left := by
  cases becomes with
  | oversize large => exact .oversize large
  | failed some => exact .failed (Nat.lt_of_lt_of_le some few)
  | unchangedByTime outcome recorded notLater => exact .unchangedByTime outcome recorded notLater
  | unchangedByContent outcome recorded same => exact .unchangedByContent outcome recorded same
  | written ready isFinished => exact .written ready isFinished

theorem failed_noted (result : RunResult) :
    result.stats.failed ≤ (indexer.noted stored force result file).stats.failed := by
  unfold noted
  cases indexer.outcomeOf stored force file with
  | ready _ | unchangedByTime _ | unchangedByContent _ | oversize | failed =>
      exact Nat.le_add_right _ _

theorem holding_noted_of_ne {path : String} (apart : file.path ≠ path) (result : RunResult) :
    (indexer.noted stored force result file).holding indexer.project path =
      result.holding indexer.project path := by
  unfold noted
  simp only
  split
  · rw [RunResult.holding_note_of_ne apart, RunResult.holding_note_of_ne apart]
  · exact RunResult.holding_note_of_ne apart _

/-! ## Memory -/

theorem holding_checkMemory (run : Run) (project path : String) :
    (indexer.checkMemory run).toIndexState.holding project path =
      run.toIndexState.holding project path := by
  have kept : ((run.records.map fun entry : String × IndexedFile =>
      (entry.1, entry.2.stripped)).lookup path).map (·.stripped) =
        (run.records.lookup path).map (·.stripped) := by
    rw [lookup_map_value, Option.map_map]
    rfl
  unfold checkMemory
  simp only
  split
  · rfl
  · split
    · rfl
    · exact congrArg (Holding.mk (run.store.row? project path)) kept

theorem failed_checkMemory (run : Run) :
    (indexer.checkMemory run).stats.failed = run.stats.failed := by
  have tally := congrArg ScanStats.failed (indexer.tally_checkMemory run)
  exact tally

/-! ## Reading -/

/-- A file is oversize only if it is too large. -/
theorem large_of_oversize (oversize : indexer.outcomeOf stored force file = .oversize) :
    file.content.bytes.size > indexer.config.scan.maxFileBytes := by
  rw [outcomeOf, Candidate.read_eq] at oversize
  split at oversize
  · next large => exact large
  · split at oversize
    · cases oversize
    · split at oversize
      · cases oversize
      · split at oversize <;> cases oversize

/-- A file whose time settles that it is unchanged has been recorded, and is not later. -/
theorem recorded_of_unchangedByTime {size : Nat}
    (unchanged : indexer.outcomeOf stored force file = .unchangedByTime size) :
    size = file.content.bytes.size ∧ ∃ known, recordOf? stored file.path = some known ∧
      file.content.time.isLaterThan known.time = false := by
  rw [outcomeOf, Candidate.read_eq] at unchanged
  split at unchanged
  · cases unchanged
  · split at unchanged
    · next settled =>
        cases unchanged
        cases recorded : recordOf? stored file.path with
        | none =>
            rw [recorded] at settled
            cases settled
        | some known =>
            rw [recorded] at settled
            exact ⟨rfl, known, rfl, (settledByTime_some.mp settled).2⟩
    · split at unchanged
      · cases unchanged
      · split at unchanged <;> cases unchanged

theorem statusOf_eq_unchangedByContent {state : FileState} {hash : String} :
    Detection.statusOf force (some state) hash = .unchangedByContent ↔
      force = false ∧ state.contentHash = hash := by
  cases force <;> simp [Detection.statusOf]

/-- A file whose digest settles that it is unchanged has been recorded, with this digest. -/
theorem recorded_of_unchangedByContent {time : FileTime}
    (unchanged : indexer.outcomeOf stored force file = .unchangedByContent time) :
    time = file.content.time ∧ ∃ known, recordOf? stored file.path = some known ∧
      known.contentHash = contentHash file.content.bytes := by
  rw [outcomeOf, Candidate.read_eq] at unchanged
  split at unchanged
  · cases unchanged
  · split at unchanged
    · cases unchanged
    · split at unchanged
      · cases unchanged
      · split at unchanged
        · next status =>
            cases unchanged
            cases recorded : recordOf? stored file.path with
            | none =>
                rw [recorded] at status
                cases status
            | some known =>
                rw [recorded] at status
                exact ⟨rfl, known, rfl, (statusOf_eq_unchangedByContent.mp status).2⟩
        · cases unchanged

/-- Reading a file that has to be indexed makes nothing of it yet. -/
theorem holding_noted_of_ready (ready : (indexer.outcomeOf stored force file).candidate?.isSome)
    (result : RunResult) :
    (indexer.noted stored force result file).holding indexer.project file.path =
      result.holding indexer.project file.path := by
  unfold noted
  cases outcome : indexer.outcomeOf stored force file with
  | ready candidate => exact RunResult.holding_note_untimed _ rfl
  | unchangedByTime _ | unchangedByContent _ | oversize | failed =>
      rw [outcome] at ready
      cases ready

/-- Reading a file that need not be indexed makes of it what working it off does. -/
theorem becomes_noted (accepts : indexer.gate.refuses .touch file.path = none)
    (idle : (indexer.outcomeOf stored force file).candidate? = none) (result : RunResult) :
    let noted := indexer.noted stored force result file
    indexer.Becomes stored force file noted.stats.failed
      (result.holding indexer.project file.path) (noted.holding indexer.project file.path) := by
  -- What is kept of the file is the same whether vectors are left out before it or afterwards.
  have remembers : ∀ (known : FileState) (time : FileTime) (size : Nat),
      Option.map (·.stripped) (some (indexer.rememberedAs file.path known time size
        (result.record? file.path))) = some (indexer.rememberedAs file.path known time size
          (result.holding indexer.project file.path).kept?) :=
    fun known time size => congrArg some (stripped_rememberedAs _ _ _ _ _)
  unfold noted
  cases outcome : indexer.outcomeOf stored force file with
  | ready candidate =>
      rw [outcome] at idle
      cases idle
  | oversize =>
      simp only [ReadOutcome.touchTime?]
      rw [RunResult.holding_note_untimed (indexer.readNote stored file.path .oversize) rfl]
      exact .oversize (large_of_oversize outcome)
  | failed =>
      simp only [ReadOutcome.touchTime?]
      rw [RunResult.holding_note_untimed (indexer.readNote stored file.path .failed) rfl]
      exact .failed (Nat.succ_pos _)
  | unchangedByTime size =>
      rcases recorded_of_unchangedByTime outcome with ⟨rfl, known, recorded, notLater⟩
      let size := file.content.bytes.size
      simp only [ReadOutcome.touchTime?]
      rw [RunResult.holding_note_untimed (indexer.readNote stored file.path (.unchangedByTime size))
        rfl]
      simp only [readNote, recorded, remembers]
      exact .unchangedByTime outcome recorded notLater
  | unchangedByContent time =>
      rcases recorded_of_unchangedByContent outcome with ⟨rfl, known, recorded, same⟩
      have sizes : ((result.holding indexer.project file.path).kept?.map (·.size)).getD 0 =
          ((result.record? file.path).map (·.size)).getD 0 := by
        simp only [RunResult.holding, Option.map_map]
        rfl
      simp only [ReadOutcome.touchTime?, readNote, RunResult.note_count]
      rw [RunResult.holding_note_timed accepts (indexer.touchNote stored file.path _) rfl]
      simp only [touchNote, recorded, RunResult.count, remembers, ← sizes]
      exact .unchangedByContent outcome recorded same

/-! ## Writing -/

/-- Writing a file makes of it what working it off does. -/
theorem becomes_persist {finished : IndexedFile} (path : finished.path = file.path)
    (ready : (indexer.outcomeOf stored force file).candidate?.isSome)
    (isFinished : finished.bare = indexer.outline file) (result : RunResult) :
    let written := result.persist indexer finished
    indexer.Becomes stored force file written.stats.failed
      (result.holding indexer.project file.path) (written.holding indexer.project file.path) := by
  unfold RunResult.persist
  cases asked : indexer.gate.persist result.store indexer.project finished with
  | error error => exact .failed (Nat.succ_pos _)
  | ok answer =>
      have written := (Store.persist_eq_ok (StoreGate.persist_eq_ok asked)).1
      simp only [RunResult.holding, written, Store.row?_written, path, if_true,
        Function.update_self]
      exact .written ready isFinished

variable {batch : List WalkedFile}

/-- A batch is worked off by reading its files and then writing those that have to be indexed. What
comes in between leaves alone what there is of files. -/
theorem exists_ready_processBatch (once : (batch.map (·.path)).Nodup) (position : ScanPosition)
    (run : Run) :
    let read := batch.foldl (indexer.noted stored force) run.result
    let processed := indexer.processBatch stored force position batch run
    ∃ ready : RunResult, ready.stats.failed = read.stats.failed ∧
      (∀ path, ready.holding indexer.project path = read.holding indexer.project path) ∧
      let left := (indexer.finishedFiles (indexer.candidatesOf stored force batch)).foldl
        (fun result file => result.persist indexer file) ready
      processed.stats.failed = left.stats.failed ∧
        ∀ path, processed.toIndexState.holding indexer.project path =
          left.holding indexer.project path := by
  intro read processed
  rcases indexer.processBatch_eq stored force position batch run with ⟨ready, agrees, worked⟩
  have persists := result_foldl (fun result file => result.persist indexer file)
    indexer.result_persist (indexer.finishedFiles (indexer.candidatesOf stored force batch)) ready
  have result : (indexer.readBatch stored force batch
      (run.enter .readingAndFiltering position)).2.result = read :=
    (result_collectReads once .rfl _).trans (by rw [result_enter])
  refine ⟨ready.result, ?_, ?_, ?_⟩
  · have tally := congrArg ScanStats.failed agrees.tally
    exact tally.trans (congrArg (·.stats.failed) result)
  · intro path
    rw [← result, holding_result, holding_result, IndexState.holding, agrees.store, agrees.records]
    rfl
  · rw [← persists]
    unfold processed
    rw [worked, failed_checkMemory]
    exact ⟨rfl, fun path => holding_checkMemory _ _ _⟩

/-- The files that are written are those of the batch that have to be indexed. -/
theorem exists_of_mem_finishedFiles {finished : IndexedFile}
    (member : finished ∈ indexer.finishedFiles (indexer.candidatesOf stored force batch)) :
    ∃ file ∈ batch, finished.path = file.path ∧
      (indexer.outcomeOf stored force file).candidate?.isSome := by
  rcases exists_of_mem_right (indexer.finishes_bare _) member with
    ⟨candidate, isCandidate, isFinished⟩
  rcases List.mem_filterMap.mp isCandidate with ⟨file, isFile, ready⟩
  refine ⟨file, isFile, ?_, Option.isSome_of_eq_some ready⟩
  rw [path_of_bare isFinished, indexer.candidate?_outcomeOf ready]
  rfl

theorem exists_mem_finishedFiles (member : file ∈ batch)
    (ready : (indexer.outcomeOf stored force file).candidate?.isSome) :
    ∃ finished ∈ indexer.finishedFiles (indexer.candidatesOf stored force batch),
      finished.path = file.path ∧ finished.bare = indexer.outline file := by
  rcases Option.isSome_iff_exists.mp ready with ⟨candidate, isReady⟩
  have isCandidate : candidate ∈ indexer.candidatesOf stored force batch :=
    List.mem_filterMap.mpr ⟨file, member, isReady⟩
  rcases exists_of_mem_right (indexer.finishes_bare _).flip isCandidate with
    ⟨finished, isThere, isFinished⟩
  rw [indexer.candidate?_outcomeOf isReady] at isFinished
  exact ⟨finished, isThere, path_of_bare isFinished, isFinished⟩

theorem nodup_finishedFiles (once : (batch.map (·.path)).Nodup) :
    ((indexer.finishedFiles (indexer.candidatesOf stored force batch)).map (·.path)).Nodup := by
  rw [map_path_of_forall₂ (fun _ _ => path_of_bare) (indexer.finishes_bare _)]
  refine once.sublist (sublist_map_filterMap ?_ batch)
  intro file candidate ready
  rw [indexer.candidate?_outcomeOf ready]
  rfl

/-! ## Batches -/

/-- A batch changes nothing at a path that is not that of one of its files. -/
theorem holding_processBatch_of_ne (once : (batch.map (·.path)).Nodup) {path : String}
    (nowhere : ∀ file ∈ batch, file.path ≠ path) (position : ScanPosition) (run : Run) :
    (indexer.processBatch stored force position batch run).toIndexState.holding indexer.project
      path = run.toIndexState.holding indexer.project path := by
  let here := fun result : RunResult => result.holding indexer.project path
  rcases @exists_ready_processBatch indexer stored force batch once position run with
    ⟨ready, -, read, -, left⟩
  have reads : ∀ file ∈ batch, ∀ result,
      here (indexer.noted stored force result file) = here result :=
    fun file member => holding_noted_of_ne (nowhere file member)
  have writes : ∀ finished ∈ indexer.finishedFiles (indexer.candidatesOf stored force batch),
      ∀ result : RunResult, here (result.persist indexer finished) = here result := by
    intro finished member result
    rcases exists_of_mem_finishedFiles member with ⟨file, isFile, samePath, -⟩
    exact RunResult.holding_persist_of_ne (samePath ▸ nowhere file isFile)
  rw [left]
  refine (foldl_leaves_of_mem here writes ready).trans ((read path).trans ?_)
  exact foldl_leaves_of_mem here reads run.result

/-- Working off a batch makes of each of its files what working off the file does. -/
theorem becomes_processBatch (accepts : indexer.gate.refuses .touch file.path = none)
    (once : (batch.map (·.path)).Nodup) (member : file ∈ batch) (position : ScanPosition)
    (run : Run) :
    let processed := indexer.processBatch stored force position batch run
    indexer.Becomes stored force file processed.stats.failed
      (run.toIndexState.holding indexer.project file.path)
      (processed.toIndexState.holding indexer.project file.path) := by
  intro processed
  let finishedFiles := indexer.finishedFiles (indexer.candidatesOf stored force batch)
  let here := fun result : RunResult => result.holding indexer.project file.path
  let failed := fun result : RunResult => result.stats.failed
  rcases @exists_ready_processBatch indexer stored force batch once position run with
    ⟨ready, readFailed, read, leftFailed, left⟩
  have reads : ∀ other : WalkedFile, other.path ≠ file.path → ∀ result,
      here (indexer.noted stored force result other) = here result :=
    fun other apart => holding_noted_of_ne apart
  have writes : ∀ other : IndexedFile, other.path ≠ file.path → ∀ result : RunResult,
      here (result.persist indexer other) = here result :=
    fun other apart result => RunResult.holding_persist_of_ne apart
  have failedReads : ∀ result file, failed result ≤ failed (indexer.noted stored force result file) :=
    fun result file => failed_noted result
  have failedWrites : ∀ (result : RunResult) file, failed result ≤ failed (result.persist indexer file) :=
    fun result file => result.failed_persist file
  rcases foldl_of_nodup here failed once member reads failedReads run.result with
    ⟨start, started, noted, counted⟩
  have isRead : here ready = here (indexer.noted stored force start file) :=
    (read file.path).trans noted
  rw [leftFailed, left]
  by_cases isReady : (indexer.outcomeOf stored force file).candidate?.isSome
  · rcases exists_mem_finishedFiles member isReady with ⟨finished, isThere, path, isFinished⟩
    rcases foldl_of_nodup here failed (nodup_finishedFiles once) isThere
      (fun other apart => writes other (path ▸ apart)) failedWrites ready with
      ⟨before, same, written, countedLater⟩
    have becomes : indexer.Becomes stored force file _ (here before)
        (here (before.persist indexer finished)) :=
      (becomes_persist path isReady isFinished before).mono countedLater
    have unchanged : here before = here run.result :=
      same.trans (isRead.trans ((holding_noted_of_ready isReady start).trans started))
    rw [← written, unchanged] at becomes
    exact becomes
  · have idle := Option.not_isSome_iff_eq_none.mp isReady
    have elsewhere : ∀ finished ∈ finishedFiles, ∀ result : RunResult,
        here (result.persist indexer finished) = here result := by
      intro finished isThere
      rcases exists_of_mem_finishedFiles isThere with ⟨other, isOther, path, otherReady⟩
      refine writes finished fun samePath => isReady ?_
      rwa [List.inj_on_of_nodup_map once isOther member (path.symm.trans samePath)] at otherReady
    have later := le_foldl failed failedWrites finishedFiles ready
    have becomes : indexer.Becomes stored force file _ (here start)
        (here (indexer.noted stored force start file)) :=
      (becomes_noted accepts idle start).mono (counted.trans (readFailed.ge.trans later))
    rw [← isRead, ← foldl_leaves_of_mem here elsewhere ready, started] at becomes
    exact becomes

/-! ## Files -/

theorem failed_processBatch (position : ScanPosition) (run : Run) :
    run.stats.failed ≤ (indexer.processBatch stored force position batch run).stats.failed := by
  have tally := congrArg ScanStats.failed
    (indexer.tally_processBatch stored force position batch run)
  exact (Nat.le_add_right _ _).trans tally.ge

variable {files : List WalkedFile} (once : (files.map (·.path)).Nodup)

include once

theorem nodup_of_mem_batches :
    ∀ part ∈ batches (batchSize indexer.config.scan files.length) files,
      (part.map (·.path)).Nodup := by
  intro part member
  rw [← flatten_batches (batchSize_pos indexer.config.scan files.length) files, List.map_flatten,
    List.nodup_flatten] at once
  exact once.1 _ (List.mem_map_of_mem member)

/-- No other batch has a file of the same path. -/
theorem apart_of_batches {front rest : List (List WalkedFile)} {part : List WalkedFile}
    (parts : batches (batchSize indexer.config.scan files.length) files = front ++ part :: rest)
    (member : file ∈ part) : ∀ other ∈ front ++ rest, ∀ item ∈ other, item.path ≠ file.path := by
  have flattened := flatten_batches (batchSize_pos indexer.config.scan files.length) files
  rw [parts] at flattened
  rw [← flattened, List.map_flatten, List.nodup_flatten, List.map_append, List.map_cons,
    List.pairwise_append, List.pairwise_cons] at once
  rcases once.2 with ⟨-, ⟨later, -⟩, earlier⟩
  have isPath : file.path ∈ part.map (·.path) := List.mem_map_of_mem member
  intro other isOther item isItem same
  have isOtherPath : file.path ∈ other.map (·.path) := List.mem_map.mpr ⟨item, isItem, same⟩
  rcases List.mem_append.mp isOther with isBefore | isAfter
  · exact earlier _ (List.mem_map_of_mem isBefore) _ List.mem_cons_self isOtherPath isPath
  · exact later _ (List.mem_map_of_mem isAfter) isPath isOtherPath

/-- Working off files changes nothing at other paths. -/
theorem holding_processFiles_of_ne {path : String} (nowhere : ∀ file ∈ files, file.path ≠ path)
    (run : Run) :
    (indexer.processFiles stored force files run).toIndexState.holding indexer.project path =
      run.toIndexState.holding indexer.project path := by
  refine foldl_leaves_of_mem (fun reached : Run × ScanPosition =>
    reached.1.toIndexState.holding indexer.project path) ?_ _
  intro part isPart reached
  apply holding_processBatch_of_ne (nodup_of_mem_batches once part isPart)
  intro file member
  apply nowhere
  rw [← flatten_batches (batchSize_pos indexer.config.scan files.length) files]
  exact List.mem_flatten_of_mem isPart member

/-- Working off files makes of each of them what working off the file does. -/
theorem becomes_processFiles (accepts : indexer.gate.refuses .touch file.path = none)
    (member : file ∈ files) (run : Run) :
    let processed := indexer.processFiles stored force files run
    indexer.Becomes stored force file processed.stats.failed
      (run.toIndexState.holding indexer.project file.path)
      (processed.toIndexState.holding indexer.project file.path) := by
  intro processed
  let here := fun reached : Run × ScanPosition =>
    reached.1.toIndexState.holding indexer.project file.path
  let failed := fun reached : Run × ScanPosition => reached.1.stats.failed
  let parts := batches (batchSize indexer.config.scan files.length) files
  rw [← flatten_batches (batchSize_pos indexer.config.scan files.length) files] at member
  rcases List.mem_flatten.mp member with ⟨part, isPart, isFile⟩
  rcases List.append_of_mem isPart with ⟨front, rest, split⟩
  have apart := apart_of_batches once split isFile
  have alone : ∀ part ∈ parts, (part.map (·.path)).Nodup := nodup_of_mem_batches once
  unfold parts at alone
  rw [split] at alone
  have elsewhere : ∀ other ∈ front ++ rest, ∀ reached,
      here (indexer.batchStep stored force reached other) = here reached := by
    intro other isOther reached
    refine holding_processBatch_of_ne (alone other ?_) (apart other isOther) _ _
    rcases List.mem_append.mp isOther with isBefore | isAfter
    · exact List.mem_append_left _ isBefore
    · exact List.mem_append_right _ (List.mem_cons_of_mem _ isAfter)
  rcases foldl_append_cons here failed
    (fun other isBefore => elsewhere other (List.mem_append_left _ isBefore))
    (fun other isAfter => elsewhere other (List.mem_append_right _ isAfter))
    (fun reached part => failed_processBatch _ reached.1)
    (run, { total := files.length, batches := parts.length }) with
    ⟨start, started, left, counted⟩
  have becomes : indexer.Becomes stored force file _ (here start)
      (here (indexer.batchStep stored force start part)) :=
    (becomes_processBatch accepts (alone part (List.mem_append_right _ List.mem_cons_self)) isFile
      _ start.1).mono counted
  rw [← left, started, ← split] at becomes
  exact becomes

omit once

/-! ## Removing -/

theorem holding_without {paths : List String}
    (accepts : ∀ path ∈ paths, indexer.gate.refuses .remove path = none) (state : IndexState)
    (path : String) : (indexer.without paths state).holding indexer.project path =
      if path ∈ paths then .vacant else state.holding indexer.project path := by
  induction paths generalizing state with
  | nil => rw [if_neg List.not_mem_nil]; rfl
  | cons first paths induction =>
      rw [List.forall_mem_cons] at accepts
      have looked := congrFun (RecordIndex.lookup_erase state.records first) path
      let next : IndexState :=
        { state with
          store := indexer.gate.perform state.store (.remove indexer.project first)
          records := RecordIndex.erase state.records first }
      have step : indexer.without (first :: paths) state = indexer.without paths next := rfl
      rw [step, induction accepts.2]
      rcases eq_or_ne path first with rfl | isOther
      · have removed := row?_removeCalls_of_mem accepts.1 (List.mem_singleton_self path) state.store
        have vacated : next.holding indexer.project path = .vacant := by
          apply Holding.ext removed
          simp only [IndexState.holding, next, looked, Function.update_self]
          rfl
        rw [vacated, if_pos List.mem_cons_self, ite_self]
      · have kept : next.holding indexer.project path = state.holding indexer.project path := by
          apply Holding.ext
          · apply indexer.gate.row?_perform_elsewhere
            exact fun same => isOther (Prod.mk.inj same).2.symm
          · simp only [IndexState.holding, next, looked, Function.update_of_ne isOther]
        rw [kept]
        simp only [List.mem_cons, isOther, false_or]

/-! ## Runs -/

/-- What there is at a path when the files that are gone have been removed. -/
theorem holding_cleared {disk : FileTree} {paths : List String}
    (accepts : ∀ path ∈ indexer.goneAt disk paths, indexer.gate.refuses .remove path = none)
    (state : IndexState) (path : String) :
    (indexer.cleared disk paths state).toIndexState.holding indexer.project path =
      if path ∈ indexer.goneAt disk paths then .vacant
      else state.holding indexer.project path :=
  holding_without accepts (indexer.begun .incremental (indexer.filesAt disk paths) state).toIndexState
    path

section

variable {disk : FileTree} {paths : List String} {state : IndexState}
  (succeeds : (indexer.indexPaths disk paths state).1.success = true)

include succeeds

/-- Indexing single paths leaves nothing at a path that is gone, and what there has been at a path
that is neither gone nor that of a file. -/
theorem holding_indexPaths_of_ne {path : String}
    (nowhere : ∀ file ∈ indexer.filesAt disk paths, file.path ≠ path) :
    (indexer.indexPaths disk paths state).2.toIndexState.holding indexer.project path =
      if path ∈ indexer.goneAt disk paths then .vacant
      else state.holding indexer.project path := by
  rw [indexPaths_of_success succeeds,
    ← holding_cleared (accepts_of_indexPaths succeeds).2 state path]
  exact holding_processFiles_of_ne (nodup_presentFiles _) nowhere _

end

end Indexer

end SourceIndex
