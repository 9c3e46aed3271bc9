import SourceIndex.Proofs.Lookup
import SourceIndex.Proofs.Scan.Sequences
import Mathlib.Logic.Function.Basic

/-! What a run comes to, and what every step of it adds to that. Steps that are about different
files can change places, apart from two that both write. The stages of a batch that come in between,
such as embedding and analysing files, leave alone what is stored, what is kept in memory and what is
counted of files. -/

namespace SourceIndex

/-! ## Counts -/

namespace ScanStats

def plus (stats more : ScanStats) : ScanStats where
  totalFiles := stats.totalFiles + more.totalFiles
  processed := stats.processed + more.processed
  indexed := stats.indexed + more.indexed
  totalLines := stats.totalLines + more.totalLines
  skippedByTime := stats.skippedByTime + more.skippedByTime
  skippedByContent := stats.skippedByContent + more.skippedByContent
  skippedOversize := stats.skippedOversize + more.skippedOversize
  embedded := stats.embedded + more.embedded
  embeddingFailures := stats.embeddingFailures + more.embeddingFailures
  ackSuccess := stats.ackSuccess + more.ackSuccess
  ackFailed := stats.ackFailed + more.ackFailed
  failed := stats.failed + more.failed
  pruned := stats.pruned + more.pruned
  memoryShrinks := stats.memoryShrinks + more.memoryShrinks

theorem plus_right_comm (stats more other : ScanStats) :
    (stats.plus more).plus other = (stats.plus other).plus more := by
  simp only [plus, Nat.add_right_comm _ _ _]

theorem plus_assoc (stats more other : ScanStats) :
    (stats.plus more).plus other = stats.plus (more.plus other) := by
  simp only [plus, Nat.add_assoc]

end ScanStats

/-! ## Files in memory -/

namespace RecordIndex

theorem lookup_set (file : IndexedFile) (records : RecordIndex) :
    (fun path => (set file records).lookup path) =
      Function.update (fun path => records.lookup path) file.path (some file) := by
  funext path
  induction records with
  | nil =>
      rw [set, Function.update_apply, List.lookup_cons]
      by_cases same : path = file.path
      · rw [if_pos same, same, beq_self_eq_true]
      · rw [if_neg same, beq_false_of_ne same]
  | cons entry records induction =>
      rcases entry with ⟨other, record⟩
      rw [Function.update_apply] at induction ⊢
      rw [set]
      by_cases isHere : other = file.path
      · rw [if_pos isHere, List.lookup_cons, List.lookup_cons]
        by_cases same : path = file.path
        · rw [if_pos same, same, isHere, beq_self_eq_true]
        · rw [if_neg same, isHere, beq_false_of_ne same]
      · rw [if_neg isHere, List.lookup_cons, List.lookup_cons, induction]
        by_cases same : path = other
        · simp only [same, beq_self_eq_true, if_neg isHere]
        · rw [beq_false_of_ne same]

theorem lookup_erase (records : RecordIndex) (path : String) :
    (fun other => (erase records path).lookup other) =
      Function.update (fun other => records.lookup other) path none := by
  funext other
  rw [Function.update_apply]
  exact lookup_filter_ne records path other

end RecordIndex

/-! ## Calls about different paths -/

/-- The row of a file that has a new time. -/
def FileRow.timed (time : FileTime) (row : FileRow) : FileRow :=
  { row with file := { row.file with time } }

theorem FileRow.place_timed (time : FileTime) (row : FileRow) :
    (row.timed time).place = row.place := rfl

theorem FileRow.id_timed (time : FileTime) (row : FileRow) :
    (row.timed time).file.id = row.file.id := rfl

namespace Store

open Mirrors (changeAt)

variable {store : Store} {project path otherProject otherPath : String} {time : FileTime}

theorem touch_eq (store : Store) (project path : String) (time : FileTime) :
    (store.touch project path time).2 =
      { store with files := changeAt project path (.timed time) store.files } := rfl

/-- Changes of the rows at two places can change places. -/
theorem changeAt_comm {change later : FileRow → FileRow}
    (apart : (project, path) ≠ (otherProject, otherPath))
    (stays : ∀ row, row.isAt project path = true → (change row).place = row.place)
    (staysLater : ∀ row, (later row).place = row.place) (files : List FileRow) :
    changeAt project path change (changeAt otherProject otherPath later files) =
      changeAt otherProject otherPath later (changeAt project path change files) := by
  rw [changeAt, changeAt, changeAt, changeAt, List.map_map, List.map_map]
  apply List.map_congr_left
  intro row _
  simp only [Function.comp_apply, FileRow.isAt_iff_place]
  by_cases here : row.place = (project, path)
  · have elsewhere : row.place ≠ (otherProject, otherPath) := here ▸ apart
    rw [if_neg elsewhere, if_pos here, stays row ((row.isAt_iff_place _ _).mpr here),
      if_neg elsewhere]
  · rw [if_neg here]
    split
    · rw [staysLater, if_neg here]
    · rfl

theorem touch_comm (apart : (project, path) ≠ (otherProject, otherPath)) (later : FileTime) :
    ((store.touch project path time).2.touch otherProject otherPath later).2 =
      ((store.touch otherProject otherPath later).2.touch project path time).2 := by
  simp only [touch_eq]
  rw [changeAt_comm apart (fun row _ => row.place_timed time) (FileRow.place_timed later)]

theorem putFile_touch {file : IndexedFile}
    (apart : (project, file.path) ≠ (otherProject, otherPath)) :
    (store.touch otherProject otherPath time).2.putFile project file =
      (store.putFile project file).map fun (durable, after) =>
        (durable, (after.touch otherProject otherPath time).2) := by
  have ids : (store.touch otherProject otherPath time).2.files.any (·.file.id == file.id) =
      store.files.any (·.file.id == file.id) := by
    have same : (changeAt otherProject otherPath (.timed time) store.files).map (·.file.id) =
        store.files.map (·.file.id) := map_id_changeAt (FileRow.id_timed time) store.files
    have any := congrArg (·.any (· == file.id)) same
    simp only [List.any_map] at any
    exact any
  unfold putFile
  rw [row?_touch, if_neg apart, ids]
  cases store.row? project file.path with
  | some row =>
      refine congrArg (fun files => Except.ok (row.file.id, { store with files })) ?_
      exact changeAt_comm apart (fun _ => FileRow.place_revise) (FileRow.place_timed time)
        store.files
  | none =>
      simp only
      split
      · rfl
      · have elsewhere : FileRow.isAt ⟨project, file.release⟩ otherProject otherPath = false := by
          rw [← Bool.not_eq_true, FileRow.isAt_iff_place]
          exact apart
        have added : changeAt otherProject otherPath (.timed time)
            (store.files ++ [⟨project, file.release⟩]) =
              changeAt otherProject otherPath (.timed time) store.files ++
                [⟨project, file.release⟩] := by
          rw [changeAt, List.map_append, List.map_singleton, elsewhere]
          rfl
        exact congrArg (fun files => Except.ok (file.id, { store with files })) added.symm

/-- Whether a file of another path is touched before a file is written or afterwards makes no
difference. -/
theorem persist_touch {file : IndexedFile}
    (apart : (project, file.path) ≠ (otherProject, otherPath)) :
    (store.touch otherProject otherPath time).2.persist project file =
      (store.persist project file).map fun (acks, after) =>
        (acks, (after.touch otherProject otherPath time).2) := by
  unfold persist
  rw [putFile_touch apart]
  cases store.putFile project file with
  | error error => rfl
  | ok answer =>
      cases file.analysis with
      | none => rfl
      | some analysis => rfl

end Store

/-! ## Results -/

def ProgressEvent.isOfFile : ProgressEvent → Bool
  | fileIndexed _ _ _ _ => true
  | _ => false

/-- What a run comes to. How it goes about its files is left out: its phases, and the order in which
files are kept in memory. -/
@[ext]
structure RunResult where
  store : Store
  record? : String → Option IndexedFile
  stats : ScanStats
  /-- What is told of the files that are indexed. -/
  indexed : List ProgressEvent

def Run.result (run : Run) : RunResult where
  store := run.store
  record? path := run.records.lookup path
  stats := run.stats
  indexed := run.events.filter (·.isOfFile)

/-- What is noted of a file that is not written: counts, what becomes of the file in memory, and the
new time that is stored. -/
structure FileNote where
  counted : ScanStats := {}
  remembered : Option IndexedFile → Option IndexedFile := id
  time? : Option FileTime := none

namespace RunResult

def count (more : ScanStats) (result : RunResult) : RunResult :=
  { result with stats := result.stats.plus more }

def note (indexer : Indexer) (path : String) (note : FileNote) (result : RunResult) :
    RunResult where
  store := match note.time? with
    | some time => indexer.gate.perform result.store (.touch indexer.project path time)
    | none => result.store
  record? := Function.update result.record? path (note.remembered (result.record? path))
  stats := result.stats.plus note.counted
  indexed := result.indexed

/-- What is counted when a file has been written. -/
def countsOf (acks : List WriteAck) (file : IndexedFile) : ScanStats :=
  let confirmed := acks.countP (·.isConfirmed)
  { ackSuccess := confirmed, ackFailed := acks.length - confirmed, indexed := 1,
    totalLines := file.lineCount }

def persist (indexer : Indexer) (file : IndexedFile) (result : RunResult) : RunResult :=
  match indexer.gate.persist result.store indexer.project file with
  | .error _ => result.count { ackFailed := 1, failed := 1 }
  | .ok (acks, store) =>
    { store
      record? := Function.update result.record? file.path (some file.release)
      stats := result.stats.plus (countsOf acks file)
      indexed := result.indexed ++
        [.fileIndexed file.path file.language file.lineCount file.embedding.isSome] }

def prune (indexer : Indexer) (path : String) (result : RunResult) : RunResult where
  store := Indexer.storeAfter result.store
    (indexer.gate.remove result.store indexer.project path)
  record? := Function.update result.record? path none
  stats := match indexer.gate.remove result.store indexer.project path with
    | .ok (true, _) => result.stats.plus { pruned := 1 }
    | _ => result.stats
  indexed := result.indexed

end RunResult

namespace Indexer

variable (indexer : Indexer)

/-! ## Steps of a run -/

@[simp] theorem result_enter (run : Run) (phase : ScanPhase) (position : ScanPosition) :
    (run.enter phase position).result = run.result := by
  unfold Run.enter Run.emit Run.result
  simp only [List.filter_append]
  rw [List.filter_cons_of_neg Bool.false_ne_true, List.filter_nil, List.append_nil]

@[simp] theorem result_finish (run : Run) (error : Option ScanError) :
    (indexer.finish run error).2.result = run.result := by
  unfold finish Run.finish Run.emit Run.result
  simp only [List.filter_append]
  rw [List.filter_cons_of_neg Bool.false_ne_true, List.filter_nil, List.append_nil]

/-- A file as it is kept in memory when it has not been indexed anew. -/
def rememberedAs (path : String) (known : FileState) (time : FileTime) (size : Nat)
    (former : Option IndexedFile) : IndexedFile :=
  match former with
  | some record => { record with time, path }
  | none =>
    let name := IndexedFile.nameOf path
    { id := known.id
      path
      name
      extension := IndexedFile.extensionOf path
      language := (indexer.classifier name ByteArray.empty).languageId
      contentHash := known.contentHash
      size
      lineCount := 0
      time }

theorem result_remember (path : String) (known : FileState) (time : FileTime) (size : Nat)
    (run : Run) : (indexer.remember path known time size run).result =
      { run.result with
        record? := Function.update run.result.record? path
          (some (indexer.rememberedAs path known time size (run.result.record? path))) } := by
  unfold remember
  cases found : run.records.lookup path with
  | some record =>
      have isRemembered : run.result.record? path = some record := found
      rw [isRemembered]
      exact RunResult.ext rfl (RecordIndex.lookup_set _ _) rfl rfl
  | none =>
      have isRemembered : run.result.record? path = none := found
      rw [isRemembered]
      exact RunResult.ext rfl (RecordIndex.lookup_set _ _) rfl rfl

/-- What is noted of a file when it has been read. -/
def readNote (stored : List FileState) (path : String) : ReadOutcome → FileNote
  | .ready _ | .unchangedByContent _ => { counted := { processed := 1 } }
  | .unchangedByTime size =>
    { counted := { processed := 1, skippedByTime := 1 }
      remembered := match recordOf? stored path with
        | some known => fun former =>
          some (indexer.rememberedAs path known known.time size former)
        | none => id }
  | .oversize => { counted := { processed := 1, skippedOversize := 1 } }
  | .failed => { counted := { processed := 1, failed := 1 } }

theorem RunResult.note_count (path : String) (counted : ScanStats) (result : RunResult) :
    result.note indexer path { counted } = result.count counted :=
  RunResult.ext rfl (Function.update_eq_self path result.record?) rfl rfl

theorem result_takeRead (stored : List FileState) (reads : Reads) (place : Nat) (path : String)
    (outcome : ReadOutcome) :
    (indexer.takeRead stored reads place path outcome).run.result =
      reads.run.result.note indexer path (indexer.readNote stored path outcome) := by
  cases outcome with
  | unchangedByTime size =>
      simp only [takeRead, readNote]
      cases recordOf? stored path with
      | some known => exact indexer.result_remember _ _ _ _ _
      | none =>
          rw [RunResult.note_count]
          rfl
  | ready _ | unchangedByContent _ | oversize | failed =>
      rw [readNote, RunResult.note_count]
      rfl

/-- What is noted of a file whose content has not changed. -/
def touchNote (stored : List FileState) (path : String) (time : FileTime) : FileNote where
  counted := { skippedByContent := 1 }
  remembered := match recordOf? stored path with
    | some known => fun former =>
      some (indexer.rememberedAs path known time ((former.map (·.size)).getD 0) former)
    | none => id
  time? := some time

theorem result_touch (stored : List FileState) (run : Run) (path : String) (time : FileTime) :
    (indexer.touch stored run path time).result =
      run.result.note indexer path (indexer.touchNote stored path time) := by
  have performed : indexer.gate.perform run.result.store (.touch indexer.project path time) =
      storeAfter run.store (indexer.gate.touch run.store indexer.project path time) := rfl
  unfold touch touchNote RunResult.note
  simp only [performed, store_count]
  cases indexer.gate.touch run.store indexer.project path time with
  | error error =>
      cases recordOf? stored path with
      | some known => exact indexer.result_remember _ _ _ _ _
      | none => exact RunResult.ext rfl (Function.update_eq_self path _).symm rfl rfl
  | ok answer =>
      cases recordOf? stored path with
      | some known => exact indexer.result_remember _ _ _ _ _
      | none => exact RunResult.ext rfl (Function.update_eq_self path _).symm rfl rfl

theorem result_persist (run : Run) (file : IndexedFile) :
    (indexer.persist run file).result = run.result.persist indexer file := by
  unfold persist RunResult.persist
  have sameStore : run.result.store = run.store := rfl
  rw [sameStore]
  cases indexer.gate.persist run.store indexer.project file with
  | error error => rfl
  | ok answer =>
      refine RunResult.ext rfl (RecordIndex.lookup_set _ _) rfl ?_
      exact List.filter_append _ _

theorem result_prune (run : Run) (path : String) :
    (indexer.prune run path).result = run.result.prune indexer path := by
  unfold prune RunResult.prune
  have sameStore : run.result.store = run.store := rfl
  rw [sameStore]
  cases indexer.gate.remove run.store indexer.project path with
  | error error => exact RunResult.ext rfl (RecordIndex.lookup_erase _ _) rfl rfl
  | ok answer =>
      rcases answer with ⟨wasThere, store⟩
      cases wasThere with
      | true => exact RunResult.ext rfl (RecordIndex.lookup_erase _ _) rfl rfl
      | false => exact RunResult.ext rfl (RecordIndex.lookup_erase _ _) rfl rfl

end Indexer

/-! ## Steps that can change places -/

namespace StoreGate

variable {gate : StoreGate} {store : Store} {project path otherPath : String}

theorem perform_touch (gate : StoreGate) (store : Store) (project path : String)
    (time : FileTime) : gate.perform store (.touch project path time) =
      if (gate.refuses .touch path).isSome then store else (store.touch project path time).2 := by
  simp only [perform, StoreGate.touch, attempt]
  cases gate.refuses .touch path with
  | some error => rfl
  | none => rfl

theorem perform_touch_comm (apart : path ≠ otherPath) (time later : FileTime) :
    gate.perform (gate.perform store (.touch project path time))
        (.touch project otherPath later) =
      gate.perform (gate.perform store (.touch project otherPath later))
        (.touch project path time) := by
  have places : (project, path) ≠ (project, otherPath) := fun same => apart (Prod.mk.inj same).2
  simp only [perform_touch]
  split
  · rfl
  · split
    · rfl
    · exact Store.touch_comm places later

theorem persist_perform_touch {file : IndexedFile} (apart : file.path ≠ path) (time : FileTime) :
    gate.persist (gate.perform store (.touch project path time)) project file =
      (gate.persist store project file).map fun (acks, after) =>
        (acks, gate.perform after (.touch project path time)) := by
  have places : (project, file.path) ≠ (project, path) := fun same => apart (Prod.mk.inj same).2
  simp only [perform_touch]
  by_cases refused : (gate.refuses .touch path).isSome
  · simp only [if_pos refused]
    exact (id_map (gate.persist store project file)).symm
  · simp only [if_neg refused]
    unfold StoreGate.persist attempt
    cases gate.refuses .persist file.path with
    | some error => rfl
    | none => exact Store.persist_touch places

end StoreGate

namespace RunResult

variable {indexer : Indexer} {result : RunResult} {path otherPath : String}

theorem note_comm (apart : path ≠ otherPath) (note later : FileNote) :
    (result.note indexer path note).note indexer otherPath later =
      (result.note indexer otherPath later).note indexer path note := by
  refine RunResult.ext ?_ ?_ (ScanStats.plus_right_comm _ _ _) rfl
  · simp only [RunResult.note]
    cases note.time? with
    | none => rfl
    | some time =>
        cases later.time? with
        | none => rfl
        | some laterTime => exact StoreGate.perform_touch_comm apart time laterTime
  · simp only [RunResult.note, Function.update_of_ne apart, Function.update_of_ne apart.symm]
    exact Function.update_comm apart _ _ _

theorem count_note (more : ScanStats) (note : FileNote) :
    (result.count more).note indexer path note = (result.note indexer path note).count more :=
  RunResult.ext rfl rfl (ScanStats.plus_right_comm _ _ _) rfl

theorem count_persist (more : ScanStats) (file : IndexedFile) :
    (result.count more).persist indexer file = (result.persist indexer file).count more := by
  have same : (result.count more).store = result.store := rfl
  unfold persist
  rw [same]
  cases indexer.gate.persist result.store indexer.project file with
  | error error => exact RunResult.ext rfl rfl (ScanStats.plus_right_comm _ _ _) rfl
  | ok answer => exact RunResult.ext rfl rfl (ScanStats.plus_right_comm _ _ _) rfl

theorem persist_note {file : IndexedFile} (apart : file.path ≠ path) (note : FileNote) :
    (result.persist indexer file).note indexer path note =
      (result.note indexer path note).persist indexer file := by
  have asked : indexer.gate.persist (result.note indexer path note).store indexer.project file =
      (indexer.gate.persist result.store indexer.project file).map fun (acks, after) =>
        (acks, match note.time? with
          | some time => indexer.gate.perform after (.touch indexer.project path time)
          | none => after) := by
    simp only [RunResult.note]
    cases note.time? with
    | none => exact (id_map (indexer.gate.persist result.store indexer.project file)).symm
    | some time => exact StoreGate.persist_perform_touch apart time
  unfold persist
  rw [asked]
  cases indexer.gate.persist result.store indexer.project file with
  | error error => exact count_note _ note
  | ok answer =>
      refine RunResult.ext rfl ?_ (ScanStats.plus_right_comm _ _ _) rfl
      simp only [RunResult.note, Function.update_of_ne apart.symm, Except.map]
      exact Function.update_comm apart _ _ _

end RunResult

/-! ## Stages of a batch -/

namespace ScanStats

/-- What is counted of the files that are worked off, apart from vectors and memory. -/
def tally (stats : ScanStats) : ScanStats :=
  { stats with embedded := 0, embeddingFailures := 0, memoryShrinks := 0, pruned := 0 }

theorem tally_plus (stats more : ScanStats) :
    (stats.plus more).tally = stats.tally.plus more.tally := rfl

end ScanStats

/-- Whether two runs agree in what is stored, in what is kept in memory and in what is counted of
files. -/
structure Run.Agrees (run other : Run) : Prop where
  store : run.store = other.store
  records : run.records = other.records
  tally : run.stats.tally = other.stats.tally

theorem Run.Agrees.trans {run other third : Run} (first : run.Agrees other)
    (second : other.Agrees third) : run.Agrees third :=
  ⟨first.store.trans second.store, first.records.trans second.records,
    first.tally.trans second.tally⟩

theorem Run.agrees_enter (run : Run) (phase : ScanPhase) (position : ScanPosition) :
    (run.enter phase position).Agrees run := ⟨rfl, rfl, rfl⟩

namespace Indexer

variable (indexer : Indexer)

/-! ## Embedding -/

theorem agrees_embedFiles (candidates : List Candidate) (run : Run) :
    (indexer.embedFiles candidates run).2.2.Agrees run := by
  unfold embedFiles
  simp only
  split
  · exact ⟨rfl, rfl, rfl⟩
  · split <;> exact ⟨rfl, rfl, rfl⟩

theorem agrees_embedChunks (files : List IndexedFile) (run : Run) :
    (indexer.embedChunks files run).2.Agrees run := by
  unfold embedChunks
  simp only
  split
  · exact ⟨rfl, rfl, rfl⟩
  · split <;> exact ⟨rfl, rfl, rfl⟩

/-! ## Memory -/

theorem tally_checkMemory (run : Run) :
    (indexer.checkMemory run).stats.tally = run.stats.tally := by
  unfold checkMemory
  simp only
  split
  · rfl
  · split <;> rfl

/-! ## Batches -/

/-- Indexing some files is writing them as they have been finished. -/
theorem indexCandidates_eq (position : ScanPosition) (candidates : List Candidate) (run : Run) :
    ∃ ready, ready.Agrees run ∧ indexer.indexCandidates position candidates run =
      (indexer.finishedFiles candidates).foldl indexer.persist ready := by
  have same := indexer.embedFiles_eq candidates (run.enter .embedding position)
  have embedded := (indexer.agrees_embedFiles candidates (run.enter .embedding position)).trans
    (run.agrees_enter .embedding position)
  unfold indexCandidates finishedFiles
  simp only [← same.1, ← same.2]
  split
  · rw [← indexer.embedChunks_eq]
    refine ⟨_, ?_, rfl⟩
    exact (Run.agrees_enter _ _ _).trans ((indexer.agrees_embedChunks _ _).trans
      ((Run.agrees_enter _ _ _).trans embedded))
  · exact ⟨_, (Run.agrees_enter _ _ _).trans ((Run.agrees_enter _ _ _).trans embedded), rfl⟩

/-- Working off a batch is reading its files and then writing those that have to be indexed. -/
theorem processBatch_eq (stored : List FileState) (force : Bool) (position : ScanPosition)
    (batch : List WalkedFile) (run : Run) :
    let read := indexer.readBatch stored force batch (run.enter .readingAndFiltering position)
    ∃ ready, ready.Agrees read.2 ∧ indexer.processBatch stored force position batch run =
      indexer.checkMemory ((indexer.finishedFiles
        (indexer.candidatesOf stored force batch)).foldl indexer.persist ready) := by
  intro read
  have candidates : read.1 = indexer.candidatesOf stored force batch :=
    indexer.candidates_readBatch stored force batch _
  have processed : indexer.processBatch stored force position batch run =
      indexer.checkMemory (if read.1.isEmpty then read.2
        else indexer.indexCandidates position read.1 read.2) := rfl
  rw [processed, candidates]
  split
  · next none =>
      have nothing : indexer.finishedFiles [] = [] :=
        List.map_eq_nil_iff.mp (indexer.map_bare_finishedFiles [])
      rw [List.isEmpty_iff.mp none, nothing]
      exact ⟨read.2, ⟨rfl, rfl, rfl⟩, rfl⟩
  · rcases indexer.indexCandidates_eq position (indexer.candidatesOf stored force batch) read.2 with
      ⟨ready, agrees, indexed⟩
    exact ⟨ready, agrees, congrArg indexer.checkMemory indexed⟩

/-- Reading a batch is taking what has become of each file and then storing new times. -/
theorem readBatch_eq (stored : List FileState) (force : Bool) (batch : List WalkedFile)
    (run : Run) : (indexer.readBatch stored force batch run).2 =
      (indexer.touchesOf stored force batch).foldl
        (fun run (path, time) => indexer.touch stored run path time)
        ((indexer.outcomesOf stored force batch).foldl (fun reads (place, path, outcome) =>
          indexer.takeRead stored reads place path outcome) { run }).run := by
  have taken :=
    (indexer.takeReads_eq stored (indexer.outcomesOf stored force batch) { run }).2.2
  have touches : (indexer.outcomesOf stored force batch).filterMap touchOf =
      indexer.touchesOf stored force batch :=
    indexer.filterMap_outcomesOf stored force batch fun outcome =>
      outcome.2.touchTime?.map fun time => (outcome.1, time)
  rw [List.nil_append, touches] at taken
  rw [← taken]
  rfl

end Indexer

end SourceIndex
