import SourceIndex.Proofs.Store.Views
import SourceIndex.Scan.Indexer

/-! What reading a batch comes to: which of its files have to be indexed, and what is stored of
those whose content has not changed. -/

namespace SourceIndex

/-! ## One file -/

/-- What is to be indexed of a file that has been read. -/
def Candidate.ofFile (classifier : Classifier) (file : WalkedFile) : Candidate :=
  let reading := FileReading.ofBytes file.content.bytes
  { path := file.path
    time := file.content.time
    content := reading.text
    contentHash := reading.contentHash
    size := reading.size
    fileClass := classifier (IndexedFile.nameOf file.path)
      (reading.text.toUTF8.extract 0 Candidate.leadSize) }

/-- What becomes of a file depends on its size, on its time, on whether it can be read and on its
content, each of them counting only if those before have not settled it. -/
theorem Candidate.read_eq (maxBytes : Nat) (classifier : Classifier) (force : Bool)
    (recorded : Option FileState) (file : WalkedFile) :
    read maxBytes classifier force recorded file =
      if file.content.bytes.size > maxBytes then .oversize
      else if Detection.settledByTime force recorded file.content.time then
        .unchangedByTime file.content.bytes.size
      else if file.content.isReadable = false then .failed
      else if Detection.statusOf force recorded (SourceIndex.contentHash file.content.bytes) =
          .unchangedByContent then
        .unchangedByContent file.content.time
      else .ready (ofFile classifier file) := by
  unfold read
  simp only
  split
  · rfl
  · next small =>
      unfold Detection.detect
      cases settled : Detection.settledByTime force recorded file.content.time with
      | true => rfl
      | false =>
          cases file.content.isReadable with
          | false => rfl
          | true =>
              simp only [Bool.false_eq_true, if_true, if_false, Bool.true_eq_false]
              have hash : (FileReading.ofBytes file.content.bytes).contentHash =
                  SourceIndex.contentHash file.content.bytes := rfl
              rw [hash]
              cases status : Detection.statusOf force recorded
                (SourceIndex.contentHash file.content.bytes) with
              | new | changed | unchangedByContent => rfl
              | unchangedByTime =>
                  unfold Detection.statusOf at status
                  split at status
                  · cases status
                  · split at status <;> cases status

namespace ReadOutcome

def candidate? : ReadOutcome → Option Candidate
  | ready candidate => some candidate
  | _ => none

/-- The new time of a file whose content has not changed. -/
def touchTime? : ReadOutcome → Option FileTime
  | unchangedByContent time => some time
  | _ => none

end ReadOutcome

namespace Indexer

variable (indexer : Indexer)

/-- What becomes of a file, given what is recorded of the files of its project. -/
def outcomeOf (stored : List FileState) (force : Bool) (file : WalkedFile) : ReadOutcome :=
  Candidate.read indexer.config.scan.maxFileBytes indexer.classifier force
    (recordOf? stored file.path) file

/-- The files of a batch that have to be indexed. -/
def candidatesOf (stored : List FileState) (force : Bool) (batch : List WalkedFile) :
    List Candidate :=
  batch.filterMap fun file => (indexer.outcomeOf stored force file).candidate?

/-- The new times of the files of a batch whose content has not changed. -/
def touchesOf (stored : List FileState) (force : Bool) (batch : List WalkedFile) :
    List (String × FileTime) :=
  batch.filterMap fun file =>
    (indexer.outcomeOf stored force file).touchTime?.map fun time => (file.path, time)

/-! ## Steps -/

@[simp] theorem store_count (run : Run) (change : ScanStats → ScanStats) :
    (run.count change).store = run.store := rfl

@[simp] theorem store_remember (path : String) (known : FileState) (time : FileTime) (size : Nat)
    (run : Run) : (indexer.remember path known time size run).store = run.store := by
  unfold remember
  split
  · rfl
  · rfl

/-- The file at a place of a batch, if it has to be indexed. -/
def readyOf (outcome : Nat × String × ReadOutcome) : Option (Nat × Candidate) :=
  outcome.2.2.candidate?.map fun candidate => (outcome.1, candidate)

/-- The path and the new time of a file whose content has not changed. -/
def touchOf (outcome : Nat × String × ReadOutcome) : Option (String × FileTime) :=
  outcome.2.2.touchTime?.map fun time => (outcome.2.1, time)

/-- Taking what has become of a file changes nothing that is stored. -/
theorem takeRead_eq (stored : List FileState) (reads : Reads) (place : Nat) (path : String)
    (outcome : ReadOutcome) :
    let taken := indexer.takeRead stored reads place path outcome
    taken.run.store = reads.run.store ∧
      taken.ready = reads.ready ++ (readyOf (place, path, outcome)).toList ∧
      taken.touches = reads.touches ++ (touchOf (place, path, outcome)).toList := by
  cases outcome with
  | unchangedByTime size =>
      simp only [takeRead, readyOf, touchOf, ReadOutcome.candidate?, ReadOutcome.touchTime?,
        Option.map_none, Option.toList_none, List.append_nil]
      split
      · exact ⟨indexer.store_remember _ _ _ _ _, rfl, rfl⟩
      · exact ⟨rfl, rfl, rfl⟩
  | ready candidate => exact ⟨rfl, rfl, (List.append_nil _).symm⟩
  | unchangedByContent time => exact ⟨rfl, (List.append_nil _).symm, rfl⟩
  | oversize => exact ⟨rfl, (List.append_nil _).symm, (List.append_nil _).symm⟩
  | failed => exact ⟨rfl, (List.append_nil _).symm, (List.append_nil _).symm⟩

/-- What has come of all files, taken one after the other. -/
theorem takeReads_eq (stored : List FileState) (outcomes : List (Nat × String × ReadOutcome))
    (reads : Reads) :
    let taken := outcomes.foldl (fun reads (place, path, outcome) =>
      indexer.takeRead stored reads place path outcome) reads
    taken.run.store = reads.run.store ∧ taken.ready = reads.ready ++ outcomes.filterMap readyOf ∧
      taken.touches = reads.touches ++ outcomes.filterMap touchOf := by
  induction outcomes generalizing reads with
  | nil => exact ⟨rfl, (List.append_nil _).symm, (List.append_nil _).symm⟩
  | cons outcome outcomes induction =>
      have first := indexer.takeRead_eq stored reads outcome.1 outcome.2.1 outcome.2.2
      have rest := induction (indexer.takeRead stored reads outcome.1 outcome.2.1 outcome.2.2)
      refine ⟨rest.1.trans first.1, rest.2.1.trans ?_, rest.2.2.trans ?_⟩
      · rw [first.2.1, List.append_assoc, List.filterMap_cons]
        cases readyOf outcome with
        | none => rfl
        | some candidate => rfl
      · rw [first.2.2, List.append_assoc, List.filterMap_cons]
        cases touchOf outcome with
        | none => rfl
        | some touched => rfl

/-! ## What is stored -/

/-- What is stored behind an operation. One that is refused changes nothing. -/
def storeAfter {α : Type} (former : Store) : Except StoreError (α × Store) → Store
  | .ok (_, store) => store
  | .error _ => former

theorem store_touch (stored : List FileState) (run : Run) (path : String) (time : FileTime) :
    (indexer.touch stored run path time).store =
      storeAfter run.store (indexer.gate.touch run.store indexer.project path time) := by
  unfold touch
  simp only [store_count]
  cases indexer.gate.touch run.store indexer.project path time with
  | error error =>
      simp only
      split
      · rw [store_remember]
        rfl
      · rfl
  | ok answer =>
      simp only
      split
      · rw [store_remember]
        rfl
      · rfl

/-- A new time for a file, unless the store refuses it. -/
def touchIn (view : FileMap) (path : String) (time : FileTime) : FileMap :=
  match indexer.gate.refuses .touch path with
  | some _ => view
  | none => view.touch indexer.project path time

theorem holds_touch {run : Run} {view : FileMap} (holds : run.store.Holds view)
    (stored : List FileState) (path : String) (time : FileTime) :
    (indexer.touch stored run path time).store.Holds (indexer.touchIn view path time) := by
  rw [store_touch]
  unfold StoreGate.touch StoreGate.attempt touchIn
  cases indexer.gate.refuses .touch path with
  | some error => exact holds
  | none => exact holds.touch indexer.project path time

/-- New times for some files. -/
def touchAllIn (view : FileMap) (touches : List (String × FileTime)) : FileMap :=
  touches.foldl (fun view (path, time) => indexer.touchIn view path time) view

theorem holds_touchAll (stored : List FileState) (touches : List (String × FileTime)) {run : Run}
    {view : FileMap} (holds : run.store.Holds view) :
    (touches.foldl (fun run (path, time) => indexer.touch stored run path time) run).store.Holds
      (indexer.touchAllIn view touches) := by
  induction touches generalizing run view with
  | nil => exact holds
  | cons touched touches induction => exact induction (indexer.holds_touch holds stored _ _)

/-! ## Batches -/

/-- The files of a batch with their places and what has become of them. -/
def outcomesOf (stored : List FileState) (force : Bool) (batch : List WalkedFile) :
    List (Nat × String × ReadOutcome) :=
  batch.zipIdx.map fun (file, place) => (place, file.path, indexer.outcomeOf stored force file)

/-- The places of the files of a batch that have to be indexed go up. -/
theorem places_pairwise (stored : List FileState) (force : Bool) (batch : List WalkedFile) :
    ((indexer.outcomesOf stored force batch).filterMap readyOf).Pairwise
      fun left right => decide (left.1 ≤ right.1) = true := by
  have places : batch.zipIdx.Pairwise fun left right => left.2 < right.2 := by
    rw [← List.pairwise_map, List.zipIdx_map_snd]
    exact List.pairwise_lt_range'
  unfold outcomesOf
  rw [List.filterMap_map, List.pairwise_filterMap]
  apply places.imp
  intro left right before first firstFound second secondFound
  rcases Option.map_eq_some_iff.mp firstFound with ⟨_, _, rfl⟩
  rcases Option.map_eq_some_iff.mp secondFound with ⟨_, _, rfl⟩
  exact decide_eq_true (Nat.le_of_lt before)

/-- Every file of a batch is read once, and its place plays no part in what becomes of it. -/
theorem filterMap_outcomesOf {α : Type} (stored : List FileState) (force : Bool)
    (batch : List WalkedFile) (pick : String × ReadOutcome → Option α) :
    (indexer.outcomesOf stored force batch).filterMap (fun outcome => pick outcome.2) =
      batch.filterMap fun file => pick (file.path, indexer.outcomeOf stored force file) := by
  unfold outcomesOf
  rw [List.filterMap_map]
  conv => rhs; rw [← List.zipIdx_map_fst 0 batch, List.filterMap_map]
  rfl

/-- The files of a batch that have to be indexed come in the order of the batch. -/
theorem candidates_readBatch (stored : List FileState) (force : Bool) (batch : List WalkedFile)
    (run : Run) :
    (indexer.readBatch stored force batch run).1 = indexer.candidatesOf stored force batch := by
  have reads := indexer.takeReads_eq stored (indexer.outcomesOf stored force batch) { run }
  have sorted := List.mergeSort_of_pairwise (indexer.places_pairwise stored force batch)
  have candidates : ((indexer.outcomesOf stored force batch).filterMap readyOf).map (·.2) =
      (indexer.outcomesOf stored force batch).filterMap fun outcome => outcome.2.2.candidate? := by
    have place : (fun outcome => (readyOf outcome).map (·.2)) =
        fun outcome : Nat × String × ReadOutcome => outcome.2.2.candidate? := by
      funext outcome
      rw [readyOf, Option.map_map]
      exact congrFun Option.map_id _
    rw [List.map_filterMap, place]
  have taken := reads.2.1
  rw [List.nil_append] at taken
  unfold readBatch collectReads
  simp only
  unfold outcomesOf outcomeOf at taken sorted candidates
  rw [taken, sorted, candidates]
  exact indexer.filterMap_outcomesOf stored force batch fun outcome => outcome.2.candidate?

theorem holds_readBatch (stored : List FileState) (force : Bool) (batch : List WalkedFile)
    {run : Run}
    {view : FileMap} (holds : run.store.Holds view) :
    (indexer.readBatch stored force batch run).2.store.Holds
      (indexer.touchAllIn view (indexer.touchesOf stored force batch)) := by
  have reads := indexer.takeReads_eq stored (indexer.outcomesOf stored force batch) { run }
  have touches : (indexer.outcomesOf stored force batch).filterMap touchOf =
      indexer.touchesOf stored force batch :=
    indexer.filterMap_outcomesOf stored force batch fun outcome =>
      outcome.2.touchTime?.map fun time => (outcome.1, time)
  have taken := reads.2.2
  rw [List.nil_append, touches] at taken
  unfold readBatch collectReads
  simp only
  unfold outcomesOf outcomeOf at taken reads
  rw [taken]
  apply indexer.holds_touchAll
  rw [reads.1]
  exact holds

end Indexer

end SourceIndex
