import Mathlib.Data.Multiset.MapFold
import SourceIndex.Proofs.Scan.Batching

/-! The reads of a batch on their way. A read waits for a permit, reads its file, and is taken when
it has come in. Any read that waits may start next, any that has started may come in next, and any
that has come in may be taken next. Whichever it is each time, reading the batch comes to an end,
and it comes to the same as if the reads came in in the order of the batch. -/

namespace SourceIndex

/-- A batch that is being read. -/
structure BatchReading where
  /-- Files whose reads wait for a permit, with their places in the batch. -/
  waiting : Multiset (WalkedFile × Nat)
  /-- Files that are being read. -/
  started : Multiset (WalkedFile × Nat)
  /-- What has become of files whose reads have come in. -/
  arrived : Multiset (Nat × String × ReadOutcome)
  /-- What has been taken so far. -/
  reads : Indexer.Reads

namespace BatchReading

/-- A batch of which no file has been read yet. -/
def begin (batch : List WalkedFile) (run : Run) : BatchReading :=
  ⟨batch.zipIdx, 0, 0, { run }⟩

/-- Whether all reads of a batch have been taken. -/
def IsOver (reading : BatchReading) : Prop :=
  reading.waiting = 0 ∧ reading.started = 0 ∧ reading.arrived = 0

/-- How many steps are left until all reads of a batch have been taken. -/
def remaining (reading : BatchReading) : Nat :=
  3 * reading.waiting.card + 2 * reading.started.card + reading.arrived.card

end BatchReading

namespace Indexer

variable (indexer : Indexer) (stored : List FileState) (force : Bool)

/-- What has become of the file at a place of a batch. -/
def arrivalOf (file : WalkedFile × Nat) : Nat × String × ReadOutcome :=
  (file.2, file.1.path, indexer.outcomeOf stored force file.1)

/-- A step of reading a batch: a read gets a permit, if one is left, comes in and gives it back, or
is taken. -/
inductive ReadStep : BatchReading → BatchReading → Prop
  | start (file : WalkedFile × Nat) (waiting started : Multiset (WalkedFile × Nat))
      (arrived : Multiset (Nat × String × ReadOutcome)) (reads : Reads)
      (isLeft : started.card < max indexer.config.scan.readConcurrency 1) :
      ReadStep ⟨file ::ₘ waiting, started, arrived, reads⟩
        ⟨waiting, file ::ₘ started, arrived, reads⟩
  | arrive (file : WalkedFile × Nat) (waiting started : Multiset (WalkedFile × Nat))
      (arrived : Multiset (Nat × String × ReadOutcome)) (reads : Reads) :
      ReadStep ⟨waiting, file ::ₘ started, arrived, reads⟩
        ⟨waiting, started, indexer.arrivalOf stored force file ::ₘ arrived, reads⟩
  | take (outcome : Nat × String × ReadOutcome) (waiting started : Multiset (WalkedFile × Nat))
      (arrived : Multiset (Nat × String × ReadOutcome)) (reads : Reads) :
      ReadStep ⟨waiting, started, outcome ::ₘ arrived, reads⟩
        ⟨waiting, started, arrived,
          indexer.takeRead stored reads outcome.1 outcome.2.1 outcome.2.2⟩

/-- What reading a batch may come to in some steps, whichever they are. -/
def ReadsOn : BatchReading → BatchReading → Prop :=
  Relation.ReflTransGen (indexer.ReadStep stored force)

/-- What is done when all reads of a batch have been taken: new times are stored, and the files to
be indexed are put in the order of the batch. -/
def finishReads (reads : Reads) : List Candidate × Run :=
  let run := reads.touches.foldl (fun run (path, time) => indexer.touch stored run path time)
    reads.run
  let ready := reads.ready.mergeSort fun left right => left.1 ≤ right.1
  (ready.map (·.2), run)

/-- What has been taken, in the order in which it was. -/
def takeAll (run : Run) (taken : List (Nat × String × ReadOutcome)) : Reads :=
  taken.foldl (fun reads (place, path, outcome) => indexer.takeRead stored reads place path outcome)
    { run }

theorem takeAll_concat (run : Run) (taken : List (Nat × String × ReadOutcome))
    (outcome : Nat × String × ReadOutcome) :
    indexer.takeAll stored run (taken ++ [outcome]) =
      indexer.takeRead stored (indexer.takeAll stored run taken) outcome.1 outcome.2.1
        outcome.2.2 := List.foldl_append

theorem finishReads_takeAll (run : Run) (taken : List (Nat × String × ReadOutcome)) :
    indexer.finishReads stored (indexer.takeAll stored run taken) =
      indexer.collectReads stored run taken := rfl

variable {indexer stored force} {batch : List WalkedFile} {run : Run}
  {reading next : BatchReading}

/-! ## What every step keeps -/

/-- Whether each file of a batch is on its way or has been taken. -/
def IsUnderway (indexer : Indexer) (stored : List FileState) (force : Bool)
    (batch : List WalkedFile) (run : Run) (reading : BatchReading) : Prop :=
  ∃ taken : List (Nat × String × ReadOutcome), reading.reads = indexer.takeAll stored run taken ∧
    ↑taken + reading.arrived + (reading.started + reading.waiting).map
      (indexer.arrivalOf stored force) = ↑(indexer.outcomesOf stored force batch)

theorem isUnderway_begin (indexer : Indexer) (stored : List FileState) (force : Bool)
    (batch : List WalkedFile) (run : Run) :
    indexer.IsUnderway stored force batch run (.begin batch run) :=
  ⟨[], rfl, by
    rw [BatchReading.begin, Multiset.coe_nil, Multiset.zero_add, Multiset.zero_add,
      Multiset.zero_add]
    rfl⟩

theorem IsUnderway.step (isUnderway : indexer.IsUnderway stored force batch run reading)
    (step : indexer.ReadStep stored force reading next) :
    indexer.IsUnderway stored force batch run next := by
  rcases isUnderway with ⟨taken, isTaken, whole⟩
  cases step with
  | start file waiting started arrived reads isLeft =>
      refine ⟨taken, isTaken, ?_⟩
      rw [← whole, Multiset.cons_add, Multiset.add_cons]
  | arrive file waiting started arrived reads =>
      refine ⟨taken, isTaken, ?_⟩
      rw [← whole, Multiset.cons_add, Multiset.map_cons, Multiset.add_cons, Multiset.add_cons,
        Multiset.cons_add]
  | take outcome waiting started arrived reads =>
      refine ⟨taken ++ [outcome], ?_, ?_⟩
      · rw [takeAll_concat, ← isTaken]
      · have moved : (↑(taken ++ [outcome]) : Multiset (Nat × String × ReadOutcome)) + arrived =
            ↑taken + outcome ::ₘ arrived := by
          rw [← Multiset.coe_add, Multiset.coe_singleton, Multiset.add_assoc,
            Multiset.singleton_add]
        rw [← whole, moved]

/-- However the steps follow one another, each file of the batch is on its way or has been taken. -/
theorem ReadsOn.isUnderway (reached : indexer.ReadsOn stored force (.begin batch run) reading) :
    indexer.IsUnderway stored force batch run reading := by
  induction reached with
  | refl => exact indexer.isUnderway_begin stored force batch run
  | tail _ step induction => exact induction.step step

/-- When all reads have been taken, they have come in in some order of the batch. -/
theorem IsUnderway.exists_perm (isUnderway : indexer.IsUnderway stored force batch run reading)
    (isOver : reading.IsOver) :
    ∃ taken : List (Nat × String × ReadOutcome),
      taken.Perm (indexer.outcomesOf stored force batch) ∧
        reading.reads = indexer.takeAll stored run taken := by
  rcases isUnderway with ⟨taken, isTaken, whole⟩
  rcases isOver with ⟨noneWaiting, noneStarted, noneArrived⟩
  rw [noneWaiting, noneStarted, noneArrived, Multiset.add_zero, Multiset.add_zero,
    Multiset.map_zero, Multiset.add_zero, Multiset.coe_eq_coe] at whole
  exact ⟨taken, whole, isTaken⟩

/-! ## No read is left behind -/

/-- As long as a read has not been taken, there is a step to take. -/
theorem exists_readStep (indexer : Indexer) (stored : List FileState) (force : Bool)
    (notOver : ¬ reading.IsOver) : ∃ next, indexer.ReadStep stored force reading next := by
  rcases reading with ⟨waiting, started, arrived, reads⟩
  by_cases noneArrived : arrived = 0
  · by_cases noneStarted : started = 0
    · have someWaiting : waiting ≠ 0 := fun none => notOver ⟨none, noneStarted, noneArrived⟩
      rcases Multiset.exists_mem_of_ne_zero someWaiting with ⟨file, member⟩
      rcases Multiset.exists_cons_of_mem member with ⟨others, rfl⟩
      have isLeft : started.card < max indexer.config.scan.readConcurrency 1 := by
        rw [noneStarted, Multiset.card_zero]
        omega
      exact ⟨_, .start file others started arrived reads isLeft⟩
    · rcases Multiset.exists_mem_of_ne_zero noneStarted with ⟨file, member⟩
      rcases Multiset.exists_cons_of_mem member with ⟨others, rfl⟩
      exact ⟨_, .arrive file waiting others arrived reads⟩
  · rcases Multiset.exists_mem_of_ne_zero noneArrived with ⟨outcome, member⟩
    rcases Multiset.exists_cons_of_mem member with ⟨others, rfl⟩
    exact ⟨_, .take outcome waiting started others reads⟩

theorem ReadStep.remaining_lt (step : indexer.ReadStep stored force reading next) :
    next.remaining < reading.remaining := by
  cases step with
  | start file waiting started arrived reads isLeft =>
      simp only [BatchReading.remaining, Multiset.card_cons]
      omega
  | arrive file waiting started arrived reads =>
      simp only [BatchReading.remaining, Multiset.card_cons]
      omega
  | take outcome waiting started arrived reads =>
      simp only [BatchReading.remaining, Multiset.card_cons]
      omega

/-- Reading a batch comes to an end from wherever it stands. -/
theorem exists_isOver (indexer : Indexer) (stored : List FileState) (force : Bool)
    (reading : BatchReading) :
    ∃ finished, indexer.ReadsOn stored force reading finished ∧ finished.IsOver := by
  by_cases isOver : reading.IsOver
  · exact ⟨reading, .refl, isOver⟩
  · rcases indexer.exists_readStep stored force isOver with ⟨next, step⟩
    have := step.remaining_lt
    rcases exists_isOver indexer stored force next with ⟨finished, reached, isOver⟩
    exact ⟨finished, .head step reached, isOver⟩
termination_by reading.remaining

end Indexer

open Indexer in
/-- The reads of a batch may start, come in and be taken in any order, as permits allow. From
wherever reading the batch stands it comes to an end. When it does, the files to be indexed are
those of a batch that is read in order, and in the same order; what is stored, what is kept in
memory of each file and what is counted are the same, too. -/
theorem reads_finish_in_any_order {indexer : Indexer} {batch : List WalkedFile}
    (once : (batch.map (·.path)).Nodup) (stored : List FileState) (force : Bool) (run : Run)
    {reading : BatchReading}
    (reached : indexer.ReadsOn stored force (.begin batch run) reading) :
    (∃ finished, indexer.ReadsOn stored force reading finished ∧ finished.IsOver) ∧
      (reading.IsOver →
        let finished := indexer.finishReads stored reading.reads
        let inOrder := indexer.readBatch stored force batch run
        finished.1 = inOrder.1 ∧ finished.2.result = inOrder.2.result) := by
  refine ⟨indexer.exists_isOver stored force reading, fun isOver => ?_⟩
  rcases reached.isUnderway.exists_perm isOver with ⟨taken, isPerm, isTaken⟩
  intro finished inOrder
  have collected : finished = indexer.collectReads stored run taken := by
    rw [← finishReads_takeAll, ← isTaken]
  constructor
  · rw [collected, candidates_collectReads isPerm]
    exact (indexer.candidates_readBatch stored force batch run).symm
  · rw [collected, result_collectReads once isPerm]
    exact (result_collectReads once (.refl (indexer.outcomesOf stored force batch)) run).symm

/-! ## Two reads the other way round -/

/-- A file whose time alone has changed since it was stored, at the front of a batch. -/
def touchedFile : WalkedFile × Nat := (⟨"a.rs", sampleContent "struct A;" 1⟩, 0)

/-- A new file behind it. -/
def createdFile : WalkedFile × Nat := (⟨"b.rs", sampleContent "struct B;" 1⟩, 1)

def touchedStates : List FileState :=
  [⟨"i", "a.rs", contentHash touchedFile.1.content.bytes, .ofMilliseconds 0⟩]

/-- The second file comes in and is taken while the first one is still being read. -/
theorem reads_finish_reversed :
    let batch := [touchedFile.1, createdFile.1]
    let arrival := sampleIndexer.arrivalOf touchedStates false
    let reading : BatchReading :=
      ⟨0, 0, 0, sampleIndexer.takeAll touchedStates {} [arrival createdFile, arrival touchedFile]⟩
    let finished := sampleIndexer.finishReads touchedStates reading.reads
    let inOrder := sampleIndexer.readBatch touchedStates false batch {}
    sampleIndexer.ReadsOn touchedStates false (.begin batch {}) reading ∧
      finished.1 = inOrder.1 ∧ finished.2.result = inOrder.2.result := by
  intro batch arrival reading finished inOrder
  have bothStart : sampleIndexer.ReadsOn touchedStates false (.begin batch {})
      ⟨0, createdFile ::ₘ touchedFile ::ₘ 0, 0, { run := {} }⟩ :=
    .head (.start touchedFile (createdFile ::ₘ 0) 0 0 _ (by decide))
      (.single (.start createdFile 0 (touchedFile ::ₘ 0) 0 _ (by decide)))
  have secondTaken : sampleIndexer.ReadsOn touchedStates false
      ⟨0, createdFile ::ₘ touchedFile ::ₘ 0, 0, { run := {} }⟩
      ⟨0, touchedFile ::ₘ 0, 0, sampleIndexer.takeAll touchedStates {} [arrival createdFile]⟩ :=
    .head (.arrive createdFile 0 (touchedFile ::ₘ 0) 0 _) (.single (.take (arrival createdFile) 0
      (touchedFile ::ₘ 0) 0 { run := {} }))
  have firstTaken : sampleIndexer.ReadsOn touchedStates false
      ⟨0, touchedFile ::ₘ 0, 0, sampleIndexer.takeAll touchedStates {} [arrival createdFile]⟩
      reading := by
    have both := sampleIndexer.takeAll_concat touchedStates {} [arrival createdFile]
      (arrival touchedFile)
    rw [List.singleton_append] at both
    rw [show reading = ⟨0, 0, 0, _⟩ from congrArg (BatchReading.mk 0 0 0) both]
    exact .head (.arrive touchedFile 0 0 0 _) (.single (.take (arrival touchedFile) 0 0 0 _))
  have reached := (bothStart.trans secondTaken).trans firstTaken
  have once : (batch.map (·.path)).Nodup := by decide
  exact ⟨reached, (reads_finish_in_any_order once touchedStates false {} reached).2 ⟨rfl, rfl, rfl⟩⟩

end SourceIndex
