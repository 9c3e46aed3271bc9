import Mathlib.Data.List.Induction
import SourceIndex.Proofs.Scan.Aftermath
import SourceIndex.Proofs.Scan.Oversize

/-! The sizes of files in memory, whatever indexers have come before in the same project. A file that
is kept has the size that it has been seen with, unless its digest has shown it to be unchanged when
nothing was kept of it: then it is kept as if it were empty. -/

namespace SourceIndex

/-! ## Histories -/

/-- A run of one of the indexers that succeed one another. -/
structure IndexerStep where
  indexer : Indexer
  run : IndexerRun

namespace IndexerStep

/-- The files that a step comes upon. -/
def files (step : IndexerStep) : List WalkedFile := step.indexer.filesOf step.run

/-- What is left of some steps, the first of which finds nothing. Whenever another indexer takes over
that is a step of its own, which starts it anew. -/
def leftBy (steps : List IndexerStep) : IndexState :=
  steps.foldl (fun state step => step.indexer.after state step.run) {}

/-- The files that some steps have come upon, in this order. -/
def seenBy (steps : List IndexerStep) : List WalkedFile := steps.flatMap files

/-- Whether a step works on a project with a store that accepts everything. -/
structure IsOf (step : IndexerStep) (project : String) : Prop where
  sameProject : step.indexer.project = project
  accepting : step.indexer.gate = .accepting
  proper : step.run.IsProper

theorem leftBy_append (steps : List IndexerStep) (step : IndexerStep) :
    leftBy (steps ++ [step]) = step.indexer.after (leftBy steps) step.run := by
  rw [leftBy, List.foldl_append]
  rfl

theorem seenBy_append (steps : List IndexerStep) (step : IndexerStep) :
    seenBy (steps ++ [step]) = seenBy steps ++ step.files := by
  rw [seenBy, List.flatMap_append, List.flatMap_singleton]
  rfl

end IndexerStep

/-- Whether every file that has been seen with other bytes before is later than it was then. -/
def Advances (seen : List WalkedFile) : Prop :=
  seen.Pairwise fun former file => former.path = file.path →
    former.content.bytes ≠ file.content.bytes →
    file.content.time.isLaterThan former.content.time = true

/-- Whether files with different bytes have different digests. -/
def ContentsDiffer (seen : List WalkedFile) : Prop :=
  ∀ file ∈ seen, ∀ other ∈ seen,
    contentHash file.content.bytes = contentHash other.content.bytes →
    file.content.bytes = other.content.bytes

namespace IndexerStep

variable {steps : List IndexerStep} {step : IndexerStep}

theorem advances_of_append (advances : Advances (seenBy (steps ++ [step]))) :
    Advances (seenBy steps) := by
  rw [seenBy_append] at advances
  exact (List.pairwise_append.mp advances).1

theorem contentsDiffer_of_append (differ : ContentsDiffer (seenBy (steps ++ [step]))) :
    ContentsDiffer (seenBy steps) := by
  rw [seenBy_append] at differ
  exact fun file member other otherMember => differ file (List.mem_append_left _ member) other
    (List.mem_append_left _ otherMember)

end IndexerStep

namespace Indexer

/-! ## Sizes that are lost -/

/-- Whether a run comes upon a file of which nothing is kept, and finds that only its time has
changed. -/
structure TouchesUnkept (indexer : Indexer) (state : IndexState) (run : IndexerRun)
    (file : WalkedFile) : Prop where
  member : file ∈ indexer.filesOf run
  unkept : state.records.lookup file.path = none
  touched : (indexer.outcomeOf (indexer.recordedFor state run) (isForced run) file).touchTime?.isSome

end Indexer

namespace IndexerStep

/-- Whether some step has come upon a file at a path of which nothing was kept and has found that
only its time had changed, and the indexer has not been started anew since. -/
def LosesSize (steps : List IndexerStep) (path : String) : Prop :=
  ∃ front step rest file, steps = front ++ step :: rest ∧ file.path = path ∧
    step.indexer.TouchesUnkept (leftBy front) step.run file ∧
    ∀ later ∈ rest, later.run ≠ .restart

variable {steps : List IndexerStep} {step : IndexerStep} {path : String} {file : WalkedFile}

theorem losesSize_of_touchesUnkept
    (touches : step.indexer.TouchesUnkept (leftBy steps) step.run file) :
    LosesSize (steps ++ [step]) file.path :=
  ⟨steps, step, [], file, rfl, rfl, touches, List.forall_mem_nil _⟩

theorem LosesSize.append (loses : LosesSize steps path) (goesOn : step.run ≠ .restart) :
    LosesSize (steps ++ [step]) path := by
  rcases loses with ⟨front, first, rest, file, rfl, here, touches, since⟩
  refine ⟨front, first, rest ++ [step], file, ?_, here, touches, ?_⟩
  · rw [List.append_assoc, List.cons_append]
  · rw [List.forall_mem_append, List.forall_mem_singleton]
    exact ⟨since, goesOn⟩

end IndexerStep

/-! ## Holdings that tell of files -/

/-- Whether a row, and what is kept along with it, tell of a file as it has been seen. What is kept
may have no size if that has been lost. -/
structure TellsOf (file : WalkedFile) (lost : Prop) (row : FileRow) (kept? : Option IndexedFile) :
    Prop where
  hash : row.file.contentHash = contentHash file.content.bytes
  time : row.file.time = file.content.time
  size : ∀ record, kept? = some record →
    record.size = file.content.bytes.size ∨ record.size = 0 ∧ lost

/-- Whether there is nothing at a path, or what tells of a file that has been seen there. -/
inductive IsTraced (seen : List WalkedFile) (lost : Prop) (path : String) : Holding → Prop
  | vacant : IsTraced seen lost path .vacant
  | known {file : WalkedFile} {row : FileRow} {kept? : Option IndexedFile} (member : file ∈ seen)
    (here : file.path = path) (tells : TellsOf file lost row kept?) :
    IsTraced seen lost path ⟨some row, kept?⟩

theorem IsTraced.mono {seen more : List WalkedFile} {lost lostToo : Prop} {path : String}
    {holding : Holding} (traced : IsTraced seen lost path holding)
    (within : ∀ file ∈ seen, file ∈ more) (implies : lost → lostToo) :
    IsTraced more lostToo path holding := by
  cases traced with
  | vacant => exact .vacant
  | known member here tells =>
      refine .known (within _ member) here ⟨tells.hash, tells.time, fun record kept => ?_⟩
      exact (tells.size record kept).imp_right (And.imp_right implies)

/-- When nothing is kept any more, what is stored still tells of the file. -/
theorem IsTraced.forget {seen : List WalkedFile} {lost lostToo : Prop} {path : String}
    {holding : Holding} (traced : IsTraced seen lost path holding) :
    IsTraced seen lostToo path { holding with kept? := none } := by
  cases traced with
  | vacant => exact .vacant
  | known member here tells => exact .known member here ⟨tells.hash, tells.time, nofun⟩

/-- What is recorded of a path is recorded of a file that has been seen there. -/
theorem IsTraced.of_recorded {seen : List WalkedFile} {lost : Prop} {path : String}
    {holding : Holding} (traced : IsTraced seen lost path holding) {state : FileState}
    (recorded : some state = holding.row?.map fun row => row.file.state) :
    ∃ file row kept?, file ∈ seen ∧ file.path = path ∧ holding = ⟨some row, kept?⟩ ∧
      row.file.state = state ∧ TellsOf file lost row kept? := by
  cases traced with
  | vacant => cases recorded
  | @known file row kept? member here tells =>
      exact ⟨file, row, kept?, member, here, rfl, (Option.some.inj recorded).symm, tells⟩

namespace Indexer

variable {indexer : Indexer} {state : IndexState} {run : IndexerRun} {file : WalkedFile}
  {former left : Holding} {failures : Nat}

theorem size_outline (indexer : Indexer) (file : WalkedFile) :
    (indexer.outline file).size = file.content.bytes.size := by
  rw [outline_eq_findings]

/-- What is remembered of a file has the size that is kept, if any is. -/
theorem size_rememberedAs (path : String) (known : FileState) (time : FileTime) (size : Nat)
    (kept? : Option IndexedFile) : (indexer.rememberedAs path known time size kept?).size =
      (kept?.map (·.size)).getD size := by
  cases kept? <;> rfl

theorem outcomeOf_large {stored : List FileState} {force : Bool}
    (large : file.content.bytes.size > indexer.config.scan.maxFileBytes) :
    indexer.outcomeOf stored force file = .oversize :=
  (Candidate.read_eq _ _ _ _ _).trans (if_pos large)

/-- A file that is too large stays what it was. -/
theorem Becomes.eq_of_large {stored : List FileState} {force : Bool}
    (becomes : indexer.Becomes stored force file failures former left)
    (large : file.content.bytes.size > indexer.config.scan.maxFileBytes) : left = former := by
  cases becomes with
  | oversize _ | failed _ => rfl
  | unchangedByTime outcome _ _ | unchangedByContent outcome _ _ =>
      rw [outcomeOf_large large] at outcome
      cases outcome
  | written ready _ =>
      rw [outcomeOf_large large] at ready
      cases ready

/-- Of a file that is worked off something is stored and kept that tells of a file with the same
bytes, if what there was of it told of a file that has been seen. -/
theorem Becomes.tells {stored : List FileState} {force : Bool} {seen : List WalkedFile} {lost : Prop}
    (becomes : indexer.Becomes stored force file failures former left)
    (traced : IsTraced seen lost file.path former)
    (recorded : recordOf? stored file.path = former.row?.map fun row => row.file.state)
    (advances : ∀ other ∈ seen, other.path = file.path →
      other.content.bytes ≠ file.content.bytes →
      file.content.time.isLaterThan other.content.time = true)
    (differ : ∀ other ∈ seen,
      contentHash other.content.bytes = contentHash file.content.bytes →
      other.content.bytes = file.content.bytes)
    (loses : (indexer.outcomeOf stored force file).touchTime?.isSome → former.kept? = none → lost) :
    (left = former ∧ (file.content.bytes.size > indexer.config.scan.maxFileBytes ∨ 0 < failures)) ∨
    ∃ known row record, known ∈ file :: seen ∧ known.path = file.path ∧
      known.content.bytes = file.content.bytes ∧ left = ⟨some row, some record⟩ ∧
      TellsOf known lost row (some record) := by
  cases becomes with
  | oversize large => exact .inl ⟨rfl, .inl large⟩
  | failed some => exact .inl ⟨rfl, .inr some⟩
  | unchangedByTime outcome isRecorded notLater =>
      rcases traced.of_recorded (isRecorded.symm.trans recorded) with
        ⟨known, row, kept?, member, here, rfl, rfl, tells⟩
      -- With other bytes the file would be later than when it was stored.
      have sameBytes : known.content.bytes = file.content.bytes := by
        by_contra changed
        have later := advances known member here changed
        rw [← tells.time] at later
        exact Bool.false_ne_true (notLater.symm.trans later)
      refine .inr ⟨known, row, _, List.mem_cons_of_mem _ member, here, sameBytes, rfl, tells.hash,
        tells.time, ?_⟩
      rintro record ⟨⟩
      rw [size_rememberedAs]
      cases kept? with
      | none => exact .inl (congrArg ByteArray.size sameBytes.symm)
      | some record => exact tells.size record rfl
  | unchangedByContent outcome isRecorded sameHash =>
      rcases traced.of_recorded (isRecorded.symm.trans recorded) with
        ⟨known, row, kept?, member, here, rfl, rfl, tells⟩
      have sameBytes := differ known member (tells.hash.symm.trans sameHash)
      refine .inr ⟨file, row.timed file.content.time, _, List.mem_cons_self, rfl, rfl, rfl,
        sameHash, rfl, ?_⟩
      rintro record ⟨⟩
      rw [size_rememberedAs, ← sameBytes]
      cases kept? with
      | none => exact .inr ⟨rfl, loses (by rw [outcome]; rfl) rfl⟩
      | some record => exact tells.size record rfl
  | @written finished id ready isFinished =>
      refine .inr ⟨file, _, finished.stripped, List.mem_cons_self, rfl, rfl, rfl, ?_, ?_, ?_⟩
      · exact (congrArg IndexedFile.contentHash isFinished).trans (indexer.contentHash_outline file)
      · exact (congrArg IndexedFile.time isFinished).trans (time_outlineOf _)
      · rintro record ⟨⟩
        exact .inl ((congrArg IndexedFile.size isFinished).trans (indexer.size_outline file))

/-! ## Steps -/

theorem outcomeOf_touched {stored : List FileState} {force : Bool}
    (touched : (indexer.outcomeOf stored force file).touchTime?.isSome) :
    ∃ time, indexer.outcomeOf stored force file = .unchangedByContent time := by
  cases outcome : indexer.outcomeOf stored force file with
  | unchangedByContent time => exact ⟨time, rfl⟩
  | ready _ | unchangedByTime _ | oversize | failed =>
      rw [outcome] at touched
      cases touched

/-- A file of which only the time has changed has been recorded, so there was something before. -/
theorem IsWorkedOff.start_of_touched
    (worked : indexer.IsWorkedOff state run failures file former left)
    (touched : (indexer.outcomeOf (indexer.recordedFor state run) (isForced run)
      file).touchTime?.isSome) : former = state.holding indexer.project file.path := by
  rcases outcomeOf_touched touched with ⟨time, outcome⟩
  rcases recorded_of_unchangedByContent outcome with ⟨-, known, recorded, -⟩
  refine worked.start.resolve_right fun vacant => ?_
  rw [worked.recorded, vacant] at recorded
  cases recorded

theorem IsWorkedOff.touchesUnkept (worked : indexer.IsWorkedOff state run failures file former left)
    (touched : (indexer.outcomeOf (indexer.recordedFor state run) (isForced run)
      file).touchTime?.isSome) (unkept : former.kept? = none) :
    indexer.TouchesUnkept state run file := by
  rw [worked.start_of_touched touched] at unkept
  exact ⟨worked.member, Option.map_eq_none_iff.mp unkept, touched⟩

/-- A file of which nothing was kept, and of which only the time has changed, is kept as if it were
empty. -/
theorem IsWorkedOff.size_of_touchesUnkept
    (worked : indexer.IsWorkedOff state run 0 file former left)
    (touches : indexer.TouchesUnkept state run file) :
    ∃ record, left.kept? = some record ∧ record.size = 0 := by
  have unkept : former.kept? = none := by
    rw [worked.start_of_touched touches.touched, IndexState.holding, touches.unkept]
    rfl
  rcases outcomeOf_touched touches.touched with ⟨time, touched⟩
  cases worked.becomes with
  | oversize large =>
      rw [outcomeOf_large large] at touched
      cases touched
  | failed some => exact absurd some (Nat.lt_irrefl 0)
  | unchangedByTime outcome _ _ =>
      rw [outcome] at touched
      cases touched
  | unchangedByContent _ _ _ => exact ⟨_, rfl, by rw [unkept]; rfl⟩
  | written ready _ =>
      rw [touched] at ready
      cases ready

end Indexer

namespace IndexerStep

variable {project : String} {steps : List IndexerStep} {step : IndexerStep} {path : String}
  {file : WalkedFile} {former left : Holding} {failures : Nat}

theorem isTraced_start
    (traced : IsTraced (seenBy steps) (LosesSize steps file.path) file.path
      ((leftBy steps).holding step.indexer.project file.path))
    (worked : step.indexer.IsWorkedOff (leftBy steps) step.run failures file former left) :
    IsTraced (seenBy steps) (LosesSize (steps ++ [step]) file.path) file.path former := by
  have goesOn : step.run ≠ .restart := by
    intro anew
    have member := worked.member
    rw [anew] at member
    exact absurd member List.not_mem_nil
  rcases worked.start with rfl | rfl
  · exact traced.mono (fun _ member => member) fun loses => loses.append goesOn
  · exact .vacant

/-- Of a file that a further step has worked off something is stored and kept that tells of a file
with the same bytes. -/
theorem tells_of_isWorkedOff (advances : Advances (seenBy (steps ++ [step])))
    (differ : ContentsDiffer (seenBy (steps ++ [step])))
    (traced : IsTraced (seenBy steps) (LosesSize steps file.path) file.path
      ((leftBy steps).holding step.indexer.project file.path))
    (worked : step.indexer.IsWorkedOff (leftBy steps) step.run failures file former left) :
    (left = former ∧
      (file.content.bytes.size > step.indexer.config.scan.maxFileBytes ∨ 0 < failures)) ∨
    ∃ known row record, known ∈ file :: seenBy steps ∧ known.path = file.path ∧
      known.content.bytes = file.content.bytes ∧ left = ⟨some row, some record⟩ ∧
      TellsOf known (LosesSize (steps ++ [step]) file.path) row (some record) := by
  rw [seenBy_append] at advances differ
  refine worked.becomes.tells (isTraced_start traced worked) worked.recorded ?_ ?_ ?_
  · intro other member
    exact (List.pairwise_append.mp advances).2.2 other member file worked.member
  · intro other member
    exact differ other (List.mem_append_left _ member) file (List.mem_append_right _ worked.member)
  · intro touched unkept
    exact losesSize_of_touchesUnkept (worked.touchesUnkept touched unkept)

/-- What a further step leaves at a path tells of a file that has been seen there, if what there was
before did. -/
theorem isTraced_append (isOf : step.IsOf project) (advances : Advances (seenBy (steps ++ [step])))
    (differ : ContentsDiffer (seenBy (steps ++ [step])))
    (traced : ∀ path, IsTraced (seenBy steps) (LosesSize steps path) path
      ((leftBy steps).holding project path)) (path : String) :
    IsTraced (seenBy (steps ++ [step])) (LosesSize (steps ++ [step]) path) path
      ((leftBy (steps ++ [step])).holding project path) := by
  rcases isOf with ⟨rfl, accepting, proper⟩
  have within : ∀ file ∈ seenBy steps, file ∈ seenBy (steps ++ [step]) := by
    rw [seenBy_append]
    exact fun file member => List.mem_append_left _ member
  rw [leftBy_append]
  have leaves := @Indexer.leaves_after step.indexer (leftBy steps) step.run accepting path proper
  generalize (step.indexer.after (leftBy steps) step.run).holding step.indexer.project path = left
    at leaves
  cases leaves with
  | same goesOn => exact (traced path).mono within fun loses => loses.append goesOn
  | forgotten _ => exact ((traced path).mono within id).forget
  | vacant => exact .vacant
  | @workedOff file failures former left here worked =>
      subst here
      rcases tells_of_isWorkedOff advances differ (traced file.path) worked with
        ⟨rfl, -⟩ | ⟨known, row, record, member, here, -, rfl, tells⟩
      · exact (isTraced_start (traced file.path) worked).mono within id
      · refine .known ?_ here tells
        rcases List.mem_cons.mp member with rfl | member
        · rw [seenBy_append]
          exact List.mem_append_right _ worked.member
        · exact within known member

/-- Whatever has been run, what is stored and kept at a path tells of a file that has been seen
there. -/
theorem isTraced_leftBy (ofProject : ∀ step ∈ steps, step.IsOf project)
    (advances : Advances (seenBy steps)) (differ : ContentsDiffer (seenBy steps)) (path : String) :
    IsTraced (seenBy steps) (LosesSize steps path) path ((leftBy steps).holding project path) := by
  -- The induction is on the last step, since what is lost by then depends on what has come before.
  induction steps using List.reverseRecOn generalizing path with
  | nil => exact .vacant
  | append_singleton steps step induction =>
      rw [List.forall_mem_append, List.forall_mem_singleton] at ofProject
      refine isTraced_append ofProject.2 advances differ (fun path => ?_) path
      exact induction ofProject.1 (advances_of_append advances) (contentsDiffer_of_append differ)
        path

end IndexerStep

/-! ## Records -/

namespace IndexState

variable {state : IndexState} {project path : String} {record : IndexedFile}

theorem exists_record (kept : (state.holding project path).kept? = some record) :
    ∃ found, state.records.lookup path = some found ∧ found.size = record.size := by
  rcases Option.map_eq_some_iff.mp kept with ⟨found, isThere, rfl⟩
  exact ⟨found, isThere, rfl⟩

theorem kept?_holding (project : String) (found : state.records.lookup path = some record) :
    (state.holding project path).kept? = some record.stripped := by
  rw [holding, found]
  rfl

end IndexState

open IndexerStep in
/-- When a run has succeeded and has not failed at any file, whatever has been run before, each of
its files that is not too large is kept in memory with the size that the run has seen, unless its
digest has shown it to be unchanged, in this run or in one before, when nothing was kept of it and
the indexer has not been started anew since. Then it is kept as if it were empty. A file that is too
large has the size that was kept of it before, if it is kept at all. -/
theorem run_keeps_sizes {project : String} {steps : List IndexerStep} {last : IndexerStep}
    (ofProject : ∀ step ∈ steps ++ [last], step.IsOf project)
    (advances : Advances (seenBy (steps ++ [last])))
    (differ : ContentsDiffer (seenBy (steps ++ [last]))) {report : ScanReport}
    (reports : last.indexer.reportOf (leftBy steps) last.run = some report)
    (succeeds : report.success = true) (complete : report.stats.failed = 0) :
    let before := leftBy steps
    let left := leftBy (steps ++ [last])
    ∀ file ∈ last.files,
      (file.content.bytes.size ≤ last.indexer.config.scan.maxFileBytes →
        ∃ record, left.records.lookup file.path = some record ∧
          (record.size = file.content.bytes.size ∨
            record.size = 0 ∧ LosesSize (steps ++ [last]) file.path)) ∧
      (last.indexer.TouchesUnkept before last.run file →
        ∃ record, left.records.lookup file.path = some record ∧ record.size = 0) ∧
      (file.content.bytes.size > last.indexer.config.scan.maxFileBytes →
        ∀ record, left.records.lookup file.path = some record →
          ∃ former, before.records.lookup file.path = some former ∧ former.size = record.size) := by
  intro before left file member
  have isOf := ofProject last (List.mem_append_right _ List.mem_cons_self)
  rcases Indexer.exists_isWorkedOff isOf.accepting isOf.proper reports succeeds member with
    ⟨former, worked⟩
  rw [complete, ← leftBy_append] at worked
  have traced : IsTraced (seenBy steps) (LosesSize steps file.path) file.path
      ((leftBy steps).holding last.indexer.project file.path) := by
    rw [List.forall_mem_append] at ofProject
    rw [isOf.sameProject]
    exact isTraced_leftBy ofProject.1 (advances_of_append advances)
      (contentsDiffer_of_append differ) file.path
  refine ⟨fun small => ?_, fun touches => ?_, fun large record isKept => ?_⟩
  · rcases tells_of_isWorkedOff advances differ traced worked with
      ⟨-, large | some⟩ | ⟨known, row, record, -, -, sameBytes, holds, tells⟩
    · exact absurd small (Nat.not_le.mpr large)
    · exact absurd some (Nat.lt_irrefl 0)
    · rcases IndexState.exists_record (congrArg Holding.kept? holds) with ⟨found, isThere, same⟩
      refine ⟨found, isThere, ?_⟩
      rw [same, ← sameBytes]
      exact tells.size record rfl
  · rcases worked.size_of_touchesUnkept touches with ⟨record, kept, unsized⟩
    rcases IndexState.exists_record kept with ⟨found, isThere, same⟩
    exact ⟨found, isThere, same.trans unsized⟩
  · have kept := IndexState.kept?_holding last.indexer.project isKept
    rw [worked.becomes.eq_of_large large] at kept
    rcases worked.start with same | vacant
    · rw [same] at kept
      rcases IndexState.exists_record kept with ⟨found, isThere, sameSize⟩
      exact ⟨found, isThere, sameSize⟩
    · rw [vacant] at kept
      cases kept

/-! ## A file that has been touched -/

/-- A file, and the same when it has got a new time. -/
def touchedFiles : List WalkedFile :=
  [⟨"a.rs", sampleContent "struct A;" 1⟩, ⟨"a.rs", sampleContent "struct A;" 2⟩]

/-- The file is stored, and the indexer is started anew. -/
def touchedSteps : List IndexerStep :=
  [⟨sampleIndexer, .scan (sampleDisk "struct A;" 1) .force⟩, ⟨sampleIndexer, .restart⟩]

/-- The file is seen again. -/
def touchedStep : IndexerStep := ⟨sampleIndexer, .scan (sampleDisk "struct A;" 2) .incremental⟩

theorem isOf_touchedSteps : ∀ step ∈ touchedSteps ++ [touchedStep], step.IsOf "p" := by
  rw [touchedSteps, List.forall_mem_append, List.forall_mem_cons, List.forall_mem_singleton,
    List.forall_mem_singleton]
  exact ⟨⟨⟨rfl, rfl, isProper_sampleDisk _ _⟩, ⟨rfl, rfl, trivial⟩⟩,
    ⟨rfl, rfl, isProper_sampleDisk _ _⟩⟩

theorem seenBy_touchedSteps :
    IndexerStep.seenBy touchedSteps = [⟨"a.rs", sampleContent "struct A;" 1⟩] := by
  rw [IndexerStep.seenBy, touchedSteps, List.flatMap_cons, List.flatMap_singleton]
  exact congrArg (· ++ []) (filesOn_sampleDisk "struct A;" 1)

theorem seenBy_touchedStep :
    IndexerStep.seenBy (touchedSteps ++ [touchedStep]) = touchedFiles := by
  rw [IndexerStep.seenBy_append, seenBy_touchedSteps]
  exact congrArg (_ :: ·) (filesOn_sampleDisk "struct A;" 2)

theorem advances_touchedFiles : Advances touchedFiles := by
  rw [Advances, touchedFiles, List.pairwise_pair]
  exact fun _ changed => absurd rfl changed

theorem contentsDiffer_touchedFiles : ContentsDiffer touchedFiles := by
  have sameBytes : ∀ file ∈ touchedFiles, file.content.bytes = "struct A;".toUTF8 := by
    intro file member
    rcases List.mem_pair.mp member with rfl | rfl <;> rfl
  exact fun file member other otherMember _ =>
    (sameBytes file member).trans (sameBytes other otherMember).symm

/-- The identifiers of a file are no matter of its time. -/
theorem Indexer.IdentifiesBy.of_same {indexer : Indexer} {texts : List (List String)}
    {file other : WalkedFile} (identifies : indexer.IdentifiesBy texts file)
    (samePath : other.path = file.path) (sameBytes : other.content.bytes = file.content.bytes) :
    indexer.IdentifiesBy texts other := by
  have sameAnalysis : (indexer.outline other).analysis = (indexer.outline file).analysis := by
    rw [indexer.outline_eq samePath sameBytes]
  refine ⟨samePath ▸ identifies.path, ?_, ?_, ?_⟩
  · rw [sameAnalysis]
    exact identifies.definitions
  · rw [sameAnalysis]
    exact identifies.dependencies
  · rw [sameAnalysis]
    exact identifies.chunks

theorem identifiesBy_touchedFiles :
    ∀ file ∈ touchedFiles, sampleIndexer.IdentifiesBy sampleTexts file := by
  have first := identifiesBy_sampleTexts _ List.mem_cons_self
  rw [touchedFiles, List.forall_mem_cons, List.forall_mem_singleton]
  exact ⟨first, first.of_same rfl rfl⟩

theorem isApart_touchedFiles : (sampleIndexer.sourceOf touchedFiles).IsApart :=
  Indexer.IdentifiesBy.isApart identifiersDiffer_sampleTexts identifiesBy_touchedFiles

/-- A scan of the file succeeds and does not fail at it. -/
theorem scan_touchedFiles {file : WalkedFile} (member : file ∈ touchedFiles) (milliseconds : Int)
    (same : file = ⟨"a.rs", sampleContent "struct A;" milliseconds⟩) (mode : ScanMode)
    {state : IndexState} (sound : state.store.IsSound)
    (spares : state.store.Spares (sampleIndexer.sourceOf touchedFiles)) :
    let scanned := sampleIndexer.scan (sampleDisk "struct A;" milliseconds) mode state
    scanned.1.success = true ∧ scanned.1.stats.failed = 0 := by
  intro scanned
  have succeeds : scanned.1.success = true :=
    congrArg (·.1.success) (sampleIndexer.scan_eq mode state rfl rfl)
  refine ⟨succeeds, Indexer.failed_scan_eq_zero rfl isApart_touchedFiles succeeds ?_ ?_ sound
    spares⟩
  · rw [filesOn_sampleDisk, ← same]
    exact sampleIndexer.supplies_sourceOf (List.forall_mem_singleton.mpr member)
  · rw [filesOn_sampleDisk, List.forall_mem_singleton]
    rfl

theorem spares_touchedSteps : (IndexerStep.leftBy touchedSteps).store.IsSound ∧
    (IndexerStep.leftBy touchedSteps).store.Spares (sampleIndexer.sourceOf touchedFiles) := by
  apply @Indexer.afterAll_spares sampleIndexer _ isApart_touchedFiles
    [.scan (sampleDisk "struct A;" 1) .force, .restart]
  rw [List.forall_mem_cons, List.forall_mem_singleton]
  refine ⟨?_, nofun⟩
  rw [Indexer.filesOf, filesOn_sampleDisk]
  exact sampleIndexer.supplies_sourceOf (List.forall_mem_singleton.mpr List.mem_cons_self)

/-- The file has been stored with its first time. -/
theorem row?_touchedSteps : ∃ row,
    (IndexerStep.leftBy touchedSteps).store.row? "p" "a.rs" = some row ∧
      row.file.contentHash = contentHash "struct A;".toUTF8 ∧
      row.file.time = .ofMilliseconds 1 := by
  let disk := sampleDisk "struct A;" 1
  let file : WalkedFile := ⟨"a.rs", sampleContent "struct A;" 1⟩
  let left := (IndexerStep.leftBy touchedSteps).holding "p" "a.rs"
  rcases @scan_touchedFiles file List.mem_cons_self 1 rfl .force {} Store.isSound_empty
    (Store.spares_empty _) with ⟨succeeds, complete⟩
  have member : file ∈ sampleIndexer.filesOn disk := by
    rw [filesOn_sampleDisk]
    exact List.mem_cons_self
  have stored : left.row?.isSome := by
    rcases Indexer.isDone_scan (isProper_sampleDisk _ _) succeeds (fun _ _ => rfl) complete member
      with large | ⟨row, found, -⟩
    · exact absurd large (by decide)
    · exact Option.isSome_of_eq_some found
  have ofProject := isOf_touchedSteps
  have advances := advances_touchedFiles
  have differ := contentsDiffer_touchedFiles
  rw [List.forall_mem_append] at ofProject
  rw [← seenBy_touchedStep] at advances differ
  have traced := IndexerStep.isTraced_leftBy ofProject.1 (IndexerStep.advances_of_append advances)
    (IndexerStep.contentsDiffer_of_append differ) "a.rs"
  rw [seenBy_touchedSteps] at traced
  rcases Option.isSome_iff_exists.mp stored with ⟨row, found⟩
  have recorded := congrArg (Option.map fun row : FileRow => row.file.state) found
  rcases traced.of_recorded recorded.symm with ⟨known, other, kept?, isKnown, -, same, -, tells⟩
  cases List.mem_singleton.mp isKnown
  have isRow : row = other := Option.some.inj (found.symm.trans (congrArg Holding.row? same))
  rw [← isRow] at tells
  exact ⟨row, found, tells.hash, tells.time⟩

theorem touchesUnkept_touchedStep : sampleIndexer.TouchesUnkept (IndexerStep.leftBy touchedSteps)
    touchedStep.run ⟨"a.rs", sampleContent "struct A;" 2⟩ := by
  let file : WalkedFile := ⟨"a.rs", sampleContent "struct A;" 2⟩
  rcases row?_touchedSteps with ⟨row, found, hash, time⟩
  refine ⟨?_, rfl, ?_⟩
  · have files : sampleIndexer.filesOf touchedStep.run = _ := filesOn_sampleDisk "struct A;" 2
    rw [files]
    exact List.mem_cons_self
  · have recorded : Indexer.recordOf? (sampleIndexer.recordedFor
        (IndexerStep.leftBy touchedSteps) touchedStep.run) file.path = some row.file.state :=
      (Indexer.recordOf?_states _ _ _).trans (congrArg _ found)
    have later : file.content.time.isLaterThan row.file.state.time = true := by
      have sameTime : row.file.state.time = .ofMilliseconds 1 := time
      rw [sameTime]
      decide
    have sameHash : row.file.state.contentHash = contentHash file.content.bytes := hash
    have outcome : sampleIndexer.outcomeOf _ (Indexer.isForced touchedStep.run) file = _ :=
      Indexer.outcomeOf_recorded recorded
    rw [outcome, later, if_neg (by decide), if_neg (by decide), if_neg (by decide),
      if_pos sameHash]
    rfl

open IndexerStep in
/-- A file that has been touched while the indexer was not running is kept as if it were empty by a
scan that succeeds and does not fail at it. -/
theorem run_loses_touched_size :
    let scanned := sampleIndexer.scan (sampleDisk "struct A;" 2) .incremental (leftBy touchedSteps)
    scanned.1.success = true ∧ scanned.1.stats.failed = 0 ∧
      ∃ record, scanned.2.records.lookup "a.rs" = some record ∧ record.size = 0 ∧
        (sampleContent "struct A;" 2).bytes.size = 9 := by
  intro scanned
  let file : WalkedFile := ⟨"a.rs", sampleContent "struct A;" 2⟩
  rcases @scan_touchedFiles file (List.mem_cons_of_mem _ List.mem_cons_self) 2 rfl .incremental _
    spares_touchedSteps.1 spares_touchedSteps.2 with ⟨succeeds, complete⟩
  have advances := advances_touchedFiles
  have differ := contentsDiffer_touchedFiles
  rw [← seenBy_touchedStep] at advances differ
  have sizes := run_keeps_sizes isOf_touchedSteps advances differ rfl succeeds complete
  rw [leftBy_append] at sizes
  have touches := touchesUnkept_touchedStep
  rcases (sizes file touches.member).2.1 touches with ⟨record, isKept, unsized⟩
  exact ⟨succeeds, complete, record, isKept, unsized, by decide⟩

end SourceIndex
