import SourceIndex.Proofs.Scan.Agreement
import SourceIndex.Proofs.Scan.Sessions

/-! Indexers of different projects that share a store. In whatever order their requests reach it,
each of them comes to what it comes to with the store for itself. -/

namespace SourceIndex

/-! ## Memory -/

/-- What has been counted, apart from how often memory has been short. -/
def ScanStats.unshrunk (stats : ScanStats) : ScanStats := { stats with memoryShrinks := 0 }

/-- What is answered, apart from how often memory has been short. -/
def RunAnswer.unshrunk : RunAnswer → RunAnswer
  | reported report => reported { report with stats := report.stats.unshrunk }
  | removed count => removed count
  | restarted => restarted

/-- Whether two runs have counted the same, apart from how often memory has been short. -/
def Run.CountsAs (run other : Run) : Prop := run.stats.unshrunk = other.stats.unshrunk

theorem Run.CountsAs.plus {run other later otherLater : Run} (same : run.CountsAs other)
    (more : ScanStats) (counted : later.stats = run.stats.plus more)
    (otherCounted : otherLater.stats = other.stats.plus more) : later.CountsAs otherLater := by
  have distributes (stats : ScanStats) :
      (stats.plus more).unshrunk = stats.unshrunk.plus more.unshrunk := rfl
  rw [Run.CountsAs] at same ⊢
  rw [counted, otherCounted, distributes, distributes, same]

namespace Indexer

open Session (Matches)

variable (indexer : Indexer) {run other : Run}

/-- An indexer with another reading of the memory in use. -/
def withMemory (resident : Option Nat) : Indexer := { indexer with residentBytes := resident }

theorem unshrunk_checkMemory (run : Run) :
    (indexer.checkMemory run).stats.unshrunk = run.stats.unshrunk := by
  unfold checkMemory
  cases indexer.residentBytes with
  | none => rfl
  | some resident =>
      simp only
      split <;> rfl

theorem stats_recollect (stored : List FileState) (run : Run) (path : String) (time : FileTime) :
    (indexer.recollect stored run path time).stats = run.stats := by
  unfold recollect
  cases recordOf? stored path with
  | none => rfl
  | some known =>
      unfold remember
      cases run.records.lookup path <;> rfl

section

variable (same : run.CountsAs other)

include same

theorem countsAs_embedFiles (candidates : List Candidate) :
    (indexer.embedFiles candidates run).2.2.CountsAs
      (indexer.embedFiles candidates other).2.2 := by
  unfold embedFiles
  simp only
  split
  · exact same
  · split
    · next vectors _ => exact same.plus { embedded := vectors.length } rfl rfl
    · exact same.plus { embeddingFailures := 1 } rfl rfl

theorem countsAs_embedChunks (files : List IndexedFile) :
    (indexer.embedChunks files run).2.CountsAs (indexer.embedChunks files other).2 := by
  unfold embedChunks
  simp only
  split
  · exact same
  · split
    · exact same
    · exact same.plus { embeddingFailures := 1 } rfl rfl

theorem countsAs_prepare (position : ScanPosition) (candidates : List Candidate) :
    (indexer.prepare position candidates run).CountsAs
      (indexer.prepare position candidates other) := by
  have entered : (run.enter .embedding position).CountsAs (other.enter .embedding position) := same
  have first := indexer.embedFiles_eq candidates (run.enter .embedding position)
  have second := indexer.embedFiles_eq candidates (other.enter .embedding position)
  have embedded := indexer.countsAs_embedFiles entered candidates
  have analysing : (Run.enter _ .analyzing position).CountsAs (Run.enter _ .analyzing position) :=
    embedded
  unfold prepare
  simp only [first.1, first.2, second.1, second.2]
  split
  · exact indexer.countsAs_embedChunks analysing _
  · exact embedded

theorem matches_touching (stored : List FileState) (path : String) (time : FileTime) :
    Matches Run.CountsAs (indexer.touching stored run path time)
      (indexer.touching stored other path time) :=
  .ask fun _ => .ended
    (same.plus { skippedByContent := 1 } (indexer.stats_recollect ..) (indexer.stats_recollect ..))

theorem matches_persisting (file : IndexedFile) :
    Matches Run.CountsAs (persisting run file) (persisting other file) := by
  refine .ask ?_
  rintro (error | acks)
  · exact .ended (same.plus { ackFailed := 1, failed := 1 } rfl rfl)
  · let confirmed := acks.countP (·.isConfirmed)
    exact .ended (same.plus
      { ackSuccess := confirmed, ackFailed := acks.length - confirmed, indexed := 1,
        totalLines := file.lineCount } rfl rfl)

theorem matches_pruning (path : String) :
    Matches Run.CountsAs (pruning run path) (pruning other path) := by
  refine .ask ?_
  rintro (error | wasThere)
  · exact .ended same
  · cases wasThere with
    | false => exact .ended same
    | true => exact .ended (same.plus { pruned := 1 } rfl rfl)

/-- However much memory is in use, the same is asked of the store, and the same is counted apart
from how often memory has been short. -/
theorem matches_processingBatch (stored : List FileState) (force : Bool) (position : ScanPosition)
    (batch : List WalkedFile) (resident : Option Nat) :
    Matches Run.CountsAs (indexer.processingBatch stored force position batch run)
      ((indexer.withMemory resident).processingBatch stored force position batch other) := by
  have entered : (run.enter .readingAndFiltering position).CountsAs
      (other.enter .readingAndFiltering position) := same
  have taken (start : Run) :=
    indexer.stats_takeReads stored (indexer.outcomesOf stored force batch) { run := start }
  have read := entered.plus _ (taken _) (taken _)
  have touched : Matches Run.CountsAs
      (.forEach (fun run touched => indexer.touching stored run touched.1 touched.2)
        (indexer.touchesOf stored force batch)
        (indexer.readThrough stored force batch (run.enter .readingAndFiltering position)).run)
      (.forEach (fun run touched => indexer.touching stored run touched.1 touched.2)
        (indexer.touchesOf stored force batch)
        (indexer.readThrough stored force batch (other.enter .readingAndFiltering position)).run) :=
    Session.matches_forEach
      (fun touched {_ _} same => indexer.matches_touching same stored touched.1 touched.2) _ read
  let candidates := indexer.candidatesOf stored force batch
  have indexed {run other : Run} (same : run.CountsAs other) : Matches Run.CountsAs
      (if candidates.isEmpty then .ended run else indexer.indexing position candidates run)
      (if candidates.isEmpty then .ended other
        else indexer.indexing position candidates other) := by
    split
    · exact .ended same
    · exact Session.matches_forEach (fun file {_ _} same => matches_persisting same file) _
        (indexer.countsAs_prepare same position candidates)
  have checked {run other : Run} (same : run.CountsAs other) : (indexer.checkMemory run).CountsAs
      ((indexer.withMemory resident).checkMemory other) :=
    (indexer.unshrunk_checkMemory run).trans
      (Eq.trans same ((indexer.withMemory resident).unshrunk_checkMemory other).symm)
  exact Matches.map (touched.bind indexed) checked

theorem matches_processingFiles (stored : List FileState) (force : Bool) (files : List WalkedFile)
    (resident : Option Nat) :
    Matches Run.CountsAs (indexer.processingFiles stored force files run)
      ((indexer.withMemory resident).processingFiles stored force files other) := by
  let related (reached otherReached : Run × ScanPosition) : Prop :=
    reached.1.CountsAs otherReached.1 ∧ reached.2 = otherReached.2
  have step (batch : List WalkedFile) {reached otherReached : Run × ScanPosition}
      (same : related reached otherReached) :
      Matches related (indexer.processingStep stored force reached batch)
        ((indexer.withMemory resident).processingStep stored force otherReached batch) := by
    rcases reached with ⟨run, position⟩
    rcases otherReached with ⟨other, otherPosition⟩
    rcases same with ⟨same, samePosition⟩
    cases (show position = otherPosition from samePosition)
    exact Matches.map (indexer.matches_processingBatch same stored force _ batch resident)
      fun same => ⟨same, rfl⟩
  let parts := batches (batchSize indexer.config.scan files.length) files
  let start : ScanPosition := { total := files.length, batches := parts.length }
  have started : related (run, start) (other, start) := ⟨same, rfl⟩
  exact Matches.map (Session.matches_forEach step parts started) fun same => same.1

end

theorem matches_removing (paths : List String) (removed : Nat) (state other : IndexState) :
    Matches (fun left otherLeft => left.1 = otherLeft.1) (removing paths removed state)
      (removing paths removed other) := by
  induction paths generalizing removed state other with
  | nil => exact .ended rfl
  | cons path paths induction =>
      refine .ask ?_
      rintro (error | wasThere)
      · exact .ended rfl
      · exact induction _ _ _

/-- Whether two runs report the same, apart from how often memory has been short. -/
def ReportsAs (reported other : ScanReport × Run) : Prop :=
  (RunAnswer.reported reported.1).unshrunk = (RunAnswer.reported other.1).unshrunk

theorem reportsAs_finish (same : run.CountsAs other) (error : Option ScanError) :
    ReportsAs (indexer.finish run error) (indexer.finish other error) :=
  congrArg (fun stats => RunAnswer.reported ⟨indexer.project, stats, error⟩) same

theorem matches_scanning (disk : FileTree) (mode : ScanMode) (state other : IndexState)
    (resident : Option Nat) :
    Matches ReportsAs (indexer.scanning disk mode state)
      ((indexer.withMemory resident).scanning disk mode other) := by
  have sameRoot : (indexer.withMemory resident).rootTree? disk = indexer.rootTree? disk := rfl
  unfold scanning
  rw [sameRoot]
  cases indexer.rootTree? disk with
  | none => exact .ended rfl
  | some tree =>
      refine .ask ?_
      rintro (error | stored)
      · exact .ended rfl
      · let files := tree.walk indexer.options indexer.policy
        have pruned {run other : Run} (same : run.CountsAs other) : Matches Run.CountsAs
            (if indexer.config.scan.pruneMissing
              then .forEach pruning (missingFrom stored files) run else .ended run)
            (if indexer.config.scan.pruneMissing
              then .forEach pruning (missingFrom stored files) other else .ended other) := by
          split
          · exact Session.matches_forEach (fun path {_ _} same => matches_pruning same path) _ same
          · exact .ended same
        have begun : (indexer.begun mode files state).CountsAs (indexer.begun mode files other) :=
          rfl
        have processed :=
          indexer.matches_processingFiles begun stored (mode = .force) files resident
        exact Matches.map (processed.bind pruned) fun same => indexer.reportsAs_finish same none

theorem matches_indexingLeft (same : run.CountsAs other) (files : List WalkedFile)
    (removal : Except StoreError Nat) (left otherLeft : IndexState) (resident : Option Nat) :
    Matches ReportsAs (indexer.indexingLeft files run (removal, left))
      ((indexer.withMemory resident).indexingLeft files other (removal, otherLeft)) := by
  cases removal with
  | error error => exact .ended (indexer.reportsAs_finish same _)
  | ok removed =>
      let clear (begun : Run) (left : IndexState) : Run :=
        ({ begun with toIndexState := left } : Run).count fun stats =>
          { stats with pruned := stats.pruned + removed }
      have counted : (clear run left).CountsAs (clear other otherLeft) :=
        same.plus { pruned := removed } rfl rfl
      unfold indexingLeft
      simp only
      split
      · exact .ended (indexer.reportsAs_finish counted none)
      · refine .ask ?_
        rintro (error | stored)
        · exact .ended (indexer.reportsAs_finish counted _)
        · exact Matches.map (indexer.matches_processingFiles counted stored false files resident)
            fun same => indexer.reportsAs_finish same none

theorem matches_indexingPaths (disk : FileTree) (paths : List String) (state other : IndexState)
    (resident : Option Nat) :
    Matches ReportsAs (indexer.indexingPaths disk paths state)
      ((indexer.withMemory resident).indexingPaths disk paths other) := by
  have sameRoot : (indexer.withMemory resident).rootTree? disk = indexer.rootTree? disk := rfl
  unfold indexingPaths
  rw [sameRoot]
  cases indexer.rootTree? disk with
  | none => exact .ended rfl
  | some tree =>
      refine Matches.bind (matches_removing _ 0 _ _) ?_
      rintro ⟨removal, left⟩ ⟨otherRemoval, otherLeft⟩ same
      cases (show removal = otherRemoval from same)
      exact indexer.matches_indexingLeft rfl _ removal left otherLeft resident

/-- However much memory is in use, and whatever is kept in it, the same is asked of the store and
the same is answered, apart from how often memory has been short. -/
theorem matches_session (runs : List IndexerRun) (state other : IndexState)
    (resident : Option Nat) :
    Matches (fun left otherLeft => left.1.map RunAnswer.unshrunk =
        otherLeft.1.map RunAnswer.unshrunk)
      (indexer.session state runs) ((indexer.withMemory resident).session other runs) := by
  induction runs generalizing state other with
  | nil => exact .ended rfl
  | cons run runs induction =>
      have first : Matches (fun left otherLeft => left.1.unshrunk = otherLeft.1.unshrunk)
          (indexer.running state run) ((indexer.withMemory resident).running other run) := by
        cases run with
        | scan disk mode =>
            exact (indexer.matches_scanning disk mode state other resident).map fun same => same
        | indexPaths disk paths =>
            exact (indexer.matches_indexingPaths disk paths state other resident).map
              fun same => same
        | removePaths paths =>
            exact (matches_removing paths 0 state other).map fun same =>
              congrArg RunAnswer.removed same
        | restart => exact .ended rfl
      exact first.bind fun same => (induction _ _).map fun rest => congrArg₂ List.cons same rest

/-- An indexer that has the store for itself does in a session what its runs do with any other
reading of the memory. -/
theorem session_alone (runs : List IndexerRun) (state : IndexState) (store : Store)
    (resident : Option Nat) :
    let session := (indexer.session state runs).alone indexer.client store
    let alone := indexer.withMemory resident
    session.1.1.map RunAnswer.unshrunk =
        (alone.answersTo (state.on store) runs).map RunAnswer.unshrunk ∧
      session.2 = (runs.foldl alone.after (state.on store)).store := by
  intro session alone
  have same := @Matches.alone _ _ indexer.client _ _ _
    (indexer.matches_session runs state state resident) store
  have yields := alone.yields_session runs state store
  have answers := congrArg Prod.fst yields
  have left := congrArg (fun left => left.2.store) yields
  exact ⟨same.1.trans (congrArg (List.map RunAnswer.unshrunk) answers), same.2.trans left⟩

/-! ## Identifiers -/

/-- Whether no files of two indexers have an identifier in common. -/
def SharesNoIds (indexer other : Indexer) (files otherFiles : List WalkedFile) : Prop :=
  ∀ file ∈ files, ∀ otherFile ∈ otherFiles, ∀ kind, ∀ id ∈ (indexer.outline file).rowIds kind,
    id ∉ (other.outline otherFile).rowIds kind

/-- The files that two indexers may store. -/
def sourceOfBoth (first second : Indexer) (files otherFiles : List WalkedFile) : FileSource :=
  fun project file => first.sourceOf files project file ∨ second.sourceOf otherFiles project file

theorem SharesNoIds.separatesProjects {first second : Indexer} {files otherFiles : List WalkedFile}
    (apart : first.SharesNoIds second files otherFiles) :
    (first.sourceOfBoth second files otherFiles).SeparatesProjects := by
  rintro _ _ _ _ (⟨rfl, file, member, rfl⟩ | ⟨rfl, file, member, rfl⟩)
    (⟨rfl, other, otherMember, rfl⟩ | ⟨rfl, other, otherMember, rfl⟩) different kind id inside
    otherInside
  · exact different rfl
  · exact apart file member other otherMember kind id inside otherInside
  · exact apart other otherMember file member kind id otherInside inside
  · exact different rfl

/-- Where identifiers do not collide, files of different projects have none in common. -/
theorem IdentifiesBy.sharesNoIds {texts : List (List String)} (differ : IdentifiersDiffer texts)
    {first second : Indexer} {files otherFiles : List WalkedFile}
    (identifies : ∀ file ∈ files, first.IdentifiesBy texts file)
    (otherIdentifies : ∀ file ∈ otherFiles, second.IdentifiesBy texts file)
    (noZero : 0 ∉ bytesOf first.project) (otherNoZero : 0 ∉ bytesOf second.project)
    (different : first.project ≠ second.project) : first.SharesNoIds second files otherFiles := by
  intro file member otherFile otherMember kind id inside otherInside
  have same := (identifies file member).fileId_eq differ (otherIdentifies otherFile otherMember)
    inside otherInside
  exact different (differ.head_eq noZero otherNoZero (identifies file member).path
    (otherIdentifies otherFile otherMember).path same)

end Indexer

/-! ## Indexers that share a store -/

section

variable {first second : Indexer} {runs otherRuns : List IndexerRun} {store : Store}

/-- Whatever turns two indexers of different projects take with a store, each of them answers what
it answers with the store for itself, apart from how often memory has been short, and the same is
left of its project. -/
theorem together_agrees_alone (different : first.project ≠ second.project)
    (apart : first.SharesNoIds second (runs.flatMap first.filesOf)
      (otherRuns.flatMap second.filesOf))
    (sound : store.IsSound)
    (avoids : ∀ file ∈ runs.flatMap first.filesOf,
      store.Avoids first.project (first.outline file))
    (otherAvoids : ∀ file ∈ otherRuns.flatMap second.filesOf,
      store.Avoids second.project (second.outline file))
    (turns : List Session.Turn) (state otherState : IndexState)
    (resident otherResident : Option Nat) :
    let shared := Session.together first.client second.client turns
      (first.session state runs) (second.session otherState otherRuns) store
    let alone := first.withMemory resident
    let otherAlone := second.withMemory otherResident
    shared.1.1.1.map RunAnswer.unshrunk =
        (alone.answersTo (state.on store) runs).map RunAnswer.unshrunk ∧
      shared.1.2.1.map RunAnswer.unshrunk =
        (otherAlone.answersTo (otherState.on store) otherRuns).map RunAnswer.unshrunk ∧
      shared.2.only first.project =
        (runs.foldl alone.after (state.on store)).store.only first.project ∧
      shared.2.only second.project =
        (otherRuns.foldl otherAlone.after (otherState.on store)).store.only second.project := by
  intro shared alone otherAlone
  let source := first.sourceOfBoth second (runs.flatMap first.filesOf)
    (otherRuns.flatMap second.filesOf)
  have fair : store.IsFair source := by
    refine ⟨sound, ?_⟩
    rintro project file (⟨rfl, walked, member, rfl⟩ | ⟨rfl, walked, member, rfl⟩)
    · exact avoids walked member
    · exact otherAvoids walked member
  have supplied : ∀ run ∈ runs, first.Supplies source (first.filesOf run) :=
    fun run member file inside =>
      .inl ⟨rfl, file, List.mem_flatMap.mpr ⟨run, member, inside⟩, rfl⟩
  have otherSupplied : ∀ run ∈ otherRuns, second.Supplies source (second.filesOf run) :=
    fun run member file inside =>
      .inr ⟨rfl, file, List.mem_flatMap.mpr ⟨run, member, inside⟩, rfl⟩
  have comes : (first.session state runs).ComesFrom source first.client.project :=
    Indexer.comesFrom_session supplied state
  have otherComes : (second.session otherState otherRuns).ComesFrom source second.client.project :=
    Indexer.comesFrom_session otherSupplied otherState
  -- In the beginning the shared store is the one that each of them would have for itself.
  have alike : Session.Alike source first.project store store := ⟨fair, fair, rfl⟩
  have otherAlike : Session.Alike source second.project store store := ⟨fair, fair, rfl⟩
  rcases Session.together_alike apart.separatesProjects different comes otherComes alike otherAlike
    turns with ⟨answers, rows, otherRows⟩
  rcases first.session_alone runs state store resident with ⟨aside, left⟩
  rcases second.session_alone otherRuns otherState store otherResident with ⟨otherAside, otherLeft⟩
  have answered := congrArg (fun both => both.1.1.map RunAnswer.unshrunk) answers
  have otherAnswered := congrArg (fun both => both.2.1.map RunAnswer.unshrunk) answers
  rw [← left, ← otherLeft]
  exact ⟨answered.trans aside, otherAnswered.trans otherAside, rows, otherRows⟩

end

/-! ## One disk that is indexed for two projects -/

def otherSampleIndexer : Indexer := { sampleIndexer with project := "q" }

/-- The file changes while it is indexed for one project. -/
def sampleRuns : List IndexerRun :=
  [.scan (sampleDisk "struct A;" 1) .force, .scan (sampleDisk "struct B;" 2) .incremental]

/-- For the other one it is indexed and then removed. -/
def otherSampleRuns : List IndexerRun :=
  [.scan (sampleDisk "struct A;" 1) .incremental, .indexPaths (sampleDisk "struct A;" 1) ["a.rs"],
    .removePaths ["a.rs"]]

theorem flatMap_filesOf_sampleRuns : sampleRuns.flatMap sampleIndexer.filesOf = sampleFiles := by
  simp only [sampleRuns, List.flatMap_cons, List.flatMap_nil, Indexer.filesOf, filesOn_sampleDisk]
  rfl

theorem mem_filesOf_otherSampleRuns {file : WalkedFile}
    (member : file ∈ otherSampleRuns.flatMap otherSampleIndexer.filesOf) :
    file = ⟨"a.rs", sampleContent "struct A;" 1⟩ := by
  have walked : otherSampleIndexer.filesOn (sampleDisk "struct A;" 1) =
      [⟨"a.rs", sampleContent "struct A;" 1⟩] := filesOn_sampleDisk "struct A;" 1
  have present : otherSampleIndexer.filesAt (sampleDisk "struct A;" 1) ["a.rs"] =
      [⟨"a.rs", sampleContent "struct A;" 1⟩] := by
    have standing : otherSampleIndexer.standing (sampleDisk "struct A;" 1) "a.rs" =
        .present ⟨"a.rs", sampleContent "struct A;" 1⟩ := rfl
    rw [Indexer.filesAt, List.map_singleton, standing]
    unfold Indexer.presentFiles
    simp only [List.filterMap_cons, List.filterMap_nil, List.mergeSort_singleton]
    rfl
  simp only [otherSampleRuns, List.flatMap_cons, List.flatMap_nil, Indexer.filesOf, walked,
    present] at member
  rcases List.mem_append.mp member with member | member
  · exact List.mem_singleton.mp member
  · exact List.mem_singleton.mp member

/-- What the identifiers for both projects are made of. -/
def sharedTexts : List (List String) :=
  let id := fileId "q" "a.rs"
  sampleTexts ++ [["q", "a.rs"], [id, "struct", "A", "1"], [id, "chunk", "0", "1", "1"]]

theorem identifiersDiffer_sharedTexts : IdentifiersDiffer sharedTexts := by
  apply IdentifiersDiffer.of_nodup
  decide +kernel

theorem identifiesBy_sharedTexts :
    otherSampleIndexer.IdentifiesBy sharedTexts ⟨"a.rs", sampleContent "struct A;" 1⟩ := by
  have found : ∀ analysis ∈ (otherSampleIndexer.outline
      ⟨"a.rs", sampleContent "struct A;" 1⟩).analysis,
      (∀ definition ∈ analysis.definitions, definition.identity ∈ sharedTexts) ∧
        analysis.dependencies.isEmpty = true ∧
        ∀ chunk ∈ analysis.chunks, chunk.identity ∈ sharedTexts := by
    decide +kernel
  exact .of_no_dependencies (List.mem_append_right _ List.mem_cons_self) found

theorem sharesNoIds_sampleRuns : sampleIndexer.SharesNoIds otherSampleIndexer
    (sampleRuns.flatMap sampleIndexer.filesOf)
    (otherSampleRuns.flatMap otherSampleIndexer.filesOf) := by
  refine Indexer.IdentifiesBy.sharesNoIds identifiersDiffer_sharedTexts ?_ ?_ (by decide)
    (by decide) (by decide)
  · intro file member
    rw [flatMap_filesOf_sampleRuns] at member
    exact (identifiesBy_sampleTexts file member).mono fun _ => List.mem_append_left _
  · intro file member
    rw [mem_filesOf_otherSampleRuns member]
    exact identifiesBy_sharedTexts

/-- Although the requests for both projects alternate, and the memory would be short if the first
one were alone, each of them comes to what it comes to alone. -/
theorem together_agrees_alone_sampleRuns :
    let turns := [.first, .second, .second, .first, .first, .second, .second]
    let shared := Session.together sampleIndexer.client otherSampleIndexer.client turns
      (sampleIndexer.session {} sampleRuns) (otherSampleIndexer.session {} otherSampleRuns) {}
    let alone := sampleIndexer.withMemory (some 0xffffffffffffffff)
    let otherAlone := otherSampleIndexer.withMemory none
    shared.1.1.1.map RunAnswer.unshrunk =
        (alone.answersTo {} sampleRuns).map RunAnswer.unshrunk ∧
      shared.1.2.1.map RunAnswer.unshrunk =
        (otherAlone.answersTo {} otherSampleRuns).map RunAnswer.unshrunk ∧
      shared.2.only "p" = (sampleRuns.foldl alone.after {}).store.only "p" ∧
      shared.2.only "q" = (otherSampleRuns.foldl otherAlone.after {}).store.only "q" :=
  together_agrees_alone (by decide) sharesNoIds_sampleRuns Store.isSound_empty
    (fun _ _ => Store.avoids_empty _ _) (fun _ _ => Store.avoids_empty _ _) _ {} {}
    (some 0xffffffffffffffff) none

end SourceIndex
