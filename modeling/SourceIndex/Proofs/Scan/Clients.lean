import SourceIndex.Proofs.Scan.Calls
import SourceIndex.Proofs.Store.Projects

/-! Sessions with a store: what is asked of it for a project, one request after the other, where
each may depend on all answers so far. Sessions of different projects whose requests reach one store
in any order come to the same as if each had the store for itself. -/

namespace SourceIndex

/-! ## Requests -/

/-- What is asked of a store for a project. -/
inductive StoreRequest
  | load
  | persist (file : IndexedFile)
  | touch (path : String) (time : FileTime)
  | remove (path : String)

def StoreRequest.Answer : StoreRequest → Type
  | load => Except StoreError (List FileState)
  | persist _ => Except StoreError (List WriteAck)
  | touch _ _ | remove _ => Except StoreError Bool

/-- What an operation answers and the store that it leaves, which is the former one if it fails. -/
def Store.settle {α : Type} (store : Store) :
    Except StoreError (α × Store) → Except StoreError α × Store
  | .ok (answer, left) => (.ok answer, left)
  | .error error => (.error error, store)

/-- Somebody who uses a store for a project, and what the store refuses to them. -/
structure StoreClient where
  project : String
  gate : StoreGate

namespace StoreClient

def perform (client : StoreClient) (store : Store) :
    (request : StoreRequest) → request.Answer × Store
  | .load => (client.gate.states store client.project, store)
  | .persist file => store.settle (client.gate.persist store client.project file)
  | .touch path time => store.settle (client.gate.touch store client.project path time)
  | .remove path => store.settle (client.gate.remove store client.project path)

end StoreClient

/-! ## Identifiers of different projects -/

/-- Whether no files of different projects have an identifier in common. -/
def FileSource.SeparatesProjects (source : FileSource) : Prop :=
  ∀ project file other given, source project file → source other given → other ≠ project →
    ∀ kind, ∀ id ∈ file.rowIds kind, id ∉ given.rowIds kind

namespace Store

/-- Whether the rows of a store fit together and none of them has an identifier of a file of
another project. -/
structure IsFair (store : Store) (source : FileSource) : Prop where
  sound : store.IsSound
  avoids : ∀ project file, source project file → store.Avoids project file

theorem Avoids.of_bare {store : Store} {project : String} {file : IndexedFile}
    (avoids : store.Avoids project file.bare) : store.Avoids project file where
  files row member foreign := file.rowIds_bare .file ▸ avoids.files row member foreign
  definitions row member unowned :=
    file.rowIds_bare .definition ▸ avoids.definitions row member unowned
  dependencies row member unowned :=
    file.rowIds_bare .dependency ▸ avoids.dependencies row member unowned
  chunks row member unowned := file.rowIds_bare .chunk ▸ avoids.chunks row member unowned

end Store

/-- Whether the file that a request may write comes from a source, vectors aside. -/
def StoreRequest.ComesFrom (source : FileSource) (project : String) : StoreRequest → Prop
  | persist file => source project file.bare
  | load | touch _ _ | remove _ => True

namespace StoreGate

variable {gate : StoreGate} {store : Store} {project : String}

/-- What is answered to operations on the rows of a project is what is answered to operations on
all rows, and so is what is left of the project. -/
theorem attempt_only {α : Type} (operation : StoreOperation) (path : String)
    {act actOnly : Except StoreError (α × Store)}
    (same : actOnly = act.map fun answer => (answer.1, answer.2.only project)) :
    (store.only project).settle (gate.attempt operation path fun _ => actOnly) =
      ((store.settle (gate.attempt operation path fun _ => act)).1,
        (store.settle (gate.attempt operation path fun _ => act)).2.only project) := by
  unfold attempt
  rw [same]
  cases gate.refuses operation path with
  | some error => rfl
  | none => cases act <;> rfl

end StoreGate

namespace StoreClient

variable {client : StoreClient} {source : FileSource} {store : Store} {request : StoreRequest}

/-- A request is answered by the rows of its project, and changes them as if there were no
others. -/
theorem perform_only (fair : store.IsFair source)
    (comes : request.ComesFrom source client.project) :
    client.perform (store.only client.project) request =
      ((client.perform store request).1,
        (client.perform store request).2.only client.project) := by
  cases request with
  | load =>
      unfold perform StoreGate.states StoreGate.attempt
      rw [Store.states_only]
  | persist file =>
      exact StoreGate.attempt_only .persist file.path
        (Store.persist_only (fair.avoids _ _ comes).of_bare)
  | touch path time =>
      refine StoreGate.attempt_only .touch path (congrArg Except.ok (Prod.ext ?_ ?_))
      · exact store.touch_fst_only client.project path time
      · exact (store.only_touch client.project path time).symm
  | remove path =>
      refine StoreGate.attempt_only .remove path (congrArg Except.ok (Prod.ext ?_ ?_))
      · exact store.remove_fst_only client.project path
      · exact (Store.only_remove fair.sound client.project path).symm

/-- What is left behind a request is what its call leaves. -/
theorem store_perform (client : StoreClient) (store : Store) (request : StoreRequest) :
    (client.perform store request).2 = store ∨
      ∃ call : StoreCall, (client.perform store request).2 = client.gate.perform store call ∧
        call.place.1 = client.project ∧
        ∀ source, request.ComesFrom source client.project → call.ComesFrom source := by
  have settled {α : Type} (answer : Except StoreError (α × Store)) :
      (store.settle answer).2 = Indexer.storeAfter store answer := by
    cases answer <;> rfl
  cases request with
  | load => exact .inl rfl
  | persist file =>
      refine .inr ⟨.persist client.project file, settled _, rfl, ?_⟩
      rintro source comes project given same
      cases same
      exact comes
  | touch path time =>
      exact .inr ⟨.touch client.project path time, settled _, rfl, fun _ _ => nofun⟩
  | remove path => exact .inr ⟨.remove client.project path, settled _, rfl, fun _ _ => nofun⟩

/-- A request changes nothing of other projects. -/
theorem perform_other (fair : store.IsFair source) (comes : request.ComesFrom source client.project)
    {other : String} (different : other ≠ client.project) :
    (client.perform store request).2.only other = store.only other := by
  rcases client.store_perform store request with same | ⟨call, same, place, callComes⟩
  · rw [same]
  · rw [same]
    rcases client.gate.perform_cases store call with same | ⟨project, file, rfl, done, fresh⟩ |
      ⟨project, path, time, rfl, done⟩ | ⟨project, path, rfl, done⟩
    · rw [same]
    · cases (show project = client.project from place)
      rw [done]
      have avoids := (fair.avoids _ _ (callComes source comes _ _ rfl)).of_bare
      exact Store.only_written_other fair.sound avoids fresh different
    · cases (show project = client.project from place)
      rw [done]
      exact store.only_touch_other _ path time different
    · cases (show project = client.project from place)
      rw [done]
      exact Store.only_remove_other fair.sound path different

theorem fair_perform (separates : source.SeparatesProjects) (fair : store.IsFair source)
    (comes : request.ComesFrom source client.project) :
    (client.perform store request).2.IsFair source := by
  rcases client.store_perform store request with same | ⟨call, same, -, callComes⟩
  · rwa [same]
  · rw [same]
    refine ⟨client.gate.isSound_perform fair.sound call, ?_⟩
    intro other given isGiven
    have avoids := fair.avoids other given isGiven
    rcases client.gate.perform_cases store call with same | ⟨project, file, rfl, done, -⟩ |
      ⟨project, path, time, -, done⟩ | ⟨project, path, -, done⟩
    · rwa [same]
    · rw [done]
      refine avoids.written fun different kind id member => ?_
      refine separates project file.bare other given (callComes source comes _ _ rfl) isGiven
        different kind id ?_
      rwa [IndexedFile.rowIds_bare]
    · rw [done]
      exact avoids.touch project path time
    · rw [done]
      exact avoids.remove fair.sound project path

end StoreClient

/-! ## Sessions -/

/-- A session with a store: it has come to an end, or something is asked and the answer tells how to
go on. -/
inductive Session (α : Type)
  | ended (result : α)
  | ask (request : StoreRequest) (resume : request.Answer → Session α)

namespace Session

variable {α β : Type}

def bind (next : α → Session β) : Session α → Session β
  | ended result => next result
  | ask request resume => ask request fun answer => (resume answer).bind next

/-- A session that has the store for itself, with its result and what it leaves. -/
def alone (client : StoreClient) : Session α → Store → α × Store
  | ended result, store => (result, store)
  | ask request resume, store =>
    let (answer, left) := client.perform store request
    (resume answer).alone client left

/-- One step of a session. -/
def step (client : StoreClient) : Session α → Store → Session α × Store
  | ended result, store => (ended result, store)
  | ask request resume, store =>
    let (answer, left) := client.perform store request
    (resume answer, left)

/-- Whether all that may be asked in a session is of a kind. -/
def Asks (holds : StoreRequest → Prop) : Session α → Prop
  | ended _ => True
  | ask request resume => holds request ∧ ∀ answer, (resume answer).Asks holds

/-- Whose turn it is. -/
inductive Turn
  | first
  | second

/-- Two sessions with one store. They take turns, and what is left of them when the turns are over
is done at last, the first one before the second one. -/
def together (client other : StoreClient) : List Turn → Session α → Session β → Store →
    (α × β) × Store
  | [], session, otherSession, store =>
    let (result, left) := session.alone client store
    let (otherResult, left) := otherSession.alone other left
    ((result, otherResult), left)
  | .first :: turns, session, otherSession, store =>
    let (session, left) := session.step client store
    together client other turns session otherSession left
  | .second :: turns, session, otherSession, store =>
    let (otherSession, left) := otherSession.step other store
    together client other turns session otherSession left

variable {client other : StoreClient} {source : FileSource}

theorem alone_bind (session : Session α) (next : α → Session β) (store : Store) :
    (session.bind next).alone client store =
      let (result, left) := session.alone client store
      (next result).alone client left := by
  induction session generalizing store with
  | ended result => rfl
  | ask request resume induction => exact induction _ _

theorem asks_bind {holds : StoreRequest → Prop} {session : Session α} {next : α → Session β}
    (asks : session.Asks holds) (later : ∀ result, (next result).Asks holds) :
    (session.bind next).Asks holds := by
  induction session with
  | ended result => exact later result
  | ask request resume induction =>
      exact ⟨asks.1, fun answer => induction answer (asks.2 answer)⟩

theorem alone_step (session : Session α) (store : Store) :
    (session.step client store).1.alone client (session.step client store).2 =
      session.alone client store := by
  cases session <;> rfl

/-! ## Sessions that ask the same -/

/-- Whether in two sessions the same is asked as long as the same is answered, and what they come to
is related. -/
inductive Matches (related : α → β → Prop) : Session α → Session β → Prop
  | ended {result : α} {other : β} (same : related result other) :
    Matches related (.ended result) (.ended other)
  | ask {request : StoreRequest} {resume : request.Answer → Session α}
    {other : request.Answer → Session β}
    (same : ∀ answer, Matches related (resume answer) (other answer)) :
    Matches related (.ask request resume) (.ask request other)

theorem Matches.alone {related : α → β → Prop} {session : Session α} {otherSession : Session β}
    (same : Matches related session otherSession) (store : Store) :
    related (session.alone client store).1 (otherSession.alone client store).1 ∧
      (session.alone client store).2 = (otherSession.alone client store).2 := by
  induction same generalizing store with
  | ended same => exact ⟨same, rfl⟩
  | ask _ induction => exact induction _ _

theorem Matches.bind {γ δ : Type} {related : α → β → Prop} {relatedNext : γ → δ → Prop}
    {session : Session α} {otherSession : Session β} (same : Matches related session otherSession)
    {next : α → Session γ} {otherNext : β → Session δ}
    (later : ∀ {result other}, related result other →
      Matches relatedNext (next result) (otherNext other)) :
    Matches relatedNext (session.bind next) (otherSession.bind otherNext) := by
  induction same with
  | ended same => exact later same
  | ask _ induction => exact .ask induction

/-! ## Sessions that share a store -/

/-- Whether two stores are the same to a project, and its files can be written to both. -/
structure Alike (source : FileSource) (project : String) (store own : Store) : Prop where
  fair : store.IsFair source
  ownFair : own.IsFair source
  same : store.only project = own.only project

variable {store own : Store}

/-- Stores that are the same to a project answer the same, and stay so. -/
theorem Alike.performed (separates : source.SeparatesProjects)
    (alike : Alike source client.project store own) {request : StoreRequest}
    (comes : request.ComesFrom source client.project) :
    (client.perform store request).1 = (client.perform own request).1 ∧
      Alike source client.project (client.perform store request).2
        (client.perform own request).2 := by
  have shared := StoreClient.perform_only alike.fair comes
  rw [alike.same, StoreClient.perform_only alike.ownFair comes, Prod.mk.injEq] at shared
  exact ⟨shared.1.symm, StoreClient.fair_perform separates alike.fair comes,
    StoreClient.fair_perform separates alike.ownFair comes, shared.2.symm⟩

/-- What is left of a store by requests for another project is the same to a project. -/
theorem Alike.performed_other (separates : source.SeparatesProjects)
    (alike : Alike source client.project store own) (different : client.project ≠ other.project)
    {request : StoreRequest} (comes : request.ComesFrom source other.project) :
    Alike source client.project (other.perform store request).2 own where
  fair := StoreClient.fair_perform separates alike.fair comes
  ownFair := alike.ownFair
  same := (StoreClient.perform_other alike.fair comes different).trans alike.same

/-- Whether all files that may be written in a session come from a source. -/
def ComesFrom (session : Session α) (source : FileSource) (project : String) : Prop :=
  session.Asks (·.ComesFrom source project)

variable {session : Session α} {otherSession : Session β}

theorem Alike.alone (separates : source.SeparatesProjects)
    (alike : Alike source client.project store own)
    (comes : session.ComesFrom source client.project) :
    (session.alone client store).1 = (session.alone client own).1 ∧
      Alike source client.project (session.alone client store).2 (session.alone client own).2 := by
  induction session generalizing store own with
  | ended result => exact ⟨rfl, alike⟩
  | ask request resume induction =>
      rcases alike.performed separates comes.1 with ⟨answered, alike⟩
      have unfolded : (ask request resume).alone client store =
        (resume (client.perform store request).1).alone client
          (client.perform store request).2 := rfl
      rw [unfolded, answered]
      exact induction _ alike (comes.2 _)

theorem Alike.alone_other (separates : source.SeparatesProjects)
    (alike : Alike source client.project store own) (different : client.project ≠ other.project)
    (comes : otherSession.ComesFrom source other.project) :
    Alike source client.project (otherSession.alone other store).2 own := by
  induction otherSession generalizing store with
  | ended result => exact alike
  | ask request resume induction =>
      exact induction _ (alike.performed_other separates different comes.1) (comes.2 _)

/-- A step of a session comes to the same with stores that are the same to its project. -/
theorem Alike.step (separates : source.SeparatesProjects)
    (alike : Alike source client.project store own)
    (comes : session.ComesFrom source client.project) :
    (session.step client store).1 = (session.step client own).1 ∧
      (session.step client store).1.ComesFrom source client.project ∧
      Alike source client.project (session.step client store).2 (session.step client own).2 := by
  cases session with
  | ended result => exact ⟨rfl, comes, alike⟩
  | ask request resume =>
      rcases alike.performed separates comes.1 with ⟨answered, alike⟩
      exact ⟨congrArg resume answered, comes.2 _, alike⟩

theorem Alike.step_other (separates : source.SeparatesProjects)
    (alike : Alike source client.project store own) (different : client.project ≠ other.project)
    (comes : otherSession.ComesFrom source other.project) :
    Alike source client.project (otherSession.step other store).2 own := by
  cases otherSession with
  | ended result => exact alike
  | ask request resume => exact alike.performed_other separates different comes.1

/-- Whatever turns two sessions of different projects take, both come to what they come to with a
store of their own, and what is left of each project is the same. -/
theorem together_alike (separates : source.SeparatesProjects)
    (different : client.project ≠ other.project)
    (comes : session.ComesFrom source client.project)
    (otherComes : otherSession.ComesFrom source other.project) {otherOwn : Store}
    (alike : Alike source client.project store own)
    (otherAlike : Alike source other.project store otherOwn) (turns : List Turn) :
    let shared := together client other turns session otherSession store
    shared.1 = ((session.alone client own).1, (otherSession.alone other otherOwn).1) ∧
      shared.2.only client.project = (session.alone client own).2.only client.project ∧
      shared.2.only other.project = (otherSession.alone other otherOwn).2.only other.project := by
  induction turns generalizing session otherSession store own otherOwn with
  | nil =>
      rcases alike.alone separates comes with ⟨result, alike⟩
      have otherAlike := otherAlike.alone_other separates different.symm comes
      rcases otherAlike.alone separates otherComes with ⟨otherResult, otherAlike⟩
      have alike := alike.alone_other separates different otherComes
      exact ⟨Prod.ext result otherResult, alike.same, otherAlike.same⟩
  | cons turn turns induction =>
      cases turn with
      | first =>
          rcases alike.step separates comes with ⟨same, stepComes, stepAlike⟩
          have otherAlike := otherAlike.step_other separates different.symm comes
          have rest := induction stepComes otherComes stepAlike otherAlike
          have unfolded : together client other (.first :: turns) session otherSession store =
            together client other turns (session.step client store).1 otherSession
              (session.step client store).2 := rfl
          rw [same, alone_step] at rest
          rw [unfolded, same]
          exact rest
      | second =>
          rcases otherAlike.step separates otherComes with ⟨same, stepComes, stepAlike⟩
          have alike := alike.step_other separates different otherComes
          have rest := induction comes stepComes alike stepAlike
          have unfolded : together client other (.second :: turns) session otherSession store =
            together client other turns session (otherSession.step other store).1
              (otherSession.step other store).2 := rfl
          rw [same, alone_step] at rest
          rw [unfolded, same]
          exact rest

end Session

end SourceIndex
