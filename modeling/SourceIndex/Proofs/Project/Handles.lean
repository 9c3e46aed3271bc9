import SourceIndex.Project.Registry
import SourceIndex.Proofs.Lookup

/-! Which indexers a registry gives. Whatever is asked of it, and however the disk changes in
between, it gives for a project the indexer that it has given last, until that is torn down; the
next one is new. -/

namespace SourceIndex

/-- What may be asked of a registry, and that the disk becomes another one: a directory that appears
may change the key of a root. -/
inductive RegistryCall
  | getOrCreate (root : String)
  | get (root : String)
  | teardown (root : String)
  | teardownAll
  | change (disk : FileTree)

/-- What has come of a call. Keys are those at the time of the call. -/
inductive RegistryEvent
  | gave (key : String) (handle : ProjectHandle)
  | toreDown (key : String)
  | toreDownAll

namespace RegistryEvent

/-- The indexer that has been given last for a key, unless it has been torn down since. The last
event comes first. -/
def live? (key : String) : List RegistryEvent → Option ProjectHandle
  | [] => none
  | gave other handle :: earlier => if key = other then some handle else live? key earlier
  | toreDown other :: earlier => if key = other then none else live? key earlier
  | toreDownAll :: _ => none

theorem mem_of_live? {key : String} {handle : ProjectHandle} {events : List RegistryEvent}
    (live : live? key events = some handle) : gave key handle ∈ events := by
  induction events with
  | nil => cases live
  | cons event earlier induction =>
      cases event with
      | gave other given =>
          rw [live?] at live
          split at live
          · next same =>
              cases live
              rw [same]
              exact List.mem_cons_self
          · exact List.mem_cons_of_mem _ (induction live)
      | toreDown other =>
          rw [live?] at live
          split at live
          · cases live
          · exact List.mem_cons_of_mem _ (induction live)
      | toreDownAll => cases live

end RegistryEvent

/-- A registry in use, with the disk and with what has come of the calls so far, the last one
first. -/
structure RegistrySession where
  registry : Registry
  disk : FileTree
  events : List RegistryEvent := []

namespace RegistrySession

def take (session : RegistrySession) : RegistryCall → RegistrySession
  | .getOrCreate root =>
    match session.registry.getOrCreate session.disk root with
    | .ok (handle, next) => { session with
        registry := next
        events := .gave (projectKey session.disk root) handle :: session.events }
    | .error _ => session
  | .get _ => session
  | .teardown root => { session with
      registry := (session.registry.teardown session.disk root).2
      events := .toreDown (projectKey session.disk root) :: session.events }
  | .teardownAll => { session with
      registry := session.registry.teardownAll.2, events := .toreDownAll :: session.events }
  | .change disk => { session with disk }

def run (session : RegistrySession) (calls : List RegistryCall) : RegistrySession :=
  calls.foldl take session

/-- Whether a registry has in use what its history tells, and has numbered all that it has given. -/
structure Follows (config : Config) (session : RegistrySession) : Prop where
  live : ∀ key, session.registry.live.lookup key = RegistryEvent.live? key session.events
  distinct : (session.registry.live.map (·.1)).Nodup
  numbers : ∀ key handle, .gave key handle ∈ session.events →
    handle.number < session.registry.made
  config : session.registry.config = config

end RegistrySession

/-! ## Answers -/

namespace Registry

/-- A registry gives the indexer that is in use, fails where none can be made, or makes one. -/
theorem getOrCreate_cases (registry : Registry) (disk : FileTree) (root : String) :
    (∃ handle, registry.get? disk root = some handle ∧
      registry.getOrCreate disk root = .ok (handle, registry)) ∨
    (registry.get? disk root = none ∧ ∃ error,
      Indexer.make disk root registry.embedder registry.config = .error error ∧
      registry.getOrCreate disk root = .error error) ∨
    (registry.get? disk root = none ∧ ∃ indexer,
      Indexer.make disk root registry.embedder registry.config = .ok indexer ∧
      registry.getOrCreate disk root = .ok (⟨registry.made, indexer⟩, { registry with
        live := registry.live ++ [(projectKey disk root, ⟨registry.made, indexer⟩)]
        made := registry.made + 1 })) := by
  rw [getOrCreate.eq_def]
  cases registry.get? disk root with
  | some handle => exact .inl ⟨handle, rfl, rfl⟩
  | none =>
      cases Indexer.make disk root registry.embedder registry.config with
      | error error => exact .inr (.inl ⟨rfl, error, rfl, rfl⟩)
      | ok indexer => exact .inr (.inr ⟨rfl, indexer, rfl, rfl⟩)

/-- Tearing an indexer down leaves those of all other projects in use. -/
theorem lookup_teardown (registry : Registry) (disk : FileTree) (root key : String) :
    (registry.teardown disk root).2.live.lookup key =
      if key = projectKey disk root then none else registry.live.lookup key :=
  lookup_filter_ne registry.live (projectKey disk root) key

end Registry

/-! ## Calls -/

namespace RegistrySession

variable {session : RegistrySession} {config : Config}

theorem take_of_given {root : String} {handle : ProjectHandle} {next : Registry}
    (given : session.registry.getOrCreate session.disk root = .ok (handle, next)) :
    session.take (.getOrCreate root) = { session with
      registry := next
      events := .gave (projectKey session.disk root) handle :: session.events } := by
  rw [take, given]

theorem take_of_failed {root : String} {error : ScanError}
    (failed : session.registry.getOrCreate session.disk root = .error error) :
    session.take (.getOrCreate root) = session := by
  rw [take, failed]

theorem Follows.get?_eq (follows : session.Follows config) (root : String) :
    session.registry.get? session.disk root =
      RegistryEvent.live? (projectKey session.disk root) session.events :=
  follows.live _

theorem Follows.getOrCreate (follows : session.Follows config) (root : String) :
    (session.take (.getOrCreate root)).Follows config := by
  rcases session.registry.getOrCreate_cases session.disk root with
    ⟨handle, live, given⟩ | ⟨-, error, -, failed⟩ | ⟨none, indexer, -, given⟩
  · rw [take_of_given given]
    have before := live
    rw [follows.get?_eq] at before
    refine ⟨fun key => ?_, follows.distinct, fun key other member => ?_, follows.config⟩
    · rw [RegistryEvent.live?]
      split
      · next same => rw [same, ← live, Registry.get?]
      · exact follows.live key
    · rcases List.mem_cons.mp member with same | earlier
      · cases same
        exact follows.numbers _ handle (RegistryEvent.mem_of_live? before)
      · exact follows.numbers key other earlier
  · rwa [take_of_failed failed]
  · rw [take_of_given given]
    rw [Registry.get?] at none
    refine ⟨fun key => ?_, ?_, fun key other member => ?_, follows.config⟩
    · rw [RegistryEvent.live?, ← follows.live, List.lookup_append]
      split
      · next same => rw [same, none, List.lookup_cons_self, Option.none_or]
      · next different =>
          rw [List.lookup_cons, beq_false_of_ne different, List.lookup_nil, Option.or_none]
    · simp only [← List.concat_eq_append, List.map_concat]
      refine follows.distinct.concat fun known => ?_
      rcases List.mem_map.mp known with ⟨entry, member, same⟩
      have different := List.lookup_eq_none_iff.mp none entry member
      simp [same] at different
    · rcases List.mem_cons.mp member with same | earlier
      · cases same
        exact Nat.lt_succ_self _
      · exact Nat.lt_succ_of_lt (follows.numbers key other earlier)

theorem Follows.take (follows : session.Follows config) (call : RegistryCall) :
    (session.take call).Follows config := by
  cases call with
  | getOrCreate root => exact follows.getOrCreate root
  | get root => exact follows
  | teardown root =>
      refine ⟨fun key => ?_, ?_, fun key handle member => ?_, follows.config⟩
      · rw [RegistrySession.take, Registry.lookup_teardown, RegistryEvent.live?, follows.live]
      · exact follows.distinct.sublist (List.filter_sublist.map _)
      · exact follows.numbers key handle ((List.mem_cons.mp member).resolve_left nofun)
  | teardownAll =>
      exact ⟨fun _ => rfl, List.nodup_nil, fun key handle member =>
        follows.numbers key handle ((List.mem_cons.mp member).resolve_left nofun), follows.config⟩
  | change disk => exact ⟨follows.live, follows.distinct, follows.numbers, follows.config⟩

theorem follows_run (calls : List RegistryCall) (follows : session.Follows config) :
    (session.run calls).Follows config := by
  induction calls generalizing session with
  | nil => exact follows
  | cons call calls induction => exact induction (follows.take call)

/-! ## Answers behind calls -/

section Answers

variable (follows : session.Follows config) {root : String}
include follows

theorem Follows.getOrCreate_of_live {handle : ProjectHandle}
    (live : RegistryEvent.live? (projectKey session.disk root) session.events = some handle) :
    session.registry.getOrCreate session.disk root = .ok (handle, session.registry) := by
  rw [← follows.get?_eq] at live
  rcases session.registry.getOrCreate_cases session.disk root with
    ⟨other, found, given⟩ | ⟨none, -⟩ | ⟨none, -⟩
  · rw [given, Option.some.inj (live.symm.trans found)]
  · exact nomatch live.symm.trans none
  · exact nomatch live.symm.trans none

theorem Follows.getOrCreate_of_none
    (none : RegistryEvent.live? (projectKey session.disk root) session.events = none) :
    match ExclusionRules.ofPatterns config.excludePatterns with
    | .error error =>
      session.registry.getOrCreate session.disk root = .error (.pattern error) ∧
        session.take (.getOrCreate root) = session
    | .ok _ => ∃ handle next,
      session.registry.getOrCreate session.disk root = .ok (handle, next) ∧
        handle.indexer.project = projectKey session.disk root ∧
        ∀ key given, .gave key given ∈ session.events → given.number ≠ handle.number := by
  rw [← follows.get?_eq] at none
  cases isRead : ExclusionRules.ofPatterns config.excludePatterns with
  | error error =>
      rcases session.registry.getOrCreate_cases session.disk root with
        ⟨other, found, -⟩ | ⟨-, fault, failed, answer⟩ | ⟨-, indexer, made, -⟩
      · exact nomatch none.symm.trans found
      · rw [follows.config, Indexer.make, isRead] at failed
        cases failed
        exact ⟨answer, take_of_failed answer⟩
      · rw [follows.config, Indexer.make, isRead] at made
        cases made
  | ok rules =>
      rcases session.registry.getOrCreate_cases session.disk root with
        ⟨other, found, -⟩ | ⟨-, fault, failed, -⟩ | ⟨-, indexer, made, answer⟩
      · exact nomatch none.symm.trans found
      · rw [follows.config, Indexer.make, isRead] at failed
        cases failed
      · rw [follows.config, Indexer.make, isRead] at made
        cases made
        exact ⟨_, _, answer, rfl, fun key given member =>
          Nat.ne_of_lt (follows.numbers key given member)⟩

theorem Follows.teardown_eq (root : String) :
    (session.registry.teardown session.disk root).1 =
        (RegistryEvent.live? (projectKey session.disk root) session.events).isSome ∧
      ∀ other, (session.registry.teardown session.disk root).2.get? session.disk other =
        if projectKey session.disk other = projectKey session.disk root then none
        else RegistryEvent.live? (projectKey session.disk other) session.events := by
  refine ⟨congrArg Option.isSome (follows.get?_eq root), fun other => ?_⟩
  rw [Registry.get?, Registry.lookup_teardown, follows.live]

/-- A registry counts the keys that are live. -/
theorem Follows.size_eq : ∃ keys : List String, keys.Nodup ∧
    (∀ key, key ∈ keys ↔ (RegistryEvent.live? key session.events).isSome = true) ∧
      session.registry.size = keys.length := by
  refine ⟨session.registry.live.map (·.1), follows.distinct, fun key => ?_,
    (List.length_map _).symm⟩
  rw [← follows.live, List.lookup_isSome_iff]
  simp

end Answers

end RegistrySession

/-- What a registry answers that nothing was in use in at first, whatever has been called. An indexer
that is live, which is the one that has been given last for its key if neither it nor all have been
torn down since, is given again, and nothing changes. If none is, one is made with a number that none
has had before, or the registry stays as it is since a pattern of the configuration cannot be read.
Tearing down tells whether an indexer was live, and the others stay live. -/
theorem registry_follows_history (embedder : Embedder) (config : Config) (disk : FileTree)
    (calls : List RegistryCall) :
    let session := RegistrySession.run ⟨{ embedder, config }, disk, []⟩ calls
    let keyOf := projectKey session.disk
    let live? key := RegistryEvent.live? key session.events
    (∀ root, session.registry.get? session.disk root = live? (keyOf root)) ∧
    (∀ root handle, live? (keyOf root) = some handle →
      session.registry.getOrCreate session.disk root = .ok (handle, session.registry)) ∧
    (∀ root, live? (keyOf root) = none →
      match ExclusionRules.ofPatterns config.excludePatterns with
      | .error error =>
        session.registry.getOrCreate session.disk root = .error (.pattern error) ∧
          session.take (.getOrCreate root) = session
      | .ok _ => ∃ handle next,
        session.registry.getOrCreate session.disk root = .ok (handle, next) ∧
          handle.indexer.project = keyOf root ∧
          ∀ key given, .gave key given ∈ session.events → given.number ≠ handle.number) ∧
    (∀ root,
      (session.registry.teardown session.disk root).1 = (live? (keyOf root)).isSome ∧
      ∀ other, (session.registry.teardown session.disk root).2.get? session.disk other =
        if keyOf other = keyOf root then none else live? (keyOf other)) ∧
    ∃ keys : List String, keys.Nodup ∧ (∀ key, key ∈ keys ↔ (live? key).isSome = true) ∧
      session.registry.size = keys.length := by
  have start : RegistrySession.Follows config ⟨{ embedder, config }, disk, []⟩ :=
    ⟨fun _ => rfl, List.nodup_nil, nofun, rfl⟩
  have follows := RegistrySession.follows_run calls start
  exact ⟨follows.get?_eq, fun _ _ => follows.getOrCreate_of_live,
    fun _ => follows.getOrCreate_of_none, follows.teardown_eq, follows.size_eq⟩

/-- An indexer is given again for another spelling of its root, once the root is there. -/
theorem registry_follows_history_of_directory :
    let disk : FileTree := .directory [("a", .directory [])]
    let registry : Registry :=
      { embedder := .digesting 8, config := { excludePatterns := [] } }
    let session := RegistrySession.run ⟨registry, .empty, []⟩ [.change disk, .getOrCreate "/a"]
    ∃ handle, session.events = [.gave (projectKey disk "/a") handle] ∧
      session.registry.getOrCreate session.disk "/a/." = .ok (handle, session.registry) := by
  intro disk registry session
  have follows := registry_follows_history (.digesting 8) { excludePatterns := [] } .empty
    [.change disk, .getOrCreate "/a"]
  have sameKey : projectKey disk "/a/." = projectKey disk "/a" :=
    congrArg projectKeyOf (by decide +kernel)
  exact ⟨_, rfl, follows.2.1 "/a/." _ (if_pos sameKey)⟩

end SourceIndex
