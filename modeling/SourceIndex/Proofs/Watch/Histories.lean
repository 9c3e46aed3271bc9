import Mathlib.Data.Char
import Mathlib.Data.List.Lex
import Mathlib.Data.List.Nodup
import Mathlib.Data.Prod.Lex
import Mathlib.Order.Bounds.Basic
import SourceIndex.Watch.ChangeQueue

/-! What becomes of the changes that a queue is given. Of each path it is told which of its changes
are taken and which are given back, whatever else is asked of the queue in between. -/

namespace SourceIndex

/-! ## The order of paths -/

namespace PathComponent

/-- What components are ordered by. -/
def key : PathComponent → ℕ ×ₗ List Char
  | name text => toLex (3, text)
  | component => toLex (component.rank, [])

theorem key_injective : Function.Injective key := by
  intro left right same
  cases left <;> cases right <;> simp_all [key, rank]

theorem isLess_iff (left right : PathComponent) :
    left.isLess right = true ↔ left.key < right.key := by
  cases left <;> cases right <;> simp [isLess, key, rank, Prod.Lex.toLex_lt_toLex]

end PathComponent

namespace ChangeQueue

/-- What changes are ordered by. -/
def orderKey (change : FileChange) : List (ℕ ×ₗ List Char) :=
  (Path.components change.path).map PathComponent.key

theorem pathLess_iff (left right : List PathComponent) : pathLess left right = true ↔
    left.map PathComponent.key < right.map PathComponent.key := by
  induction left generalizing right with
  | nil => cases right <;> simp [pathLess]
  | cons component left induction =>
      cases right with
      | nil => simp [pathLess]
      | cons other right =>
          rw [pathLess, Bool.or_eq_true, Bool.and_eq_true, induction, PathComponent.isLess_iff,
            beq_iff_eq, List.map_cons, List.map_cons, List.cons_lt_cons_iff,
            PathComponent.key_injective.eq_iff]

/-- Whether changes come in the order of their paths, none of which comes twice. -/
def IsInOrder (changes : List FileChange) : Prop :=
  changes.Pairwise fun change later =>
    pathLess (Path.components change.path) (Path.components later.path) = true

/-- Whether no path waits twice. -/
def IsDistinct (pending : List PendingChange) : Prop :=
  (pending.map fun waiting => Path.components waiting.change.path).Nodup

theorem isInOrder_drain {queue : ChangeQueue} (distinct : IsDistinct queue.pending) (now : Nat) :
    IsInOrder (queue.drain now).1 := by
  let ready := (queue.pending.filter (queue.isReady now ·)).map (·.change)
  have compares : ∀ change later : FileChange,
      (!pathLess (Path.components later.path) (Path.components change.path)) = true ↔
        orderKey change ≤ orderKey later := by
    intro change later
    rw [Bool.not_eq_true', ← Bool.not_eq_true, pathLess_iff, not_lt]
    rfl
  have once : ((queue.drain now).1.map orderKey).Nodup := by
    have kept : (ready.map fun change => Path.components change.path).Nodup := by
      rw [List.map_map]
      exact distinct.sublist (List.filter_sublist.map _)
    have keys : (ready.map orderKey).Nodup := by
      have mapped := List.Nodup.map (List.map_injective_iff.mpr PathComponent.key_injective) kept
      rwa [List.map_map] at mapped
    exact (((List.mergeSort_perm ready _).map orderKey).nodup_iff).mpr keys
  have sorted : (queue.drain now).1.Pairwise fun change later =>
      orderKey change ≤ orderKey later := by
    refine List.Pairwise.imp (fun {_ _} => (compares _ _).mp) (List.pairwise_mergeSort ?_ ?_ ready)
    · intro change middle later first second
      exact (compares _ _).mpr (((compares _ _).mp first).trans ((compares _ _).mp second))
    · intro change later
      rw [Bool.or_eq_true, compares, compares]
      exact le_total _ _
  rw [List.Nodup, List.pairwise_map] at once
  refine (sorted.and once).imp ?_
  rintro change later ⟨before, other⟩
  exact (pathLess_iff _ _).mpr (lt_of_le_of_ne before other)

/-! ## Changes that wait -/

/-- What waits at a path, and since when. -/
def waiting? (queue : ChangeQueue) (path : List Char) : Option (ChangeKind × Nat) :=
  (queue.pending.find? (samePath ·.change.path path)).map fun waiting =>
    (waiting.change.kind, waiting.seen)

variable {queue : ChangeQueue} {pending : List PendingChange}

theorem samePath_iff {left right : List Char} :
    samePath left right = true ↔ Path.components left = Path.components right := beq_iff_eq

/-- What waits at a path is one change at most. -/
theorem filter_samePath (distinct : IsDistinct pending) (path : List Char) :
    pending.filter (samePath ·.change.path path) =
      (pending.find? (samePath ·.change.path path)).toList := by
  induction pending with
  | nil => rfl
  | cons waiting pending induction =>
      rcases List.nodup_cons.mp distinct with ⟨other, distinct⟩
      rw [List.filter_cons, List.find?_cons]
      cases same : samePath waiting.change.path path with
      | false => exact induction distinct
      | true =>
          have nothing : pending.filter (samePath ·.change.path path) = [] := by
            rw [List.filter_eq_nil_iff]
            intro later member found
            rw [samePath_iff] at same found
            exact other (List.mem_map.mpr ⟨later, member, found.trans same.symm⟩)
          rw [nothing]
          rfl

theorem waiting?_of_mem (distinct : IsDistinct queue.pending) {waiting : PendingChange}
    (member : waiting ∈ queue.pending) :
    queue.waiting? waiting.change.path = some (waiting.change.kind, waiting.seen) := by
  have found : waiting ∈ queue.pending.filter (samePath ·.change.path waiting.change.path) :=
    List.mem_filter.mpr ⟨member, samePath_iff.mpr rfl⟩
  rw [filter_samePath distinct, Option.mem_toList] at found
  rw [waiting?, found]
  rfl

theorem exists_of_waiting? {path : List Char} {kind : ChangeKind} {seen : Nat}
    (waits : queue.waiting? path = some (kind, seen)) :
    ∃ waiting ∈ queue.pending, waiting.seen = seen := by
  rcases Option.map_eq_some_iff.mp waits with ⟨waiting, found, same⟩
  cases same
  exact ⟨waiting, List.mem_of_find?_eq_some found, rfl⟩

theorem waiting?_eq_none_iff {path : List Char} : queue.waiting? path = none ↔
    queue.pending.any (samePath ·.change.path path) = false := by
  rw [waiting?, Option.map_eq_none_iff, List.find?_eq_none, List.any_eq_false]

/-! ## Pushing -/

theorem find?_setPending (change : FileChange) (now : Nat) (path : List Char) :
    ((setPending change now pending).find? (samePath ·.change.path path)).map
        (fun waiting => (waiting.change.kind, waiting.seen)) =
      if samePath change.path path then some (change.kind, now)
      else (pending.find? (samePath ·.change.path path)).map
        fun waiting => (waiting.change.kind, waiting.seen) := by
  induction pending with
  | nil =>
      rw [setPending, List.find?_singleton]
      split <;> rfl
  | cons waiting pending induction =>
      rw [setPending]
      split
      · next same =>
          have both : samePath waiting.change.path path = samePath change.path path := by
            rw [Bool.eq_iff_iff, samePath_iff, samePath_iff, samePath_iff.mp same]
          rw [List.find?_cons, List.find?_cons, both]
          cases samePath change.path path <;> rfl
      · next other =>
          rw [List.find?_cons, List.find?_cons]
          cases same : samePath waiting.change.path path with
          | false => exact induction
          | true =>
              have apart : ¬ samePath change.path path = true := by
                intro found
                rw [samePath_iff] at same found other
                exact other (same.trans found.symm)
              rw [if_neg apart]

theorem map_components_setPending (change : FileChange) (now : Nat) :
    (setPending change now pending).map (fun waiting => Path.components waiting.change.path) =
      pending.map (fun waiting => Path.components waiting.change.path) ++
        if pending.any (samePath ·.change.path change.path) then []
        else [Path.components change.path] := by
  induction pending with
  | nil => rfl
  | cons waiting pending induction =>
      rw [setPending, List.any_cons]
      split
      · next same =>
          rw [same, Bool.true_or, if_pos rfl, List.append_nil]
          rfl
      · next other =>
          rw [Bool.eq_false_of_not_eq_true other, Bool.false_or, List.map_cons, induction]
          rfl

theorem seen_setPending {change : FileChange} {now : Nat} {waiting : PendingChange}
    (member : waiting ∈ setPending change now pending) :
    waiting ∈ pending ∨ waiting.seen = now := by
  induction pending with
  | nil =>
      rw [setPending, List.mem_singleton] at member
      exact .inr (congrArg _ member)
  | cons first pending induction =>
      rw [setPending] at member
      split at member <;> rcases List.mem_cons.mp member with rfl | member
      · exact .inr rfl
      · exact .inl (List.mem_cons_of_mem _ member)
      · exact .inl List.mem_cons_self
      · exact (induction member).imp_left (List.mem_cons_of_mem _)

/-- A change is refused when nothing waits at its path and there is no room. -/
theorem push_eq_false_iff (change : FileChange) (now : Nat) : (queue.push change now).1 = false ↔
    queue.waiting? change.path = none ∧ queue.capacity ≤ queue.size := by
  rw [waiting?_eq_none_iff]
  unfold push
  simp only
  split
  · next full =>
      rw [Bool.and_eq_true, Bool.not_eq_true', decide_eq_true_iff] at full
      exact iff_of_true rfl full
  · next room =>
      rw [Bool.and_eq_true, Bool.not_eq_true', decide_eq_true_iff] at room
      exact iff_of_false nofun room

/-- What a queue is when it has been given a change. -/
theorem push_snd (change : FileChange) (now : Nat) : (queue.push change now).2 =
    if (queue.push change now).1 then
      { queue with pending := setPending change now queue.pending }
    else { queue with overflowed := true } := by
  unfold push
  simp only
  split <;> rfl

/-! ## Draining -/

/-- What waits at a path and has not been quiet for long enough goes on waiting. -/
theorem find?_drain (distinct : IsDistinct queue.pending) (now : Nat) (path : List Char) :
    (queue.drain now).2.pending.find? (samePath ·.change.path path) =
      (queue.pending.find? (samePath ·.change.path path)).filter (! queue.isReady now ·) := by
  have kept : (queue.drain now).2.pending.filter (samePath ·.change.path path) =
      (queue.pending.find? (samePath ·.change.path path)).toList.filter
        (! queue.isReady now ·) := by
    rw [← filter_samePath distinct, List.filter_comm]
    rfl
  rw [← List.head?_filter, kept]
  cases queue.pending.find? (samePath ·.change.path path) with
  | none => rfl
  | some waiting =>
      rw [Option.toList_some, List.filter_singleton, Option.filter_some]
      cases queue.isReady now waiting <;> rfl

/-- What waits at a path and has been quiet for long enough is given back, once. -/
theorem filter_drain (distinct : IsDistinct queue.pending) (now : Nat) (path : List Char) :
    (queue.drain now).1.filter (samePath ·.path path) =
      (((queue.pending.find? (samePath ·.change.path path)).filter
        (queue.isReady now ·)).map (·.change)).toList := by
  let ready := (queue.pending.filter (queue.isReady now ·)).map (·.change)
  have found : ready.filter (samePath ·.path path) =
      (((queue.pending.find? (samePath ·.change.path path)).filter
        (queue.isReady now ·)).map (·.change)).toList := by
    have commuted : (queue.pending.filter (queue.isReady now ·)).filter
        (samePath ·.change.path path) =
          ((queue.pending.find? (samePath ·.change.path path)).toList).filter
            (queue.isReady now ·) := by
      rw [← filter_samePath distinct, List.filter_comm]
    unfold ready
    rw [List.filter_map]
    refine (congrArg _ commuted).trans ?_
    cases queue.pending.find? (samePath ·.change.path path) with
    | none => rfl
    | some waiting =>
        rw [Option.toList_some, List.filter_singleton, Option.filter_some]
        cases queue.isReady now waiting <;> rfl
  have same : ((queue.drain now).1.filter (samePath ·.path path)).Perm
      (ready.filter (samePath ·.path path)) := (List.mergeSort_perm ready _).filter _
  rw [found] at same
  cases taken : ((queue.pending.find? (samePath ·.change.path path)).filter
      (queue.isReady now ·)).map (·.change) with
  | none =>
      rw [taken] at same
      exact List.perm_nil.mp same
  | some change =>
      rw [taken] at same
      exact List.perm_singleton.mp same

end ChangeQueue

/-! ## Calls -/

/-- What is asked of a queue. -/
inductive QueueCall
  | push (change : FileChange) (now : Nat)
  | drain (now : Nat)
  | takeOverflow
  | nextDeadline

/-- When something is asked that depends on the time. -/
def QueueCall.time? : QueueCall → Option Nat
  | push _ now | drain now => some now
  | takeOverflow | nextDeadline => none

/-- What has been asked of a queue and what it has answered. -/
inductive QueueEvent
  | pushed (change : FileChange) (now : Nat) (isTaken : Bool)
  | drained (now : Nat) (changes : List FileChange)
  | overflowTold (dropped : Bool)
  | deadlineTold (deadline? : Option Nat)

namespace ChangeQueue

def perform (queue : ChangeQueue) : QueueCall → QueueEvent × ChangeQueue
  | .push change now =>
    let (isTaken, left) := queue.push change now
    (.pushed change now isTaken, left)
  | .drain now =>
    let (changes, left) := queue.drain now
    (.drained now changes, left)
  | .takeOverflow =>
    let (dropped, left) := queue.takeOverflow
    (.overflowTold dropped, left)
  | .nextDeadline => (.deadlineTold queue.nextDeadline, queue)

/-- What becomes of a queue when it is asked one thing after the other. -/
def after (queue : ChangeQueue) (calls : List QueueCall) : ChangeQueue :=
  calls.foldl (fun queue call => (queue.perform call).2) queue

/-- All that is asked and answered then. -/
def history (queue : ChangeQueue) : List QueueCall → List QueueEvent
  | [] => []
  | call :: calls => (queue.perform call).1 :: (queue.perform call).2.history calls

end ChangeQueue

/-! ## The story of a path -/

/-- An item of a list is the last one or one of those before. -/
theorem cases_of_concat_eq {α : Type} {items before after : List α} {last item : α}
    (splits : items ++ [last] = before ++ item :: after) :
    (after = [] ∧ items = before ∧ last = item) ∨
      ∃ rest, after = rest ++ [last] ∧ items = before ++ item :: rest := by
  rcases List.eq_nil_or_concat' after with rfl | ⟨rest, final, rfl⟩
  · rcases List.append_inj' splits rfl with ⟨same, sameLast⟩
    exact .inl ⟨rfl, same, List.head_eq_of_cons_eq sameLast⟩
  · have regrouped : items ++ [last] = (before ++ item :: rest) ++ [final] := by
      rw [splits, List.append_assoc, List.cons_append]
    rcases List.append_inj' regrouped rfl with ⟨same, sameLast⟩
    exact .inr ⟨rest, congrArg (rest ++ ·) sameLast.symm, same⟩

/-- What happens to the changes of a path. -/
inductive PathEvent
  | taken (kind : ChangeKind) (now : Nat)
  | returned (kind : ChangeKind) (now : Nat)

namespace PathEvent

def isTaken : PathEvent → Bool
  | taken _ _ => true
  | returned _ _ => false

/-- The change that has been taken last, unless it has been given back. -/
def waiting? (story : List PathEvent) : Option (ChangeKind × Nat) :=
  match story.getLast? with
  | some (taken kind seen) => some (kind, seen)
  | _ => none

/-- Whether what is given back is always the change that has been taken just before, which has
been quiet for long enough. -/
def GivesBack (debounce : Nat) (story : List PathEvent) : Prop :=
  ∀ before kind now after, story = before ++ returned kind now :: after →
    ∃ earlier seen, before = earlier ++ [taken kind seen] ∧ seen + debounce ≤ now

variable {debounce : Nat} {story : List PathEvent}

theorem givesBack_taken (givesBack : GivesBack debounce story) (kind : ChangeKind) (now : Nat) :
    GivesBack debounce (story ++ [taken kind now]) := by
  intro before other later after splits
  rcases cases_of_concat_eq splits with ⟨-, -, same⟩ | ⟨rest, -, earlier⟩
  · cases same
  · exact givesBack before other later rest earlier

theorem givesBack_returned (givesBack : GivesBack debounce story) {kind : ChangeKind}
    {seen now : Nat} (waits : waiting? story = some (kind, seen)) (quiet : seen + debounce ≤ now) :
    GivesBack debounce (story ++ [returned kind now]) := by
  intro before other later after splits
  rcases cases_of_concat_eq splits with ⟨-, rfl, same⟩ | ⟨rest, -, earlier⟩
  · cases same
    rcases List.eq_nil_or_concat' story with rfl | ⟨front, last, rfl⟩
    · cases waits
    · rw [waiting?, List.getLast?_concat] at waits
      cases last with
      | returned _ _ => cases waits
      | taken _ _ =>
          cases waits
          exact ⟨front, seen, rfl, quiet⟩
  · exact givesBack before other later rest earlier

/-- A change that has been taken waits to the end, or the changes taken from then on are given back
as the last of them. -/
theorem stays_or_returned (givesBack : GivesBack debounce story) {before after : List PathEvent}
    {kind : ChangeKind} {seen : Nat} (splits : story = before ++ taken kind seen :: after) :
    ((waiting? story).isSome ∧ after.all isTaken) ∨
      ∃ more last lastSeen now rest,
        taken kind seen :: after = more ++ taken last lastSeen :: returned last now :: rest ∧
        more.all isTaken ∧ lastSeen + debounce ≤ now := by
  induction after generalizing before kind seen with
  | nil =>
      refine .inl ⟨?_, rfl⟩
      rw [splits, waiting?, List.getLast?_concat]
      rfl
  | cons event after induction =>
      cases event with
      | taken next nextSeen =>
          have moved : story = (before ++ [taken kind seen]) ++ taken next nextSeen :: after := by
            rw [splits, List.append_assoc]
            rfl
          rcases induction moved with ⟨waits, all⟩ |
            ⟨more, last, lastSeen, now, rest, found, all, quiet⟩
          · exact .inl ⟨waits, all⟩
          · exact .inr ⟨taken kind seen :: more, last, lastSeen, now, rest,
              congrArg (List.cons _) found, all, quiet⟩
      | returned last now =>
          have moved : story = (before ++ [taken kind seen]) ++ returned last now :: after := by
            rw [splits, List.append_assoc]
            rfl
          rcases givesBack _ last now after moved with ⟨earlier, lastSeen, found, quiet⟩
          rcases List.append_inj' found rfl with ⟨-, same⟩
          cases same
          exact .inr ⟨[], kind, seen, now, after, rfl, rfl, quiet⟩

end PathEvent

namespace QueueEvent

/-- What an event is to the changes of a path. -/
def eventsAt (path : List Char) : QueueEvent → List PathEvent
  | pushed change now true =>
    if ChangeQueue.samePath change.path path then [.taken change.kind now] else []
  | drained now changes =>
    (changes.filter (ChangeQueue.samePath ·.path path)).map (.returned ·.kind now)
  | pushed _ _ false | overflowTold _ | deadlineTold _ => []

/-- What happens to the changes of a path in the course of a history. -/
def story (path : List Char) (history : List QueueEvent) : List PathEvent :=
  history.flatMap (eventsAt path)

theorem story_concat (path : List Char) (history : List QueueEvent) (event : QueueEvent) :
    story path (history ++ [event]) = story path history ++ event.eventsAt path := by
  rw [story, List.flatMap_append, List.flatMap_singleton]
  rfl

/-- Whether a change has been dropped since that was told last. -/
def HasDropped (history : List QueueEvent) : Prop :=
  ∃ before change now after, history = before ++ pushed change now false :: after ∧
    ∀ dropped, overflowTold dropped ∉ after

variable {history : List QueueEvent}

theorem hasDropped_refused (history : List QueueEvent) (change : FileChange) (now : Nat) :
    HasDropped (history ++ [pushed change now false]) :=
  ⟨history, change, now, [], rfl, fun _ => List.not_mem_nil⟩

theorem not_hasDropped_told (history : List QueueEvent) (dropped : Bool) :
    ¬ HasDropped (history ++ [overflowTold dropped]) := by
  rintro ⟨before, change, now, after, splits, untold⟩
  rcases cases_of_concat_eq splits with ⟨-, -, same⟩ | ⟨rest, rfl, -⟩
  · cases same
  · exact untold dropped (List.mem_append_right _ List.mem_cons_self)

/-- Nothing else has to do with changes that are dropped. -/
theorem hasDropped_concat_iff {event : QueueEvent}
    (isTaken : ∀ change now, event ≠ pushed change now false)
    (untold : ∀ dropped, event ≠ overflowTold dropped) :
    HasDropped (history ++ [event]) ↔ HasDropped history := by
  constructor
  · rintro ⟨before, change, now, after, splits, quiet⟩
    rcases cases_of_concat_eq splits with ⟨-, -, same⟩ | ⟨rest, rfl, earlier⟩
    · exact absurd same (isTaken change now)
    · exact ⟨before, change, now, rest, earlier,
        fun dropped member => quiet dropped (List.mem_append_left _ member)⟩
  · rintro ⟨before, change, now, after, rfl, quiet⟩
    refine ⟨before, change, now, after ++ [event], List.append_assoc .., ?_⟩
    intro dropped member
    rcases List.mem_append.mp member with member | last
    · exact quiet dropped member
    · exact untold dropped (List.mem_singleton.mp last).symm

end QueueEvent

namespace ChangeQueue

open QueueEvent PathEvent

/-! ## What a history leads to -/

/-- Whether a queue is what a history has led to. Nothing in it is from after the latest time. -/
structure Follows (debounce capacity latest : Nat) (history : List QueueEvent)
    (queue : ChangeQueue) : Prop where
  sameDebounce : queue.debounce = debounce
  sameCapacity : queue.capacity = capacity
  distinct : IsDistinct queue.pending
  bounded : queue.size ≤ capacity
  past : ∀ waiting ∈ queue.pending, waiting.seen ≤ latest
  waits : ∀ path, queue.waiting? path = PathEvent.waiting? (story path history)
  givesBack : ∀ path, GivesBack debounce (story path history)
  inOrder : ∀ now changes, drained now changes ∈ history → IsInOrder changes
  overflowed : queue.overflowed = true ↔ HasDropped history

variable {debounce capacity latest : Nat} {history : List QueueEvent} {queue : ChangeQueue}

/-- What is told of the drains of a history stays so with an event that is no drain. -/
theorem inOrder_concat {event : QueueEvent} (other : ∀ now changes, drained now changes ≠ event)
    (inOrder : ∀ now changes, drained now changes ∈ history → IsInOrder changes) :
    ∀ now changes, drained now changes ∈ history ++ [event] → IsInOrder changes := by
  intro now changes member
  rcases List.mem_append.mp member with member | last
  · exact inOrder now changes member
  · exact absurd (List.mem_singleton.mp last) (other now changes)

/-- An event that has nothing to do with a path leaves its story as it is. -/
theorem Follows.silent (follows : Follows debounce capacity latest history queue)
    {event : QueueEvent} (silent : ∀ path, event.eventsAt path = [])
    (other : ∀ now changes, drained now changes ≠ event) {overflowed : Bool}
    (dropped : overflowed = true ↔ HasDropped (history ++ [event])) :
    Follows debounce capacity latest (history ++ [event]) { queue with overflowed } where
  sameDebounce := follows.sameDebounce
  sameCapacity := follows.sameCapacity
  distinct := follows.distinct
  bounded := follows.bounded
  past := follows.past
  waits path := by
    rw [story_concat, silent, List.append_nil]
    exact follows.waits path
  givesBack path := by
    rw [story_concat, silent, List.append_nil]
    exact follows.givesBack path
  inOrder := inOrder_concat other follows.inOrder
  overflowed := dropped

theorem Follows.pushed (follows : Follows debounce capacity latest history queue)
    (change : FileChange) {now : Nat} (later : latest ≤ now) :
    Follows debounce capacity now (history ++ [(queue.perform (.push change now)).1])
      (queue.perform (.push change now)).2 := by
  have past : ∀ waiting ∈ queue.pending, waiting.seen ≤ now :=
    fun waiting member => (follows.past waiting member).trans later
  have event : (queue.perform (.push change now)).1 =
      .pushed change now (queue.push change now).1 := rfl
  have left : (queue.perform (.push change now)).2 = (queue.push change now).2 := rfl
  rw [event, left, push_snd]
  cases taken : (queue.push change now).1 with
  | false =>
      refine Follows.silent { follows with past } (fun _ => rfl) (by nofun) ?_
      exact iff_of_true rfl (hasDropped_refused history change now)
  | true =>
      have places := @map_components_setPending queue.pending change now
      have isNew : queue.pending.any (samePath ·.change.path change.path) = false →
          queue.size < capacity ∧ Path.components change.path ∉
            queue.pending.map fun waiting => Path.components waiting.change.path := by
        intro new
        constructor
        · by_contra full
          rw [← waiting?_eq_none_iff] at new
          rw [← follows.sameCapacity, not_lt] at full
          have refused := (@push_eq_false_iff queue change now).mpr ⟨new, full⟩
          rw [taken] at refused
          cases refused
        · intro member
          rcases List.mem_map.mp member with ⟨waiting, isWaiting, same⟩
          exact List.any_eq_false.mp new waiting isWaiting (samePath_iff.mpr same)
      constructor
      · exact follows.sameDebounce
      · exact follows.sameCapacity
      · show IsDistinct (setPending change now queue.pending)
        rw [IsDistinct, places]
        cases new : queue.pending.any (samePath ·.change.path change.path) with
        | true => exact (List.append_nil _).symm ▸ follows.distinct
        | false =>
            have distinct := List.Nodup.concat (isNew new).2 follows.distinct
            rwa [List.concat_eq_append] at distinct
      · have lengths := congrArg List.length places
        rw [List.length_map, List.length_append, List.length_map] at lengths
        show (setPending change now queue.pending).length ≤ capacity
        rw [lengths]
        cases new : queue.pending.any (samePath ·.change.path change.path) with
        | true => exact follows.bounded
        | false => exact (isNew new).1
      · intro waiting member
        rcases seen_setPending member with member | same
        · exact past waiting member
        · exact same.le
      · intro path
        refine (find?_setPending change now path).trans ?_
        rw [story_concat, eventsAt]
        split
        · rw [PathEvent.waiting?, List.getLast?_concat]
        · rw [List.append_nil]
          exact follows.waits path
      · intro path
        rw [story_concat, eventsAt]
        split
        · exact givesBack_taken (follows.givesBack path) change.kind now
        · rw [List.append_nil]
          exact follows.givesBack path
      · exact inOrder_concat (by nofun) follows.inOrder
      · rw [hasDropped_concat_iff (by nofun) (by nofun)]
        exact follows.overflowed

theorem Follows.drained (follows : Follows debounce capacity latest history queue) {now : Nat}
    (later : latest ≤ now) :
    Follows debounce capacity now (history ++ [(queue.perform (.drain now)).1])
      (queue.perform (.drain now)).2 := by
  have event : (queue.perform (.drain now)).1 = .drained now (queue.drain now).1 := rfl
  have left : (queue.perform (.drain now)).2 = (queue.drain now).2 := rfl
  have kept : (queue.drain now).2.pending.Sublist queue.pending := List.filter_sublist
  rw [event, left]
  constructor
  · exact follows.sameDebounce
  · exact follows.sameCapacity
  · exact follows.distinct.sublist (kept.map _)
  · exact kept.length_le.trans follows.bounded
  · intro waiting member
    exact (follows.past waiting (kept.subset member)).trans later
  · intro path
    have before := follows.waits path
    rw [ChangeQueue.waiting?, find?_drain follows.distinct, story_concat, eventsAt,
      filter_drain follows.distinct]
    rw [ChangeQueue.waiting?] at before
    cases found : queue.pending.find? (samePath ·.change.path path) with
    | none =>
        rw [found] at before
        exact before.trans (congrArg _ (List.append_nil _).symm)
    | some waiting =>
        rw [found] at before
        rw [Option.filter_some, Option.filter_some]
        cases queue.isReady now waiting with
        | false => exact before.trans (congrArg _ (List.append_nil _).symm)
        | true =>
            show none = PathEvent.waiting? (_ ++ [_])
            rw [PathEvent.waiting?, List.getLast?_concat]
  · intro path
    have before := follows.waits path
    rw [story_concat, eventsAt, filter_drain follows.distinct]
    rw [ChangeQueue.waiting?] at before
    cases found : queue.pending.find? (samePath ·.change.path path) with
    | none => exact (List.append_nil _).symm ▸ follows.givesBack path
    | some waiting =>
        rw [found] at before
        rw [Option.filter_some]
        cases ready : queue.isReady now waiting with
        | false => exact (List.append_nil _).symm ▸ follows.givesBack path
        | true =>
            refine givesBack_returned (follows.givesBack path) before.symm ?_
            have seen := (follows.past waiting (List.mem_of_find?_eq_some found)).trans later
            rw [isReady, decide_eq_true_iff, follows.sameDebounce] at ready
            omega
  · intro time changes member
    rcases List.mem_append.mp member with member | last
    · exact follows.inOrder time changes member
    · cases List.mem_singleton.mp last
      exact isInOrder_drain follows.distinct now
  · rw [hasDropped_concat_iff (by nofun) (by nofun)]
    exact follows.overflowed

theorem Follows.performed (follows : Follows debounce capacity latest history queue)
    {call : QueueCall} (later : ∀ now, call.time? = some now → latest ≤ now) :
    Follows debounce capacity (call.time?.getD latest) (history ++ [(queue.perform call).1])
      (queue.perform call).2 := by
  cases call with
  | push change now => exact follows.pushed change (later now rfl)
  | drain now => exact follows.drained (later now rfl)
  | takeOverflow =>
      refine follows.silent (fun _ => rfl) (by nofun) ?_
      exact iff_of_false nofun (not_hasDropped_told history _)
  | nextDeadline =>
      refine follows.silent (fun _ => rfl) (by nofun) ?_
      exact follows.overflowed.trans (hasDropped_concat_iff (by nofun) (by nofun)).symm

/-- Whatever is asked of a queue, what it has become is what the history has led to, as long as
time does not go back. -/
theorem Follows.run (follows : Follows debounce capacity latest history queue)
    {calls : List QueueCall}
    (inTime : (latest :: calls.filterMap QueueCall.time?).Pairwise (· ≤ ·)) :
    ∃ last, Follows debounce capacity last (history ++ queue.history calls)
      (queue.after calls) := by
  induction calls generalizing history latest queue with
  | nil => exact ⟨latest, (List.append_nil history).symm ▸ follows⟩
  | cons call calls induction =>
      have later : ∀ now, call.time? = some now → latest ≤ now := by
        intro now time
        rw [List.filterMap_cons_some time] at inTime
        exact List.rel_of_pairwise_cons inTime List.mem_cons_self
      have rest : (call.time?.getD latest :: calls.filterMap QueueCall.time?).Pairwise (· ≤ ·) := by
        cases time : call.time? with
        | none => rwa [List.filterMap_cons_none time] at inTime
        | some now =>
            rw [List.filterMap_cons_some time] at inTime
            exact inTime.of_cons
      rcases induction (follows.performed later) rest with ⟨last, follows⟩
      rw [List.append_assoc] at follows
      exact ⟨last, follows⟩

theorem follows_make (debounce capacity : Nat) :
    Follows debounce (max capacity 1) 0 [] (make debounce capacity) where
  sameDebounce := rfl
  sameCapacity := rfl
  distinct := List.nodup_nil
  bounded := Nat.zero_le _
  past := List.forall_mem_nil _
  waits _ := rfl
  givesBack _ := by
    intro before kind now after splits
    exact absurd splits.symm (List.append_ne_nil_of_right_ne_nil _ (List.cons_ne_nil _ _))
  inOrder _ _ := nofun
  overflowed := by
    refine iff_of_false nofun ?_
    rintro ⟨before, change, now, after, splits, -⟩
    exact absurd splits.symm (List.append_ne_nil_of_right_ne_nil _ (List.cons_ne_nil _ _))

/-! ## What a queue is good for -/

/-- Whether a queue does all that it is there for, after all that has been asked of it. What is told
of a path waits, or is given back once, as the change taken last. -/
structure Serves (debounce capacity : Nat) (history : List QueueEvent) (queue : ChangeQueue) :
    Prop where
  distinct : (queue.pending.map fun waiting => Path.components waiting.change.path).Nodup
  bounded : queue.size ≤ max capacity 1
  refuses : ∀ change now, (queue.push change now).1 = false ↔
    queue.waiting? change.path = none ∧ queue.size = max capacity 1
  drops : ∀ change now, (queue.push change now).1 = false →
    (queue.push change now).2 = { queue with overflowed := true }
  waits : ∀ path, queue.waiting? path = PathEvent.waiting? (story path history)
  givesBack : ∀ path, GivesBack debounce (story path history)
  stays : ∀ path before kind seen after,
    story path history = before ++ .taken kind seen :: after →
      ((queue.waiting? path).isSome ∧ after.all isTaken) ∨
        ∃ more last lastSeen now rest,
          .taken kind seen :: after = more ++ .taken last lastSeen :: .returned last now :: rest ∧
          more.all isTaken ∧ lastSeen + debounce ≤ now
  inOrder : ∀ now changes, .drained now changes ∈ history → IsInOrder changes
  quiet : ∀ now, ∀ waiting ∈ (queue.drain now).2.pending, now < waiting.seen + debounce
  deadline : ∀ deadline, queue.nextDeadline = some deadline ↔ IsLeast
    {due | ∃ path kind seen, queue.waiting? path = some (kind, seen) ∧ due = seen + debounce}
    deadline
  overflow : queue.takeOverflow.1 = true ↔ HasDropped history

theorem nextDeadline_eq_some_iff (distinct : IsDistinct queue.pending) (deadline : Nat) :
    queue.nextDeadline = some deadline ↔ IsLeast
      {due | ∃ path kind seen,
        queue.waiting? path = some (kind, seen) ∧ due = seen + queue.debounce} deadline := by
  have due : ∀ time, time ∈ queue.pending.map (·.seen + queue.debounce) ↔
      ∃ path kind seen,
        queue.waiting? path = some (kind, seen) ∧ time = seen + queue.debounce := by
    intro time
    rw [List.mem_map]
    constructor
    · rintro ⟨waiting, member, rfl⟩
      exact ⟨_, _, _, waiting?_of_mem distinct member, rfl⟩
    · rintro ⟨path, kind, seen, waits, rfl⟩
      rcases exists_of_waiting? waits with ⟨waiting, member, rfl⟩
      exact ⟨waiting, member, rfl⟩
  rw [nextDeadline, List.min?_eq_some_iff, due]
  refine and_congr_right fun _ => ?_
  exact forall_congr' fun time => imp_congr_left (due time)

/-- What a drain leaves waits for a time that is yet to come. -/
theorem lt_of_mem_drain {now : Nat} {waiting : PendingChange}
    (member : waiting ∈ (queue.drain now).2.pending) : now < waiting.seen + queue.debounce := by
  have unready := (List.mem_filter.mp member).2
  rw [Bool.not_eq_true', isReady, decide_eq_false_iff_not] at unready
  omega

theorem Follows.serves {capacity : Nat}
    (follows : Follows debounce (max capacity 1) latest history queue) :
    Serves debounce capacity history queue where
  distinct := follows.distinct
  bounded := follows.bounded
  refuses change now := by
    have full := follows.bounded.ge_iff_eq
    rw [push_eq_false_iff, follows.sameCapacity]
    exact and_congr_right fun _ => full
  drops change now refused := by
    rw [push_snd, refused]
    rfl
  waits := follows.waits
  givesBack := follows.givesBack
  stays path _ _ _ _ splits := by
    rw [follows.waits path]
    exact stays_or_returned (follows.givesBack path) splits
  inOrder := follows.inOrder
  quiet _ _ member := follows.sameDebounce ▸ lt_of_mem_drain member
  deadline := follows.sameDebounce ▸ nextDeadline_eq_some_iff follows.distinct
  overflow := follows.overflowed

end ChangeQueue

open ChangeQueue in
/-- Whatever is asked of a queue, as long as time does not go back, no change is lost and none is
invented: it waits, one for each path and no more than there is room for, and is given back when it
has been quiet for long enough, as it was when it was taken last. A change is dropped only when there
is no room for its path, and that is told. -/
theorem queue_serves (debounce capacity : Nat) {calls : List QueueCall}
    (inTime : (calls.filterMap QueueCall.time?).Pairwise (· ≤ ·)) :
    let queue := make debounce capacity
    Serves debounce capacity (queue.history calls) (queue.after calls) := by
  have fromStart : (0 :: calls.filterMap QueueCall.time?).Pairwise (· ≤ ·) :=
    List.pairwise_cons.mpr ⟨fun _ _ => Nat.zero_le _, inTime⟩
  rcases (follows_make debounce capacity).run fromStart with ⟨latest, follows⟩
  exact follows.serves

/-- Changes of two paths, one of which is spelled in two ways. -/
def quietCalls : List QueueCall :=
  [.push ⟨"a/b".toList, .created⟩ 0, .push ⟨"c".toList, .modified⟩ 10,
    .push ⟨"a//b/.".toList, .removed⟩ 80, .drain 100, .takeOverflow, .nextDeadline, .drain 180]

/-- In a queue with room for one change, the second path is dropped, and the first waits from its
second change on. -/
theorem queue_serves_quietCalls :
    (quietCalls.filterMap QueueCall.time?).Pairwise (· ≤ ·) ∧
      let queue := ChangeQueue.make 100 0
      let early := quietCalls.take 6
      ChangeQueue.Serves 100 0 (queue.history quietCalls) (queue.after quietCalls) ∧
        (queue.after early).waiting? "a/b".toList = some (.removed, 80) ∧
        QueueEvent.overflowTold true ∈ queue.history early := by
  have inTime : (quietCalls.filterMap QueueCall.time?).Pairwise (· ≤ ·) := by decide
  refine ⟨inTime, queue_serves 100 0 inTime, by decide, ?_⟩
  have told : ((ChangeQueue.make 100 0).history (quietCalls.take 6))[4]? =
      some (.overflowTold true) := rfl
  exact List.mem_of_getElem? told

end SourceIndex
