import SourceIndex.Config.Basic
import SourceIndex.File.Path

/-! Changes that wait until their files have been quiet for a while. -/

namespace SourceIndex

inductive ChangeKind
  | created
  | modified
  | removed
  deriving DecidableEq, Repr

structure FileChange where
  path : List Char
  kind : ChangeKind
  deriving DecidableEq, Repr

/-- A change that waits, and when it was last seen. Times are counted in milliseconds. -/
structure PendingChange where
  change : FileChange
  seen : Nat
  deriving DecidableEq, Repr

/-- A queue with at most one change for each path. Spellings of a path that have the same
components are one path. -/
structure ChangeQueue where
  /-- How long a file has to be quiet. -/
  debounce : Nat
  capacity : Nat
  pending : List PendingChange := []
  /-- Whether a change has been dropped since this was last asked. -/
  overflowed : Bool := false
  deriving DecidableEq, Repr

namespace PathComponent

def isLess (left right : PathComponent) : Bool :=
  match left, right with
  | name left, name right => decide (left < right)
  | left, right => left.rank < right.rank

end PathComponent

namespace ChangeQueue

def make (debounce capacity : Nat) : ChangeQueue := { debounce, capacity := max capacity 1 }

def ofConfig (config : WatchConfig) : ChangeQueue := make config.debounceMs config.queueCapacity

def size (queue : ChangeQueue) : Nat := queue.pending.length

def isEmpty (queue : ChangeQueue) : Bool := queue.pending.isEmpty

def samePath (left right : List Char) : Bool := Path.components left == Path.components right

/-- Sets the change of a path. A path that waits already keeps its first spelling and waits anew. -/
def setPending (change : FileChange) (now : Nat) : List PendingChange → List PendingChange
  | [] => [⟨change, now⟩]
  | waiting :: pending =>
    if samePath waiting.change.path change.path then
      ⟨{ waiting.change with kind := change.kind }, now⟩ :: pending
    else waiting :: setPending change now pending

/-- Takes a change, and tells whether there was room for it. -/
def push (queue : ChangeQueue) (change : FileChange) (now : Nat) : Bool × ChangeQueue :=
  let isPending := queue.pending.any fun waiting => samePath waiting.change.path change.path
  if !isPending && queue.capacity ≤ queue.size then (false, { queue with overflowed := true })
  else (true, { queue with pending := setPending change now queue.pending })

/-- Whether a change has been quiet for long enough. -/
def isReady (queue : ChangeQueue) (now : Nat) (waiting : PendingChange) : Bool :=
  queue.debounce ≤ now - waiting.seen

def pathLess : (left right : List PathComponent) → Bool
  | _, [] => false
  | [], _ :: _ => true
  | left :: lefts, right :: rights =>
    left.isLess right || (left == right && pathLess lefts rights)

/-- Takes out the changes that have been quiet for long enough, in the order of their paths. -/
def drain (queue : ChangeQueue) (now : Nat) : List FileChange × ChangeQueue :=
  let ready := (queue.pending.filter (queue.isReady now ·)).map (·.change)
  let inOrder := ready.mergeSort fun left right =>
    !pathLess (Path.components right.path) (Path.components left.path)
  (inOrder, { queue with pending := queue.pending.filter (! queue.isReady now ·) })

/-- When the first of the waiting changes will have been quiet for long enough. -/
def nextDeadline (queue : ChangeQueue) : Option Nat :=
  (queue.pending.map (·.seen + queue.debounce)).min?

/-- Tells whether a change has been dropped since this was last asked. -/
def takeOverflow (queue : ChangeQueue) : Bool × ChangeQueue :=
  (queue.overflowed, { queue with overflowed := false })

end ChangeQueue

end SourceIndex
