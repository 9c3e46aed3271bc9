import SourceIndex.Exclusion.Policy
import SourceIndex.Store.Basic

/-! What is told of a run: where it is, what it has counted and how it ended. -/

namespace SourceIndex

inductive ScanPhase
  | idle
  | scanning
  | readingAndFiltering
  | embedding
  | analyzing
  | persisting
  | complete
  | error
  deriving DecidableEq, Repr

def ScanPhase.tag : ScanPhase → String
  | idle => "idle"
  | scanning => "scanning"
  | readingAndFiltering => "reading_and_filtering"
  | embedding => "embedding"
  | analyzing => "analyzing"
  | persisting => "persisting"
  | complete => "complete"
  | error => "error"

/-- Whether files that seem unchanged are passed over. -/
inductive ScanMode
  | incremental
  | force
  deriving DecidableEq, Repr

def ScanMode.tag : ScanMode → String
  | incremental => "incremental"
  | force => "force"

structure ScanStats where
  totalFiles : Nat := 0
  processed : Nat := 0
  indexed : Nat := 0
  /-- The lines of the files indexed. -/
  totalLines : Nat := 0
  skippedByTime : Nat := 0
  skippedByContent : Nat := 0
  skippedOversize : Nat := 0
  embedded : Nat := 0
  embeddingFailures : Nat := 0
  ackSuccess : Nat := 0
  ackFailed : Nat := 0
  failed : Nat := 0
  pruned : Nat := 0
  memoryShrinks : Nat := 0
  deriving DecidableEq, Repr

inductive ScanError
  | invalidRoot (root : String)
  | store (error : StoreError)
  | pattern (error : PatternError)
  deriving DecidableEq, Repr

def ScanError.message : ScanError → String
  | invalidRoot root => "invalid root: " ++ root
  | store error => "store error: " ++ error.message
  | pattern error => "invalid exclude pattern: " ++ error.message

/-- How many files and batches a run has come through. -/
structure ScanPosition where
  processed : Nat := 0
  total : Nat := 0
  batch : Nat := 0
  batches : Nat := 0
  deriving DecidableEq, Repr

/-- What a run tells while it goes on. -/
inductive ProgressEvent
  | started (project root : String) (mode : ScanMode) (totalFiles : Nat)
  | entered (phase : ScanPhase) (position : ScanPosition)
  | fileIndexed (path language : String) (lineCount : Nat) (hadEmbedding : Bool)
  | completed (root : String) (stats : ScanStats) (success : Bool)
  deriving DecidableEq, Repr

structure ScanReport where
  project : String
  stats : ScanStats
  error : Option ScanError
  deriving DecidableEq, Repr

def ScanReport.success (report : ScanReport) : Bool := report.error.isNone

end SourceIndex
