import SourceIndex.Scan.Report
import SourceIndex.Store.Reading

/-! The state of a run: the store, the files that are kept in memory, and what is told of the run.
-/

namespace SourceIndex

/-- The files that an indexer keeps in memory, each under its path. -/
abbrev RecordIndex := List (String × IndexedFile)

namespace RecordIndex

def set (file : IndexedFile) : RecordIndex → RecordIndex
  | [] => [(file.path, file)]
  | (path, other) :: records =>
    if path = file.path then (path, file) :: records else (path, other) :: set file records

def erase (records : RecordIndex) (path : String) : RecordIndex := records.filter (·.1 != path)

end RecordIndex

/-- What an indexer works on, and what it keeps from one run to the next. -/
structure IndexState where
  store : Store := {}
  records : RecordIndex := []
  phase : ScanPhase := .idle

/-- A run with what it has counted and told so far. -/
structure Run extends IndexState where
  stats : ScanStats := {}
  events : List ProgressEvent := []

namespace Run

def ofState (state : IndexState) : Run := { state with }

def emit (run : Run) (event : ProgressEvent) : Run := { run with events := run.events ++ [event] }

def enter (run : Run) (phase : ScanPhase) (position : ScanPosition) : Run :=
  { run with phase }.emit (.entered phase position)

def count (run : Run) (change : ScanStats → ScanStats) : Run :=
  { run with stats := change run.stats }

def setRecord (run : Run) (file : IndexedFile) : Run :=
  { run with records := RecordIndex.set file run.records }

def eraseRecord (run : Run) (path : String) : Run :=
  { run with records := RecordIndex.erase run.records path }

/-- Ends a run and tells how it has ended. -/
def finish (run : Run) (project root : String) (error : Option ScanError) : ScanReport × Run :=
  let run := { run with phase := if error.isNone then .complete else .error }
  (⟨project, run.stats, error⟩, run.emit (.completed root run.stats error.isNone))

end Run

end SourceIndex
