import SourceIndex.File.Time
import SourceIndex.Identifier
import SourceIndex.Text.Utf8

/-! Finding out whether a file has changed since it was last recorded. The time of its last change
can settle the question without reading; otherwise the digest of its content does. -/

namespace SourceIndex

/-- What is recorded of a file between two scans. -/
structure FileState where
  id : String
  path : String
  contentHash : String
  time : FileTime
  deriving DecidableEq, Repr

inductive ChangeStatus
  | new
  | changed
  | unchangedByTime
  | unchangedByContent
  deriving DecidableEq, Repr

def ChangeStatus.needsAnalysis : ChangeStatus → Bool
  | new | changed => true
  | unchangedByTime | unchangedByContent => false

structure FileReading where
  text : String
  contentHash : String
  size : Nat
  deriving DecidableEq, Repr

namespace FileReading

def ofBytes (bytes : ByteArray) : FileReading where
  text := String.ofList (Text.decodeLossy bytes)
  contentHash := SourceIndex.contentHash bytes
  size := bytes.size

end FileReading

/-- How a file compares with its record. The reading is there whenever the file had to be read. -/
structure Detection where
  status : ChangeStatus
  reading : Option FileReading
  deriving DecidableEq, Repr

namespace Detection

/-- Whether the time alone tells that a file is unchanged: it is not later than the recorded one. -/
def settledByTime (force : Bool) (recorded : Option FileState) (time : FileTime) : Bool :=
  match recorded with
  | some state => !force && !time.isLaterThan state.time
  | none => false

def statusOf (force : Bool) (recorded : Option FileState) (hash : String) : ChangeStatus :=
  match recorded with
  | none => .new
  | some state => if !force && state.contentHash == hash then .unchangedByContent else .changed

/-- Compares a file with its record. The file is loaded only if the time does not settle the
question; when forced, every file that has been recorded counts as changed. -/
def detect {ε : Type} (force : Bool) (recorded : Option FileState) (time : FileTime)
    (load : Unit → Except ε ByteArray) : Except ε Detection :=
  if settledByTime force recorded time then .ok ⟨.unchangedByTime, none⟩
  else
    match load () with
    | .error fault => .error fault
    | .ok bytes =>
      let reading := FileReading.ofBytes bytes
      .ok ⟨statusOf force recorded reading.contentHash, some reading⟩

end Detection

end SourceIndex
