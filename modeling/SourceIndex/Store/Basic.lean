import SourceIndex.File.Record
import SourceIndex.Scan.Detection

/-! The store: the files of all projects and what has been extracted from them. -/

namespace SourceIndex

/-! ## Rows -/

/-- A stored file. Neither content nor analysis is stored with it. -/
structure FileRow where
  project : String
  file : IndexedFile

structure ComplexityRow where
  fileId : String
  report : ComplexityReport

/-- All stored rows, each kind in the order in which its rows were first written. The rows
extracted from a file bear the identifier of its row. -/
structure Store where
  files : List FileRow := []
  definitions : List Definition := []
  dependencies : List Dependency := []
  chunks : List Chunk := []
  complexities : List ComplexityRow := []

inductive RowKind
  | file
  | definition
  | dependency
  | chunk
  | complexity
  deriving DecidableEq, Repr

/-- Tells which identifier a row was to get and which one it has. Without the latter the row has not
been confirmed. -/
structure WriteAck where
  kind : RowKind
  proposedId : String
  durableId : Option String
  deriving DecidableEq, Repr

def WriteAck.isConfirmed (ack : WriteAck) : Bool := ack.durableId.isSome

/-! ## Errors -/

inductive StoreError
  /-- A new file was to get the identifier of another one. -/
  | duplicateFileId
  | unconfirmed (path : String)
  | unavailable (reason : String)
  deriving DecidableEq, Repr

def StoreError.message : StoreError → String
  | duplicateFileId => "sqlite error: UNIQUE constraint failed: indexed_files.id"
  | unconfirmed path => "file row for " ++ path ++ " was not confirmed"
  | unavailable reason => "sqlite error: " ++ reason

end SourceIndex
