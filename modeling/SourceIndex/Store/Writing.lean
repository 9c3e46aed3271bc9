import SourceIndex.Store.Basic
import SourceIndex.Json.Reading
import SourceIndex.Json.Writing

/-! Writing to the store. Every operation either does all that it has to do or changes nothing. -/

namespace SourceIndex

/-- Sets a row among others. A row of the same identifier takes over what `revise` lets it;
otherwise the row is added at the end. -/
def setRow {α : Type} (idOf : α → String) (revise : (old new : α) → α) (row : α) :
    List α → List α
  | [] => [row]
  | other :: rows =>
    if idOf other = idOf row then revise other row :: rows
    else other :: setRow idOf revise row rows

namespace FileRow

def isAt (row : FileRow) (project path : String) : Bool :=
  row.project == project && row.file.path == path

/-- A stored file that is written again keeps its identifier. -/
def revise (row : FileRow) (file : IndexedFile) : FileRow :=
  { row with file := { file.release with id := row.file.id } }

end FileRow

/-! ## Rows as they are stored -/

/-- A number with a fraction, after it has been written as text and read back. -/
def ofStoredText (number : Float) : Float :=
  match Json.read? (Json.decimal number).compact with
  | some (.decimal value) => value
  | _ => number

/-- A value, after it has been written as text and read back. -/
def Json.ofStoredText (value : Json) : Json := (Json.read? value.compact).getD value

def Definition.stored (fileId : String) (definition : Definition) : Definition :=
  { definition with
    fileId
    metadata := definition.metadata.map fun (name, value) => (name, value.ofStoredText) }

/-- What a definition takes over from one of the same identifier that is written later. -/
def Definition.revise (old new : Definition) : Definition :=
  { old with
    endLine := new.endLine, signature := new.signature, parentId := new.parentId,
    metadata := new.metadata }

def Dependency.stored (fileId : String) (dependency : Dependency) : Dependency :=
  { dependency with fileId }

def Dependency.revise (old new : Dependency) : Dependency :=
  { old with statement := new.statement, importedNames := new.importedNames, flags := new.flags }

def Chunk.stored (fileId : String) (chunk : Chunk) : Chunk := { chunk with fileId }

def Chunk.revise (old new : Chunk) : Chunk :=
  { old with content := new.content, type := new.type, embedding := new.embedding }

def ComplexityReport.stored (report : ComplexityReport) : ComplexityReport :=
  { report with
    issues := report.issues.map fun issue =>
      { issue with
        value := SourceIndex.ofStoredText issue.value
        threshold := SourceIndex.ofStoredText issue.threshold } }

namespace Store

/-! ## Files -/

def row? (store : Store) (project path : String) : Option FileRow :=
  store.files.find? (·.isAt project path)

/-- Writes the row of a file at its path, and tells the identifier it has. -/
def putFile (store : Store) (project : String) (file : IndexedFile) :
    Except StoreError (String × Store) :=
  match store.row? project file.path with
  | some row =>
    let files := store.files.map fun other =>
      if other.isAt project file.path then other.revise file else other
    .ok (row.file.id, { store with files })
  | none =>
    if store.files.any (·.file.id == file.id) then .error .duplicateFileId
    else .ok (file.id, { store with files := store.files ++ [⟨project, file.release⟩] })

/-- Removes all that has been extracted from a file. -/
def clear (store : Store) (fileId : String) : Store :=
  { store with
    definitions := store.definitions.filter (·.fileId != fileId)
    dependencies := store.dependencies.filter (·.fileId != fileId)
    chunks := store.chunks.filter (·.fileId != fileId)
    complexities := store.complexities.filter (·.fileId != fileId) }

def putAnalysis (store : Store) (fileId : String) (analysis : Analysis) : Store where
  files := store.files
  definitions := analysis.definitions.foldl (fun rows definition =>
    setRow Definition.id Definition.revise (definition.stored fileId) rows) store.definitions
  dependencies := analysis.dependencies.foldl (fun rows dependency =>
    setRow Dependency.id Dependency.revise (dependency.stored fileId) rows) store.dependencies
  chunks := analysis.chunks.foldl (fun rows chunk =>
    setRow Chunk.id Chunk.revise (chunk.stored fileId) rows) store.chunks
  complexities := setRow ComplexityRow.fileId (fun _ row => row)
    ⟨fileId, analysis.complexity.stored⟩ store.complexities

/-- What is confirmed of an analysis that has been added: a row of every identifier is there. -/
def analysisAcks (fileId : String) (analysis : Analysis) : List WriteAck :=
  let confirmed := fun (kind : RowKind) (id : String) => WriteAck.mk kind id (some id)
  analysis.definitions.map (fun row => confirmed .definition row.id)
    ++ analysis.dependencies.map (fun row => confirmed .dependency row.id)
    ++ analysis.chunks.map (fun row => confirmed .chunk row.id)
    ++ [confirmed .complexity fileId]

/-- Writes a file. What has been extracted from it takes the place of what was extracted before; a
file that comes without analysis has nothing. -/
def persist (store : Store) (project : String) (file : IndexedFile) :
    Except StoreError (List WriteAck × Store) := do
  let (durableId, store) ← store.putFile project file
  let ack : WriteAck := ⟨.file, file.id, some durableId⟩
  let store := store.clear durableId
  match file.analysis with
  | none => return ([ack], store)
  | some analysis =>
    return (ack :: analysisAcks durableId analysis, store.putAnalysis durableId analysis)

/-- Sets the time of a file, and tells whether the file is there. -/
def touch (store : Store) (project path : String) (time : FileTime) : Bool × Store :=
  ((store.row? project path).isSome,
    { store with
      files := store.files.map fun row =>
        if row.isAt project path then { row with file := { row.file with time } } else row })

def remove (store : Store) (project path : String) : Bool × Store :=
  match store.row? project path with
  | none => (false, store)
  | some row =>
    let kept := store.clear row.file.id
    (true, { kept with files := kept.files.filter (! ·.isAt project path) })

end Store

/-! ## Refusals -/

inductive StoreOperation
  | load
  | persist
  | touch
  | remove
  deriving DecidableEq, Repr

/-- Tells which operations a store refuses, for which paths, and with what error. Loading is
refused for all paths at once, which the empty path stands for. -/
structure StoreGate where
  refuses : StoreOperation → (path : String) → Option StoreError := fun _ _ => none

namespace StoreGate

def accepting : StoreGate := {}

/-- Does an operation unless it is refused. A refused operation changes nothing. -/
def attempt {α : Type} (gate : StoreGate) (operation : StoreOperation) (path : String)
    (act : Unit → Except StoreError α) : Except StoreError α :=
  match gate.refuses operation path with
  | some error => .error error
  | none => act ()

def persist (gate : StoreGate) (store : Store) (project : String) (file : IndexedFile) :
    Except StoreError (List WriteAck × Store) :=
  gate.attempt .persist file.path fun _ => store.persist project file

def touch (gate : StoreGate) (store : Store) (project path : String) (time : FileTime) :
    Except StoreError (Bool × Store) :=
  gate.attempt .touch path fun _ => .ok (store.touch project path time)

def remove (gate : StoreGate) (store : Store) (project path : String) :
    Except StoreError (Bool × Store) :=
  gate.attempt .remove path fun _ => .ok (store.remove project path)

end StoreGate

end SourceIndex
