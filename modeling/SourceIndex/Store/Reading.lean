import SourceIndex.Store.Writing

/-! Reading from the store. -/

namespace SourceIndex.Store

/-! ## Files -/

def rowsOf (store : Store) (project : String) : List FileRow :=
  store.files.filter (·.project == project)

/-- What is recorded of the files of a project, in the order in which they were first written. -/
def states (store : Store) (project : String) : List FileState :=
  (store.rowsOf project).map fun row =>
    { id := row.file.id, path := row.file.path, contentHash := row.file.contentHash,
      time := row.file.time }

def load? (store : Store) (project path : String) : Option IndexedFile :=
  (store.row? project path).map (·.file)

/-- The paths of a project in the order of their characters. -/
def paths (store : Store) (project : String) : List String :=
  ((store.rowsOf project).map (·.file.path)).mergeSort (· ≤ ·)

def fileCount (store : Store) (project : String) : Nat := (store.rowsOf project).length

/-! ## What has been extracted -/

/-- A number of 64 bits as it takes part in comparisons: with a sign. -/
def orderKey (number : Nat) : Int := Int.bmod number 0x10000000000000000

/-- Rows in the order of a number, those of one number in the order in which they were first
written. -/
def inOrder {α : Type} (numberOf : α → Nat) (rows : List α) : List α :=
  rows.mergeSort fun left right => orderKey (numberOf left) ≤ orderKey (numberOf right)

def definitionsOf (store : Store) (fileId : String) : List Definition :=
  inOrder Definition.startLine (store.definitions.filter (·.fileId == fileId))

def dependenciesOf (store : Store) (fileId : String) : List Dependency :=
  inOrder Dependency.line (store.dependencies.filter (·.fileId == fileId))

def chunksOf (store : Store) (fileId : String) : List Chunk :=
  inOrder Chunk.index (store.chunks.filter (·.fileId == fileId))

/-- The complexity of a file, if the file has been analysed. -/
def complexityOf? (store : Store) (fileId : String) : Option ComplexityReport :=
  (store.complexities.find? (·.fileId == fileId)).map (·.report)

end SourceIndex.Store

namespace SourceIndex.StoreGate

/-- What is recorded of the files of a project, unless loading is refused. -/
def states (gate : StoreGate) (store : Store) (project : String) :
    Except StoreError (List FileState) :=
  gate.attempt .load "" fun _ => .ok (store.states project)

end SourceIndex.StoreGate
