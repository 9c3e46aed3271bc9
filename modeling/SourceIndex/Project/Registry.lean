import SourceIndex.Scan.Indexer

/-! The indexers of several projects, one for each project root. -/

namespace SourceIndex

/-- The key of the project at a path: that of the plainest spelling of the path, if it leads to
something. -/
def projectKey (disk : FileTree) (root : String) : String :=
  projectKeyOf (String.ofList (disk.canonical root.toList))

/-- An indexer that a registry has made. No two that it makes have the same number. -/
structure ProjectHandle where
  number : Nat
  indexer : Indexer

/-- The indexers that are in use, by the keys of their projects. -/
structure Registry where
  embedder : Embedder
  config : Config
  live : List (String × ProjectHandle) := []
  /-- How many indexers have been made. -/
  made : Nat := 0

namespace Registry

def size (registry : Registry) : Nat := registry.live.length

def isEmpty (registry : Registry) : Bool := registry.live.isEmpty

def get? (registry : Registry) (disk : FileTree) (root : String) : Option ProjectHandle :=
  registry.live.lookup (projectKey disk root)

/-- The indexer of a project. It is made at its first use. -/
def getOrCreate (registry : Registry) (disk : FileTree) (root : String) :
    Except ScanError (ProjectHandle × Registry) :=
  match registry.get? disk root with
  | some handle => .ok (handle, registry)
  | none =>
    match Indexer.make disk root registry.embedder registry.config with
    | .error error => .error error
    | .ok indexer =>
      let handle : ProjectHandle := ⟨registry.made, indexer⟩
      .ok (handle,
        { registry with
          live := registry.live ++ [(projectKey disk root, handle)]
          made := registry.made + 1 })

/-- Gives up the indexer of a project, and tells whether it was in use. -/
def teardown (registry : Registry) (disk : FileTree) (root : String) : Bool × Registry :=
  let key := projectKey disk root
  ((registry.get? disk root).isSome,
    { registry with live := registry.live.filter (·.1 != key) })

/-- Gives up all indexers, and tells how many there were. -/
def teardownAll (registry : Registry) : Nat × Registry :=
  (registry.size, { registry with live := [] })

end Registry

end SourceIndex
