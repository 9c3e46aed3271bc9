import SourceIndex.Scan.Indexer

/-! Indexing single paths, such as those that have been seen to change. -/

namespace SourceIndex.Indexer

/-! ## Removing -/

/-- Removes files by their paths below the root, up to the first one that the store refuses.
Yields how many were there. -/
def removePaths (indexer : Indexer) : (paths : List String) → (removed : Nat) → IndexState →
    Except StoreError Nat × IndexState
  | [], removed, state => (.ok removed, state)
  | path :: paths, removed, state =>
    match indexer.gate.remove state.store indexer.project path with
    | .error error => (.error error, state)
    | .ok (wasThere, store) =>
      let state := { state with store, records := RecordIndex.erase state.records path }
      indexer.removePaths paths (if wasThere then removed + 1 else removed) state

/-! ## Sorting out -/

/-- What a path stands for: a file that is there, the path of one that is gone, or nothing that is
indexed. -/
inductive PathStanding
  | present (file : WalkedFile)
  | gone (path : String)
  | passedOver

/-- A path from the top of the disk; a path without a slash in front starts at the root. -/
def absolutePath (root path : List Char) : List Char :=
  match path with
  | '/' :: _ => path
  | _ => if root.getLast? = some '/' then root ++ path else root ++ '/' :: path

/-- Tells what a path stands for. What the walk would not admit is passed over, and so are
directories. -/
def standing (indexer : Indexer) (disk : FileTree) (path : String) : PathStanding :=
  let absolute := disk.canonical (absolutePath indexer.root.toList path.toList)
  match Path.relativeTo? indexer.root.toList absolute with
  | none => .passedOver
  | some relative =>
    let relative := String.ofList relative
    if !admitsPath indexer.options indexer.policy relative then .passedOver
    else
      match disk.resolve? absolute with
      | none => .gone relative
      | some names =>
        match disk.find? names with
        | some (.file content) => .present ⟨relative, content⟩
        | _ => .passedOver

/-- Drops every item that equals the one in front of it by its key. -/
def dropRepeats {α : Type} (key : α → String) : List α → List α
  | [] => []
  | item :: items =>
    match dropRepeats key items with
    | [] => [item]
    | next :: rest => if key item = key next then item :: rest else item :: next :: rest

/-- The files that are there, by their paths, each once. -/
def presentFiles (standings : List PathStanding) : List WalkedFile :=
  let files := standings.filterMap fun standing => match standing with
    | .present file => some file
    | _ => none
  dropRepeats WalkedFile.path (files.mergeSort fun left right => left.path ≤ right.path)

/-- The paths of files that are gone, in order, each once. -/
def gonePaths (standings : List PathStanding) : List String :=
  let paths := standings.filterMap fun standing => match standing with
    | .gone path => some path
    | _ => none
  dropRepeats id (paths.mergeSort (· ≤ ·))

/-! ## Indexing -/

/-- Indexes the files at some paths, or removes them where they are gone. The paths start at the
root or at the top of the disk. -/
def indexPaths (indexer : Indexer) (disk : FileTree) (paths : List String) (state : IndexState) :
    ScanReport × Run :=
  let run := (Run.ofState state).enter .scanning {}
  match indexer.rootTree? disk with
  | none => indexer.finish run (some (.invalidRoot indexer.root))
  | some _ =>
    let standings := paths.map (indexer.standing disk)
    let files := presentFiles standings
    let run := run.count fun stats => { stats with totalFiles := files.length }
    let run := run.emit (.started indexer.project indexer.root .incremental files.length)
    let (removal, state) := indexer.removePaths (gonePaths standings) 0 run.toIndexState
    let run := { run with toIndexState := state }
    match removal with
    | .error error => indexer.finish run (some (.store error))
    | .ok removed =>
      let run := run.count fun stats => { stats with pruned := stats.pruned + removed }
      if files.isEmpty then indexer.finish run none
      else
        match indexer.gate.states run.store indexer.project with
        | .error error => indexer.finish run (some (.store error))
        | .ok stored => indexer.finish (indexer.processFiles stored false files run) none

end SourceIndex.Indexer
