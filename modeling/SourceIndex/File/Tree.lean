import SourceIndex.File.Time
import SourceIndex.Text.Trim

/-! Trees of directories and files. -/

namespace SourceIndex

structure StoredBytes where
  bytes : ByteArray
  time : FileTime
  isReadable : Bool := true

/-- A file, or a directory with its entries by name. -/
inductive FileTree
  | file (content : StoredBytes)
  | directory (entries : List (String × FileTree))
  deriving Inhabited

namespace FileTree

def empty : FileTree := .directory []

def isDirectory : FileTree → Bool
  | directory _ => true
  | file _ => false

def isFile (tree : FileTree) : Bool := !tree.isDirectory

def entries : FileTree → List (String × FileTree)
  | directory entries => entries
  | file _ => []

def find? : FileTree → List String → Option FileTree
  | tree, [] => some tree
  | tree, name :: path =>
    match tree.entries.lookup name with
    | some child => child.find? path
    | none => none

def file? (tree : FileTree) (path : List String) : Option StoredBytes :=
  match tree.find? path with
  | some (.file content) => some content
  | _ => none

/-- Entries with one of them set, at its old place or at the end. -/
def setEntry (name : String) (child : FileTree) :
    List (String × FileTree) → List (String × FileTree)
  | [] => [(name, child)]
  | (other, tree) :: entries =>
    if other = name then (name, child) :: entries else (other, tree) :: setEntry name child entries

/-- Puts something at a path; the directories on the way are made. Nothing can be put below a
file. -/
def insert? (tree : FileTree) : (path : List String) → (child : FileTree) → Option FileTree
  | [], child => some child
  | name :: path, child =>
    match tree with
    | .file _ => none
    | .directory entries => do
      let inner ← ((entries.lookup name).getD empty).insert? path child
      return .directory (setEntry name inner entries)

/-- Takes away what is at a path, if anything is. -/
def erase (tree : FileTree) : (path : List String) → FileTree
  | [] => tree
  | [name] =>
    match tree with
    | .file content => .file content
    | .directory entries => .directory (entries.filter (·.1 ≠ name))
  | name :: path =>
    match tree with
    | .file content => .file content
    | .directory entries =>
      match entries.lookup name with
      | some child => .directory (setEntry name (child.erase path) entries)
      | none => .directory entries

/-! ## Paths as texts -/

/-- Follows the pieces of a path from a directory on. `trail` holds the names that lead to where the
path has come so far, the last one first. Every piece, even an empty one, needs a directory to start
from. -/
def follow? (tree : FileTree) : (trail : List String) → List (List Char) → Option (List String)
  | trail, [] => some trail.reverse
  | trail, piece :: pieces =>
    match tree.find? trail.reverse with
    | some (.directory entries) =>
      if piece = [] ∨ piece = ['.'] then tree.follow? trail pieces
      else if piece = ['.', '.'] then tree.follow? trail.tail pieces
      else
        let name := String.ofList piece
        if (entries.lookup name).isSome then tree.follow? (name :: trail) pieces else none
    | _ => none

/-- The names that lead to what a path leads to, if it is there. A path without a slash in front
starts at the top of the tree too. -/
def resolve? (tree : FileTree) (path : List Char) : Option (List String) :=
  if path = [] then none else tree.follow? [] (Text.splitAll (· == '/') path)

/-- The plainest spelling of a path from the top of the tree. -/
def spell (names : List String) : List Char := names.flatMap fun name => '/' :: name.toList

/-- The plainest spelling of a path that leads to something, and any other path as it is written. -/
def canonical (tree : FileTree) (path : List Char) : List Char :=
  match tree.resolve? path with
  | some [] => ['/']
  | some names => spell names
  | none => path

end FileTree

end SourceIndex
