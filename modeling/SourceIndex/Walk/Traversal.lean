import SourceIndex.Exclusion.IgnoreFile
import SourceIndex.File.Tree
import SourceIndex.Walk.Admission

/-! Walking a tree for the files to be indexed. Directories that are left out are not entered. -/

namespace SourceIndex

/-! ## Ignore files along the way -/

/-- The ignore rules of one directory, which a path of names leads to. -/
structure IgnoreScope where
  depth : Nat
  general : List IgnoreRule
  git : List IgnoreRule
  /-- The rules that are kept with the repository and not among its files. -/
  gitExclude : List IgnoreRule

namespace IgnoreScope

def rulesAt (tree : FileTree) (path : List String) : List IgnoreRule :=
  match tree.file? path with
  | some content => if content.isReadable then IgnoreRule.ofBytes content.bytes else []
  | none => []

def ofDirectory (respectGitignore : Bool) (depth : Nat) (tree : FileTree) : IgnoreScope where
  depth
  general := rulesAt tree [".ignore"]
  git := if respectGitignore then rulesAt tree [".gitignore"] else []
  gitExclude := if respectGitignore then rulesAt tree [".git", "info", "exclude"] else []

/-- What the innermost of the scopes with anything to say says. The innermost scope comes first. -/
def innermost (rules : IgnoreScope → List IgnoreRule) (path : List String) (isDirectory : Bool) :
    List IgnoreScope → IgnoreVerdict
  | [] => .silent
  | scope :: scopes =>
    let seen := (joinSegments (path.drop scope.depth)).toUTF8.toList
    (IgnoreRule.verdict (rules scope) seen isDirectory).orElse
      (innermost rules path isDirectory scopes)

/-- Whether the ignore files along the way leave out a path. General ignore files go before those of
the repository. -/
def ignores (scopes : List IgnoreScope) (path : List String) (isDirectory : Bool) : Bool :=
  let verdict := ((innermost general path isDirectory scopes).orElse
    (innermost git path isDirectory scopes)).orElse
    (innermost gitExclude path isDirectory scopes)
  verdict = .ignored

end IgnoreScope

/-! ## The walk -/

/-- A file that a walk has found, under its path below the root. -/
structure WalkedFile where
  path : String
  content : StoredBytes

namespace FileTree

/-- Whether the walk passes over an entry, with all that lies below it. -/
def isPassedOver (options : WalkOptions) (policy : ExclusionPolicy) (scopes : List IgnoreScope)
    (path : List String) (name : String) (isDirectory : Bool) : Bool :=
  IgnoreScope.ignores scopes path isDirectory || options.hides name
    || policy (joinSegments path) isDirectory

mutual

/-- The admitted files of a tree that the names in `place` lead to. -/
def walkFrom (options : WalkOptions) (policy : ExclusionPolicy) (scopes : List IgnoreScope)
    (place : List String) : FileTree → List WalkedFile
  | .file _ => []
  | .directory entries =>
    if place.length < options.maxDepth then
      let scope := IgnoreScope.ofDirectory options.respectGitignore place.length (.directory entries)
      walkEntries options policy (scope :: scopes) place entries
    else []

def walkEntries (options : WalkOptions) (policy : ExclusionPolicy) (scopes : List IgnoreScope)
    (place : List String) : List (String × FileTree) → List WalkedFile
  | [] => []
  | (name, tree) :: entries =>
    let path := place ++ [name]
    let later := walkEntries options policy scopes place entries
    if isPassedOver options policy scopes path name tree.isDirectory then later
    else
      match tree with
      | .file content =>
        if options.admitsFile name then ⟨joinSegments path, content⟩ :: later else later
      | .directory below => walkFrom options policy scopes path (.directory below) ++ later

end

/-- The admitted files of a tree, in the order of their paths. -/
def walk (options : WalkOptions) (policy : ExclusionPolicy) (tree : FileTree) : List WalkedFile :=
  (walkFrom options policy [] [] tree).mergeSort fun left right => left.path ≤ right.path

end FileTree

end SourceIndex
