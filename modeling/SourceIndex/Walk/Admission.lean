import SourceIndex.Config.Basic
import SourceIndex.Exclusion.Policy
import SourceIndex.File.Path
import SourceIndex.Language.Catalogue

/-! Which files of a tree are indexed, judged by their paths. -/

namespace SourceIndex

/-- What a walk admits besides what its exclusion policy says. -/
structure WalkOptions where
  maxDepth : Nat
  hiddenAllowlist : List String
  extensions : List String
  /-- Names of files that are admitted whatever their extension. -/
  specialFilenames : List String
  respectGitignore : Bool

namespace WalkOptions

/-- The extensions and names of all known languages, and those that a configuration adds. -/
def ofConfig (config : ScanConfig) : WalkOptions where
  maxDepth := config.maxDepth
  hiddenAllowlist := config.hiddenAllowlist
  extensions :=
    Language.known.flatMap (·.extensions) ++ config.extraExtensions.map Language.lowerCase
  specialFilenames := config.specialFilenames ++ Language.known.flatMap (·.filenames)
  respectGitignore := config.respectGitignore

def admitsFile (options : WalkOptions) (name : String) : Bool :=
  options.specialFilenames.contains name ||
    match Path.extension? name.toList with
    | some extension =>
      options.extensions.contains (Language.lowerCase (String.ofList extension))
    | none => false

/-- Whether a file or directory of a name is passed over as hidden. -/
def hides (options : WalkOptions) (name : String) : Bool :=
  name.toList.head? = some '.' && !options.hiddenAllowlist.contains name

end WalkOptions

def pathSegments (path : String) : List String :=
  ((Text.splitAll (· == '/') path.toList).filter (! ·.isEmpty)).map String.ofList

def joinSegments (segments : List String) : String := String.intercalate "/" segments

/-- Every list of first items, from the one with the first item alone to the whole list. -/
def leads {α : Type} : List α → List (List α)
  | [] => []
  | first :: rest => [first] :: (leads rest).map (first :: ·)

example : leads [1, 2] = [[1], [1, 2]] := by decide

/-- Whether the walk of a tree would yield the file of a path: none of its segments is hidden,
none of the directories on the way is excluded, it does not lie too deep, and its name is
admitted. Ignore files are not consulted. -/
def admitsPath (options : WalkOptions) (policy : ExclusionPolicy) (path : String) : Bool :=
  let segments := pathSegments path
  match segments.getLast? with
  | none => false
  | some name =>
    segments.length ≤ options.maxDepth
      && !segments.any options.hides
      && !(leads segments.dropLast).any (fun lead => policy (joinSegments lead) true)
      && !policy path false
      && options.admitsFile name

end SourceIndex
