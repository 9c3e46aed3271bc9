import SourceIndex.Exclusion.Glob
import SourceIndex.Text.Trim

/-! Which paths are left out of the index. -/

namespace SourceIndex

/-- Tells which paths below the root are left out. A path has slashes between its segments. -/
abbrev ExclusionPolicy := (path : String) → (isDirectory : Bool) → Bool

structure PatternError where
  glob : List Char
  fault : Glob.Fault
  deriving DecidableEq, Repr

def PatternError.message (error : PatternError) : String :=
  "error parsing glob '" ++ String.ofList error.glob ++ "': " ++ error.fault.message

structure ExclusionRules where
  excluding : List Glob := []
  including : List Glob := []

namespace ExclusionRules

def excludes (rules : ExclusionRules) (path : String) : Bool :=
  let bytes := path.toUTF8.toList
  rules.excluding.any (·.fits bytes) && !rules.including.any (·.fits bytes)

def policy (rules : ExclusionRules) : ExclusionPolicy := fun path _ => rules.excludes path

/-! ## Patterns -/

/-- The globs of a pattern. A pattern without slashes fits at any depth, any other one from the root
down; each also fits all that lies below. -/
def globTexts (pattern : List Char) : List (List Char) :=
  let bare := Text.dropEndWhile (· == '/') pattern
  let below := ['/', '*', '*']
  let anywhere := ['*', '*', '/']
  match bare with
  | '/' :: anchored => [anchored, anchored ++ below]
  | _ =>
    if bare.contains '/' then [bare, bare ++ below]
    else [bare, anywhere ++ bare, anywhere ++ bare ++ below, bare ++ below]

def readGlobs : List (List Char) → Except PatternError (List Glob)
  | [] => .ok []
  | text :: texts =>
    match Glob.read text with
    | .error fault => .error ⟨text, fault⟩
    | .ok glob => (readGlobs texts).map (glob :: ·)

/-- Adds a pattern to rules. Blank patterns and those that start with a hash say nothing; one that
starts with an exclamation mark includes what it fits. -/
def addPattern (rules : ExclusionRules) (pattern : String) : Except PatternError ExclusionRules :=
  match Text.trim pattern.toList with
  | [] | '#' :: _ => .ok rules
  | '!' :: included => do
    let globs ← readGlobs (globTexts included)
    return { rules with including := rules.including ++ globs }
  | excluded => do
    let globs ← readGlobs (globTexts excluded)
    return { rules with excluding := rules.excluding ++ globs }

def ofPatterns (patterns : List String) : Except PatternError ExclusionRules :=
  patterns.foldlM addPattern {}

end ExclusionRules

end SourceIndex
