import SourceIndex.Definition.Recognition

/-! What all scans for definitions share: the definitions found so far and the scopes that are
open. -/

namespace SourceIndex

/-- A scope that is still open: the place of its definition among those found, and the depth at
which it was opened. -/
structure OpenScope where
  definition : Nat
  depth : Nat
  deriving DecidableEq, Repr

/-- The definitions found so far, in order, and the open scopes, the innermost first. -/
structure Findings where
  definitions : Array Definition := #[]
  scopes : List OpenScope := []

namespace Findings

def endAt (findings : Findings) (definition line : Nat) : Findings :=
  { findings with definitions := findings.definitions.modify definition ({ · with endLine := line }) }

/-- Lets the definitions of scopes end on a line, but not before the lines on which they start. -/
def endAllAt (findings : Findings) (closed : List OpenScope) (line : Nat) : Findings :=
  closed.foldl (fun findings scope =>
    { findings with definitions := findings.definitions.modify scope.definition fun definition =>
      { definition with endLine := max line definition.startLine } }) findings

/-- Closes the scopes that were opened at the given depth or deeper. -/
def closeFrom (findings : Findings) (depth line : Nat) : Findings :=
  let closed := findings.scopes.takeWhile (depth ≤ ·.depth)
  let scopes := findings.scopes.dropWhile (depth ≤ ·.depth)
  { findings.endAllAt closed line with scopes }

def closeAll (findings : Findings) (line : Nat) : Findings :=
  { findings.endAllAt findings.scopes line with scopes := [] }

def openScope (findings : Findings) (definition depth : Nat) : Findings :=
  { findings with scopes := ⟨definition, depth⟩ :: findings.scopes }

/-- Adds a definition; its place is the number of those found before. -/
def add (findings : Findings) (definition : Definition) : Findings :=
  { findings with definitions := findings.definitions.push definition }

/-- The definition of the innermost open scope or, outside of all scopes, the given one. -/
def enclosing (findings : Findings) (outer : Option Definition) : Option Definition :=
  match findings.scopes.head? with
  | some scope => findings.definitions[scope.definition]?
  | none => outer

/-- The site of a line behind all that has been found. -/
def site (findings : Findings) (fileId : String) (lineNumber : Nat) (outer : Option Definition)
    (decorators : List String) : Site :=
  let parent := findings.enclosing outer
  ⟨fileId, lineNumber, .of (parent.map (·.kind)), parent, decorators⟩

end Findings

/-- What is scanned: the lines of a file or of a region, the number of the first one, and the
definition that encloses them all. -/
structure ScanInput where
  fileId : String
  firstLine : Nat
  outer : Option Definition
  lines : List (List Char)

def ScanInput.lastLine (input : ScanInput) : Nat := input.firstLine + (input.lines.length - 1)

end SourceIndex
