import SourceIndex.Text.Trim

/-! Paths with slashes, taken apart into their components. -/

namespace SourceIndex

/-- One step of a path. A leading `.` is kept; any other, and every empty step, is left out. -/
inductive PathComponent
  | root
  | here
  | up
  | name (text : List Char)
  deriving DecidableEq, Repr

namespace PathComponent

def toText : PathComponent → List Char
  | root => ['/']
  | here => ['.']
  | up => ['.', '.']
  | name text => text

/-- The order of paths compares steps of different kinds by their kinds: the root first, then a
leading `.`, then `..`, then names in the order of their characters. -/
def rank : PathComponent → Nat
  | root => 0
  | here => 1
  | up => 2
  | name _ => 3

end PathComponent

namespace Path

/-- The components of the pieces between slashes that are not the first piece. -/
def laterComponents (pieces : List (List Char)) : List PathComponent :=
  pieces.filterMap fun piece =>
    if piece = [] ∨ piece = ['.'] then none
    else if piece = ['.', '.'] then some .up
    else some (.name piece)

def components (path : List Char) : List PathComponent :=
  match path, Text.splitAll (· == '/') path with
  | '/' :: _, pieces => .root :: laterComponents pieces
  | _, ['.'] :: pieces => .here :: laterComponents pieces
  | _, pieces => laterComponents pieces

example : components "./a//b/./..".toList = [.here, .name ['a'], .name ['b'], .up] := by decide

def join (components : List PathComponent) : List Char :=
  List.intercalate ['/'] (components.map (·.toText))

def fileName? (path : List Char) : Option (List Char) :=
  match (components path).getLast? with
  | some (.name text) => some text
  | _ => none

/-- A file name's part behind the last dot, if something stands before that dot. -/
def extensionOfName? (name : List Char) : Option (List Char) :=
  let tail := name.reverse.takeWhile (· ≠ '.')
  match name.reverse.dropWhile (· ≠ '.') with
  | _ :: _ :: _ => some tail.reverse
  | _ => none

def extension? (path : List Char) : Option (List Char) := (fileName? path).bind extensionOfName?

example : extension? "a/b.tar.gz/".toList = some ['g', 'z'] := by decide
example : extension? ".bashrc".toList = none := by decide

def dropLead? : (lead components : List PathComponent) → Option (List PathComponent)
  | [], components => some components
  | _ :: _, [] => none
  | expected :: lead, component :: components =>
    if expected = component then dropLead? lead components else none

/-- A path seen from a root above it, in components that single slashes separate; none for the root
itself and for what is not below it. -/
def relativeTo? (root path : List Char) : Option (List Char) :=
  match dropLead? (components root) (components path) with
  | some (first :: rest) => some (join (first :: rest))
  | _ => none

end Path

end SourceIndex
