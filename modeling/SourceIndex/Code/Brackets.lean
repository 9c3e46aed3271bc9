import SourceIndex.Text.Trim

/-! Brackets in stripped code: how deep braces nest, what closes on a line, and lists that brackets
protect from being split. -/

namespace SourceIndex

/-! ## Depth of braces -/

/-- What the braces of a line do to the depth at its start. -/
structure BraceWalk where
  depth : Nat
  opens : Nat := 0
  closes : Nat := 0
  /-- The depth that each closing brace leads back to, the latest first. -/
  closeDepths : List Nat := []
  /-- The depth at each brace of this line that is still open, the innermost first. -/
  openDepths : List Nat := []
  deriving DecidableEq, Repr

namespace BraceWalk

/-- Takes one character. A closing brace without an opening one leaves the depth at zero. -/
def take (walk : BraceWalk) (character : Char) : BraceWalk :=
  if character = '\x7b' then
    { walk with
      depth := walk.depth + 1
      opens := walk.opens + 1
      openDepths := walk.depth :: walk.openDepths }
  else if character = '\x7d' then
    { walk with
      depth := walk.depth - 1
      closes := walk.closes + 1
      closeDepths := (walk.depth - 1) :: walk.closeDepths
      openDepths := walk.openDepths.tail }
  else walk

def ofLine (depth : Nat) (code : List Char) : BraceWalk := code.foldl take { depth }

/-- The depth in front of the first brace that the line leaves open. -/
def unclosed? (walk : BraceWalk) : Option Nat := walk.openDepths.getLast?

example : (ofLine 2 "\x7d else \x7b".toList).unclosed? = some 1 := by decide
example : (ofLine 0 "\x7b a: \x7b b \x7d \x7d".toList).unclosed? = none := by decide

end BraceWalk

/-! ## Balance of brackets -/

def bracketBalance (opening closing : List Char) (code : List Char) : Int :=
  code.foldl (fun balance character =>
    if character ∈ opening then balance + 1
    else if character ∈ closing then balance - 1
    else balance) 0

def parenBalance (code : List Char) : Int := bracketBalance ['('] [')'] code

def allBracketBalance (code : List Char) : Int :=
  bracketBalance ['(', '[', '\x7b'] [')', ']', '\x7d'] code

/-! ## Lists -/

/-- The change of depth that a character makes inside a list. Angle brackets count as brackets. -/
def listDepth (depth : Int) (character : Char) : Int :=
  if character ∈ ['(', '[', '\x7b', '<'] then depth + 1
  else if character ∈ [')', ']', '\x7d', '>'] then depth - 1
  else depth

/-- The stretches between commas outside all brackets, from a place inside `depth` brackets on. -/
def splitListFrom (depth : Int) : List Char → List (List Char)
  | [] => [[]]
  | character :: rest =>
    if character = ',' ∧ depth ≤ 0 then [] :: splitListFrom depth rest
    else
      match splitListFrom (listDepth depth character) rest with
      | [] => [[character]]
      | part :: parts => (character :: part) :: parts

/-- The entries of a list, without surrounding blanks; empty entries are left out. -/
def splitList (text : List Char) : List (List Char) :=
  ((splitListFrom 0 text).map Text.trim).filter (! ·.isEmpty)

example : splitList "a, b[c, d], ,e".toList = ["a".toList, "b[c, d]".toList, ['e']] := by decide

end SourceIndex
