import SourceIndex.Text.Character

/-! Trimming, splitting and joining of texts given as lists of characters. -/

namespace SourceIndex.Text

/-! ## Trimming -/

def trimStart (text : List Char) : List Char := text.dropWhile isBlank

/-- Drops the longest suffix whose characters satisfy `test`. -/
def dropEndWhile (test : Char → Bool) (text : List Char) : List Char :=
  (text.reverse.dropWhile test).reverse

def trimEnd (text : List Char) : List Char := dropEndWhile isBlank text

def trim (text : List Char) : List Char := trimEnd (trimStart text)

def isBlankText (text : List Char) : Bool := text.all isBlank

example : trim " a b\t".toList = "a b".toList := by decide

/-! ## Splitting -/

/-- The pieces between the characters that satisfy `separates`, empty ones included. There is always
one piece more than there are separators. -/
def splitAll (separates : Char → Bool) (text : List Char) : List (List Char) :=
  text.foldr (fun character pieces =>
    if separates character then [] :: pieces
    else match pieces with
      | [] => [[character]]
      | piece :: rest => (character :: piece) :: rest) [[]]

example : splitAll (· == ',') "a,,b".toList = [['a'], [], ['b']] := by decide

/-- The maximal stretches free of blanks. -/
def words (text : List Char) : List (List Char) :=
  (splitAll isBlank text).filter (! ·.isEmpty)

def joinWords (pieces : List (List Char)) : List Char := List.intercalate [' '] pieces

/-- Every run of blanks becomes one blank, and none is left at the ends. -/
def collapse (text : List Char) : List Char := joinWords (words text)

example : collapse "  a \t b ".toList = "a b".toList := by decide

/-! ## Searching -/

/-- The text after `lead`, if it starts so. -/
def dropLead? : (lead text : List Char) → Option (List Char)
  | [], text => some text
  | _ :: _, [] => none
  | expected :: lead, character :: text =>
    if expected = character then dropLead? lead text else none

def startsWith (text lead : List Char) : Bool := (dropLead? lead text).isSome

def endsWith (text tail : List Char) : Bool := startsWith text.reverse tail.reverse

/-- The text before and after the first occurrence of `separator`. -/
def splitOnce? (separator : List Char) : List Char → Option (List Char × List Char)
  | [] => if separator.isEmpty then some ([], []) else none
  | character :: text =>
    match dropLead? separator (character :: text) with
    | some rest => some ([], rest)
    | none => (splitOnce? separator text).map fun (before, rest) => (character :: before, rest)

def contains (text part : List Char) : Bool := (splitOnce? part text).isSome

/-- Walks over a text and drops what remains of an occurrence that has been found. -/
def splitTextFrom (separator : List Char) : (skip : Nat) → List Char → List (List Char)
  | _, [] => [[]]
  | skip + 1, _ :: text => splitTextFrom separator skip text
  | 0, character :: text =>
    if startsWith (character :: text) separator then
      [] :: splitTextFrom separator (separator.length - 1) text
    else match splitTextFrom separator 0 text with
      | [] => [[character]]
      | piece :: rest => (character :: piece) :: rest

/-- The pieces between the occurrences of a non-empty `separator`, found from left to right. -/
def splitText (separator text : List Char) : List (List Char) := splitTextFrom separator 0 text

example : splitText "::".toList "a::b:::c".toList = [['a'], ['b'], [':', 'c']] := by decide

/-- How many times `part` occurs in a text, counted from left to right without overlaps. -/
def countOccurrences (part text : List Char) : Nat := (splitText part text).length - 1

end SourceIndex.Text
