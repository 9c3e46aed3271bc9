import SourceIndex.Text.Trim

/-! Lines of a text and where they start. -/

namespace SourceIndex.Text

/-- A line as it stands before a line feed, without the carriage return of a `\r\n` ending. -/
def dropCarriageReturn (line : List Char) : List Char :=
  match line.reverse with
  | '\r' :: rest => rest.reverse
  | _ => line

/-- Turns the pieces between line feeds into lines. The last piece has no line feed: it keeps its
carriage return, and it is no line at all if it is empty. -/
def linesOfPieces : List (List Char) → List (List Char)
  | [] => []
  | [last] => if last.isEmpty then [] else [last]
  | piece :: rest => dropCarriageReturn piece :: linesOfPieces rest

/-- The lines of a text, without their endings. -/
def lines (text : List Char) : List (List Char) :=
  linesOfPieces (splitAll (· == '\n') text)

example : lines "a\r\nb\n\nc\r".toList = [['a'], ['b'], [], ['c', '\r']] := by decide

/-- The offsets at which the pieces between line feeds start, from `offset` on. -/
def startsOfPieces (offset : Nat) : List (List Char) → List Nat
  | [] => []
  | piece :: rest => offset :: startsOfPieces (offset + piece.length + 1) rest

/-- The offset of each line of a text, in characters; endings count as they are written. -/
def lineStarts (text : List Char) : List Nat :=
  startsOfPieces 0 (splitAll (· == '\n') text)

example : lineStarts "a\r\nb\nc".toList = [0, 3, 5] := by decide

def joinLines (lines : List (List Char)) : List Char := List.intercalate ['\n'] lines

end SourceIndex.Text
