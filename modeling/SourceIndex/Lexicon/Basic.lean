import SourceIndex.Text.Trim

/-! How a language writes comments and strings, and what is left of a line once both are taken
out. -/

namespace SourceIndex

/-- The marks between which text is a string. One that may span lines goes on until its mark is met;
any other ends with its line. -/
structure StringStyle where
  delimiter : List Char
  spansLines : Bool
  deriving DecidableEq, Repr

structure Lexicon where
  /-- Marks from which the rest of a line is a comment. -/
  lineComments : List (List Char) := []
  blockComment : Option (List Char × List Char) := none
  /-- String marks that start a documentation block when they open a line. -/
  docMarks : List (List Char) := []
  strings : List StringStyle := []
  /-- Single quotes enclose one character, and are no string mark otherwise. -/
  quotedCharacters : Bool := false
  deriving DecidableEq, Repr

namespace Lexicon

inductive Mode
  | code
  | blockComment
  | docBlock (mark : List Char)
  | string (style : StringStyle)
  deriving DecidableEq, Repr

structure Stripped where
  code : List Char
  hasComment : Bool
  /-- The mode in which the next line starts. -/
  mode : Mode
  deriving DecidableEq, Repr

/-- How many characters a quoted character at the start of a text takes, if there is one. What
follows a backslash, up to the closing quote, may fill ten bytes. -/
def quotedLength? : List Char → Option Nat
  | '\'' :: '\\' :: escaped :: rest =>
    let body := rest.takeWhile (· ≠ '\'')
    if body.length < rest.length ∧ Text.byteSize (escaped :: body) ≤ 10 then some (body.length + 4) else none
  | '\'' :: _ :: '\'' :: _ => some 3
  | _ => none

example : quotedLength? "'a' + 1".toList = some 3 := by decide
example : quotedLength? "'a str".toList = none := by decide
example : quotedLength? "'\\u00e9'".toList = some 8 := by decide

/-- What is done at one character: the code it contributes, the mode and the number of characters
that follow from it, and whether it belongs to a comment. -/
structure Step where
  code : List Char
  mode : Mode
  skip : Nat
  isComment : Bool

def Step.take (length : Nat) (mode : Mode) (isComment : Bool) (code : List Char) : Step :=
  ⟨code, mode, length - 1, isComment⟩

/-- A backslash takes the next character along. -/
def escapeLength (character : Char) : Nat := if character = '\\' then 2 else 1

/-- The step at the first character of `text`, which is not empty, unless a line comment starts
there. -/
def stepAt? (lexicon : Lexicon) (mode : Mode) (character : Char) (text : List Char) : Option Step :=
  match mode with
  | .blockComment =>
    match lexicon.blockComment with
    | some (_, closing) =>
      if Text.startsWith text closing then some (.take closing.length .code true [])
      else some (.take 1 .blockComment true [])
    | none => some (.take 1 .blockComment true [])
  | .docBlock mark =>
    if Text.startsWith text mark then some (.take mark.length .code true [])
    else some (.take (escapeLength character) mode true [])
  | .string style =>
    if character = '\\' then some (.take 2 mode false [])
    else if Text.startsWith text style.delimiter then
      some (.take style.delimiter.length .code false [' '])
    else some (.take 1 mode false [])
  | .code =>
    if lexicon.lineComments.any (Text.startsWith text ·) then none
    else
      match lexicon.blockComment.filter fun marks => Text.startsWith text marks.1 with
      | some (opening, _) => some (.take opening.length .blockComment true [])
      | none =>
        if lexicon.quotedCharacters && character == '\'' then
          match quotedLength? text with
          | some length => some (.take length .code false [' '])
          | none => some (.take 1 .code false ['\''])
        else
          match lexicon.strings.find? fun style => Text.startsWith text style.delimiter with
          | some style => some (.take style.delimiter.length (.string style) false [])
          | none => some (.take 1 .code false [character])

/-- Strips what is left of a line, leaving out the next `skip` characters. -/
def stripFrom (lexicon : Lexicon) (mode : Mode) : (skip : Nat) → List Char → Stripped
  | _, [] => ⟨[], false, mode⟩
  | skip + 1, _ :: rest => lexicon.stripFrom mode skip rest
  | 0, character :: rest =>
    match lexicon.stepAt? mode character (character :: rest) with
    | none => ⟨[], true, mode⟩
    | some step =>
      let later := lexicon.stripFrom step.mode step.skip rest
      ⟨step.code ++ later.code, step.isComment || later.hasComment, later.mode⟩

/-- A string that may not span lines ends with its line. -/
def Mode.atLineEnd : Mode → Mode
  | .string style => if style.spansLines then .string style else .code
  | mode => mode

/-- The documentation mark that opens a line, and how many characters it takes with the blanks in
front of it. -/
def docOpening? (lexicon : Lexicon) (line : List Char) : Option (List Char × Nat) :=
  let trimmed := Text.trimStart line
  (lexicon.docMarks.find? (Text.startsWith trimmed ·)).map fun mark =>
    (mark, line.length - trimmed.length + mark.length)

/-- Takes strings and comments out of a line that starts in the given mode. A string leaves one
blank where it ends. -/
def strip (lexicon : Lexicon) (mode : Mode) (line : List Char) : Stripped :=
  let stripped :=
    match mode, lexicon.docOpening? line with
    | .code, some (mark, length) =>
      { lexicon.stripFrom (.docBlock mark) length line with hasComment := true }
    | _, _ => lexicon.stripFrom mode 0 line
  { stripped with mode := stripped.mode.atLineEnd }

def stripLines (lexicon : Lexicon) (mode : Mode) : List (List Char) → List Stripped
  | [] => []
  | line :: lines =>
    let stripped := lexicon.strip mode line
    stripped :: lexicon.stripLines stripped.mode lines

end Lexicon

end SourceIndex
