import SourceIndex.Definition.Scanning

/-! Definitions of languages whose scopes end where the indentation does. -/

namespace SourceIndex

def tabWidth : Nat := 4

def indentWidth (line : List Char) : Nat :=
  (line.takeWhile fun character => character == ' ' || character == '\t').foldl
    (fun width character => width + if character == '\t' then tabWidth else 1) 0

structure IndentScan where
  lineNumber : Nat
  findings : Findings := {}
  mode : Lexicon.Mode := .code
  /-- Brackets that are still open; inside them a line goes on. -/
  brackets : Nat := 0
  lastCodeLine : Nat
  decorators : List String := []

namespace IndentScan

/-- Takes the first line of a statement: it closes the scopes that are not indented less, and may
hold a decorator or a definition. -/
def takeStatement (language : Language) (input : ScanInput) (scan : IndentScan)
    (line code : List Char) : IndentScan :=
  let indent := indentWidth line
  let findings := scan.findings.closeFrom indent scan.lastCodeLine
  let scan := { scan with findings, lastCodeLine := scan.lineNumber }
  if code.head? = some '@' then
    { scan with decorators := scan.decorators ++ [String.ofList code] }
  else
    let site := findings.site input.fileId scan.lineNumber input.outer scan.decorators
    match Definition.recognize? language site line with
    | some (definition, opensBlock) =>
      let place := findings.definitions.size
      let findings := findings.add definition
      let findings := if opensBlock then findings.openScope place indent else findings
      { scan with findings, decorators := [] }
    | none => { scan with decorators := [] }

/-- Takes one line. Lines without code change nothing but the mode, and those that go on with a
string or inside brackets are part of the statement before. -/
def take (language : Language) (input : ScanInput) (scan : IndentScan) (line : List Char) :
    IndentScan :=
  let stripped := language.lexicon.strip scan.mode line
  let code := Text.trim stripped.code
  let goesOn := scan.mode != .code || scan.brackets > 0
  let scan := { scan with mode := stripped.mode }
  let scan :=
    if code.isEmpty then scan
    else
      let scan := { scan with
        brackets := ((scan.brackets : Int) + allBracketBalance stripped.code).toNat }
      if goesOn then { scan with lastCodeLine := scan.lineNumber }
      else scan.takeStatement language input line code
  { scan with lineNumber := scan.lineNumber + 1 }

end IndentScan

/-- The definitions of lines whose scopes are delimited by indentation. Scopes end with the last
line that holds code. -/
def scanIndentation (language : Language) (input : ScanInput) : List Definition :=
  let final := input.lines.foldl (IndentScan.take language input)
    { lineNumber := input.firstLine, lastCodeLine := input.firstLine }
  (final.findings.closeAll final.lastCodeLine).definitions.toList

end SourceIndex
