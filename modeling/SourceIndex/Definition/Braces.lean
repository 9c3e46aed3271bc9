import SourceIndex.Definition.Scanning

/-! Definitions of languages whose scopes end with a closing brace. -/

namespace SourceIndex

/-- A definition whose block has not been opened yet. `parens` counts its open parentheses. -/
structure PendingBlock where
  definition : Nat
  parens : Int
  deriving DecidableEq, Repr

structure BraceScan where
  lineNumber : Nat
  findings : Findings := {}
  depth : Nat := 0
  mode : Lexicon.Mode := .code
  pending : Option PendingBlock := none
  decorators : List String := []

namespace BraceScan

/-- What a line may start with that goes on with the signature of the lines before. -/
def continuationLeads : List String :=
  ["\x7b", ")", "->", ":", "where", "throws", "extends", "implements", "=>", "&&", "||"]

def continuesSignature (code : List Char) : Bool :=
  continuationLeads.any fun lead => Text.startsWith code lead.toList

/-- Whether a line without a definition of its own belongs to the pending one. -/
def belongsTo (pending : PendingBlock) (code : List Char) (walk : BraceWalk) : Bool :=
  (pending.parens > 0 || continuesSignature code)
    && (walk.closes == 0 || code.head? == some '\x7b')

/-- Gives the pending definition its block if the line opens one, and ends the wait for a block if
the line ends the statement. -/
def takeContinuation (scan : BraceScan) (pending : PendingBlock) (code : List Char)
    (walk : BraceWalk) : BraceScan :=
  let scan := { scan with decorators := [] }
  if walk.opens > 0 then
    match walk.unclosed? with
    | some depth =>
      { scan with pending := none, findings := scan.findings.openScope pending.definition depth }
    | none =>
      { scan with
        pending := none
        findings := scan.findings.endAt pending.definition scan.lineNumber }
  else if code.getLast? = some ';' then { scan with pending := none }
  else
    let parens := pending.parens + parenBalance code
    { scan with pending := some { pending with parens } }

/-- Adds the definition of a line. Its block is the one that the line leaves open; a line without
any brace leaves it pending unless it ends the statement. -/
def takeDefinition (scan : BraceScan) (definition : Definition) (opensBlock : Bool)
    (code : List Char) (walk : BraceWalk) : BraceScan :=
  let place := scan.findings.definitions.size
  let scan := { scan with
    pending := none, decorators := [], findings := scan.findings.add definition }
  if opensBlock then
    match walk.unclosed? with
    | some depth => { scan with findings := scan.findings.openScope place depth }
    | none =>
      if walk.opens > 0 then { scan with findings := scan.findings.endAt place scan.lineNumber }
      else if code.getLast? = some ';' then scan
      else { scan with pending := some ⟨place, parenBalance code⟩ }
  else scan

/-- A line with neither a definition nor a continuation: it may be a decorator. -/
def takeOther (scan : BraceScan) (code : List Char) : BraceScan :=
  let decorators :=
    if code.head? = some '@' then scan.decorators ++ [String.ofList code] else []
  { scan with pending := none, decorators }

/-- Closes what the closing braces of a line close, and moves to the depth behind the line. -/
def closeScopes (scan : BraceScan) (walk : BraceWalk) : BraceScan :=
  { scan with
    findings := walk.closeDepths.reverse.foldl
      (fun findings depth => findings.closeFrom depth scan.lineNumber) scan.findings
    depth := scan.depth + walk.opens - walk.closes }

/-- Takes the code of a line, which has something besides blanks in it. -/
def takeCode (language : Language) (input : ScanInput) (scan : BraceScan) (line code : List Char)
    (walk : BraceWalk) : BraceScan :=
  let site := scan.findings.site input.fileId scan.lineNumber input.outer scan.decorators
  match Definition.recognize? language site line, scan.pending with
  | some (definition, opensBlock), _ => scan.takeDefinition definition opensBlock code walk
  | none, some pending =>
    if belongsTo pending code walk then scan.takeContinuation pending code walk
    else scan.takeOther code
  | none, none => scan.takeOther code

def take (language : Language) (input : ScanInput) (scan : BraceScan) (line : List Char) :
    BraceScan :=
  let stripped := language.lexicon.strip scan.mode line
  let walk := BraceWalk.ofLine scan.depth stripped.code
  let code := Text.trim stripped.code
  let scan := { scan with mode := stripped.mode }.closeScopes walk
  let scan := if code.isEmpty then scan else scan.takeCode language input line code walk
  { scan with lineNumber := scan.lineNumber + 1 }

end BraceScan

/-- The definitions of lines whose scopes are delimited by braces. Scopes that are never closed
end with the last line. -/
def scanBraces (language : Language) (input : ScanInput) : List Definition :=
  let final := input.lines.foldl (BraceScan.take language input) { lineNumber := input.firstLine }
  (final.findings.closeAll input.lastLine).definitions.toList

end SourceIndex
