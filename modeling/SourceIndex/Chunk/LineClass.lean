import SourceIndex.Language.Basic
import SourceIndex.Chunk.Basic

/-! What a line is, and what a stretch of lines mostly is. -/

namespace SourceIndex

inductive LineClass
  | blank
  | comment
  | importLine
  | code
  deriving DecidableEq, Repr

namespace LineClass

/-- What lines that import something start with, in any language. -/
def importLeads : List String :=
  ["import ", "from ", "use ", "#include", "require ", "require(", "using ", "extern crate"]

def isImport (language : Language) (trimmed : List Char) : Bool :=
  importLeads.any (fun lead => Text.startsWith trimmed lead.toList)
    || language.imports.rules.any (·.pattern.occursIn trimmed)

/-- The class of a line and of what is left of it without strings and comments. -/
def of (language : Language) (line : List Char) (stripped : Lexicon.Stripped) : LineClass :=
  let trimmed := Text.trim line
  if trimmed.isEmpty then .blank
  else if Text.isBlankText stripped.code && stripped.hasComment then .comment
  else if isImport language trimmed then .importLine
  else .code

def ofLines (language : Language) (lines : List (List Char)) : List LineClass :=
  (lines.zip (language.lexicon.stripLines .code lines)).map fun (line, stripped) =>
    of language line stripped

/-- The class that more than seven tenths of the lines have, blank lines left out. -/
def dominantType (classes : List LineClass) : ChunkType :=
  let imports := classes.count .importLine
  let comments := classes.count .comment
  let code := classes.count .code
  let total := imports + comments + code
  let dominates := fun (count : Nat) => 10 * count > 7 * total
  if total = 0 then .code
  else if dominates imports then .imports
  else if dominates comments then .comment
  else if dominates code then .code
  else .mixed

example : dominantType [.code, .blank, .comment] = .mixed := by decide

end LineClass

end SourceIndex
