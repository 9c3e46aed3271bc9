import SourceIndex.Complexity.Basic
import SourceIndex.Definition.Indentation
import SourceIndex.Text.Lines

/-! The measures of a file, taken in one pass over its lines. -/

namespace SourceIndex

structure ComplexityTally where
  mode : Lexicon.Mode := .code
  logicalLines : Nat := 0
  commentLines : Nat := 0
  blankLines : Nat := 0
  decisions : Nat := 0
  returns : Nat := 0
  depth : Nat := 0
  maxDepth : Nat := 0
  /-- The indentation of the lines of code, the latest first. -/
  indents : List Nat := []

namespace ComplexityTally

open Pattern

/-- A statement that ends a function. -/
def returnWord : Pattern := Language.keywords ["return"]

/-- The depth of braces and the deepest one so far, behind one more character. -/
def takeBrace (depths : Nat × Nat) (character : Char) : Nat × Nat :=
  let (depth, deepest) := depths
  if character = '\x7b' then (depth + 1, max deepest (depth + 1))
  else if character = '\x7d' then (depth - 1, deepest)
  else depths

/-- Takes a line that is neither blank nor a comment. -/
def takeLogical (language : Language) (tally : ComplexityTally) (line code : List Char) :
    ComplexityTally :=
  let tally := { tally with
    logicalLines := tally.logicalLines + 1
    decisions := tally.decisions + language.decisions.count code
    returns := tally.returns + returnWord.count code }
  if language.scopeStyle = .indentation then
    if code.isEmpty then tally else { tally with indents := indentWidth line :: tally.indents }
  else
    let (depth, maxDepth) := code.foldl takeBrace (tally.depth, tally.maxDepth)
    { tally with depth, maxDepth }

def take (language : Language) (tally : ComplexityTally) (line : List Char) : ComplexityTally :=
  let stripped := language.lexicon.strip tally.mode line
  let tally := { tally with mode := stripped.mode }
  let code := Text.trim stripped.code
  if Text.isBlankText line then { tally with blankLines := tally.blankLines + 1 }
  else if code.isEmpty && stripped.hasComment then
    { tally with commentLines := tally.commentLines + 1 }
  else tally.takeLogical language line code

/-- The smallest indentation that is used, by which the others are divided. -/
def indentUnit (tally : ComplexityTally) : Nat :=
  ((tally.indents.filter (0 < ·)).min?).getD tabWidth

def maxNesting (language : Language) (tally : ComplexityTally) : Nat :=
  if language.scopeStyle = .indentation then
    ((tally.indents.map (· / tally.indentUnit)).max?).getD 0
  else tally.maxDepth

end ComplexityTally

/-! ## Judgement -/

/-- How easy a file is to maintain, from zero to a hundred, with two places. It falls with the
number of lines and with the number of paths through them. -/
def maintainabilityIndex (logicalLines cyclomatic : Nat) : Float :=
  let lines := (max logicalLines 1).toFloat
  let volume := 10.0 * lines
  let index := 171.0 - 5.2 * volume.log - 0.23 * cyclomatic.toFloat - 16.2 * lines.log
  let bounded := if index < 0.0 then 0.0 else if index > 100.0 then 100.0 else index
  (bounded * 100.0).round / 100.0

structure ComplexityLimit where
  metric : String
  warning : Nat
  error : Nat

def cyclomaticLimit : ComplexityLimit := ⟨"cyclomatic", 10, 20⟩

def nestingLimit : ComplexityLimit := ⟨"nesting", 4, 6⟩

def lengthLimit : ComplexityLimit := ⟨"logical_lines", 300, 500⟩

def ComplexityLimit.check? (limit : ComplexityLimit) (value : Nat) : Option ComplexityIssue :=
  let issue := fun (severity : IssueSeverity) (threshold : Nat) => {
    metric := limit.metric
    severity
    value := value.toFloat
    threshold := threshold.toFloat
    message := limit.metric ++ " is " ++ toString value ++ " (threshold " ++ toString threshold
      ++ ")" : ComplexityIssue }
  if value > limit.error then some (issue .error limit.error)
  else if value > limit.warning then some (issue .warning limit.warning)
  else none

def measureComplexity (language : Language) (content : String) : ComplexityReport :=
  let tally := (Text.lines content.toList).foldl (ComplexityTally.take language) {}
  let cyclomatic := 1 + tally.decisions
  let maxNesting := tally.maxNesting language
  { logicalLines := tally.logicalLines
    commentLines := tally.commentLines
    blankLines := tally.blankLines
    cyclomatic
    maxNesting
    returnCount := tally.returns
    maintainabilityIndex := maintainabilityIndex tally.logicalLines cyclomatic
    issues := [cyclomaticLimit.check? cyclomatic, nestingLimit.check? maxNesting,
      lengthLimit.check? tally.logicalLines].filterMap id }

end SourceIndex
