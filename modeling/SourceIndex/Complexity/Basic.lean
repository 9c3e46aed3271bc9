/-! Measures of how hard a file is to read. -/

namespace SourceIndex

inductive IssueSeverity
  | warning
  | error
  deriving DecidableEq, Repr

namespace IssueSeverity

def tag : IssueSeverity → String
  | warning => "warning"
  | error => "error"

def ofTag? (word : String) : Option IssueSeverity := [warning, error].find? (·.tag == word)

end IssueSeverity

/-- A measure that lies above a threshold. -/
structure ComplexityIssue where
  metric : String
  severity : IssueSeverity
  value : Float
  threshold : Float
  message : String

structure ComplexityReport where
  logicalLines : Nat
  commentLines : Nat
  blankLines : Nat
  /-- One more than the number of decisions. -/
  cyclomatic : Nat
  maxNesting : Nat
  returnCount : Nat
  maintainabilityIndex : Float
  issues : List ComplexityIssue

end SourceIndex
