import SourceIndex.Definition.Braces
import SourceIndex.Definition.Indentation
import SourceIndex.Proofs.Definition.Findings

/-! What a line does to the findings of a scan is made of few operations: it closes scopes, opens a
scope, and adds the definition that is recognized on it; with braces, it may also end a definition
whose block it closes again. What each of them keeps is kept by every line. -/

namespace SourceIndex

/-- Whether something holds of findings still when a line has closed scopes, opened one or added the
definition on it. Scopes that are closed end on the line `last`. -/
structure Findings.IsKeptOn (language : Language) (input : ScanInput) (line : List Char)
    (lineNumber last : Nat) (holds : Findings → Prop) : Prop where
  closeFrom : ∀ findings depth, holds findings → holds (findings.closeFrom depth last)
  openScope : ∀ findings definition depth, holds findings →
    holds (findings.openScope definition depth)
  add : ∀ findings decorators definition opensBlock,
    Definition.recognize? language
        (findings.site input.fileId lineNumber input.outer decorators) line =
      some (definition, opensBlock) →
    holds findings → holds (findings.add definition)

variable {language : Language} {input : ScanInput} {line : List Char} {holds : Findings → Prop}

/-! ## Scopes with braces -/

namespace BraceScan

variable {scan : BraceScan}
  (kept : Findings.IsKeptOn language input line scan.lineNumber scan.lineNumber holds)
  (ends : ∀ findings definition, holds findings →
    holds (findings.endAt definition scan.lineNumber))

include kept

theorem holds_closeScopes (walk : BraceWalk) (start : holds scan.findings) :
    holds (scan.closeScopes walk).findings := by
  simp only [closeScopes]
  generalize walk.closeDepths.reverse = depths
  generalize scan.findings = findings at start
  induction depths generalizing findings with
  | nil => exact start
  | cons depth depths induction => exact induction _ (kept.closeFrom findings depth start)

include ends

theorem holds_takeContinuation (pending : PendingBlock) (code : List Char) (walk : BraceWalk)
    (start : holds scan.findings) : holds (scan.takeContinuation pending code walk).findings := by
  simp only [takeContinuation]
  split
  · split
    · exact kept.openScope _ _ _ start
    · exact ends _ _ start
  · split <;> exact start

theorem holds_takeDefinition {definition : Definition} {opensBlock : Bool} (code : List Char)
    (walk : BraceWalk) (added : holds (scan.findings.add definition)) :
    holds (scan.takeDefinition definition opensBlock code walk).findings := by
  simp only [takeDefinition]
  split
  · split
    · exact kept.openScope _ _ _ added
    · split
      · exact ends _ _ added
      · split <;> exact added
  · exact added

theorem holds_takeCode (code : List Char) (walk : BraceWalk) (start : holds scan.findings) :
    holds (scan.takeCode language input line code walk).findings := by
  simp only [takeCode]
  split
  · next recognized =>
      exact holds_takeDefinition kept ends code walk (kept.add _ _ _ _ recognized start)
  · split
    · exact holds_takeContinuation kept ends _ code walk start
    · exact start
  · exact start

/-- What the operations keep is kept by a line. -/
theorem holds_take (start : holds scan.findings) :
    holds (scan.take language input line).findings := by
  let stripped := language.lexicon.strip scan.mode line
  let walk := BraceWalk.ofLine scan.depth stripped.code
  let before : BraceScan := { scan with mode := stripped.mode }
  have closed : holds (before.closeScopes walk).findings := holds_closeScopes kept walk start
  simp only [take]
  split
  · exact closed
  · exact @holds_takeCode language input line holds (before.closeScopes walk) kept ends _ walk closed

end BraceScan

/-- What is kept on every line, and when all scopes are closed, holds of what a scan yields. -/
theorem holds_scanBraces
    (kept : ∀ line lineNumber, Findings.IsKeptOn language input line lineNumber lineNumber holds)
    (ends : ∀ findings definition line, holds findings → holds (findings.endAt definition line))
    (closes : ∀ findings line, holds findings → holds (findings.closeAll line))
    (start : holds {}) :
    ∃ findings, scanBraces language input = findings.definitions.toList ∧ holds findings := by
  have all : ∀ (lines : List (List Char)) (scan : BraceScan), holds scan.findings →
      holds (lines.foldl (BraceScan.take language input) scan).findings := by
    intro lines
    induction lines with
    | nil => exact fun _ reached => reached
    | cons line lines induction =>
        exact fun scan reached => induction _ (BraceScan.holds_take (kept line _)
          (fun _ definition => ends _ definition _) reached)
  exact ⟨_, rfl, closes _ _ (all input.lines { lineNumber := input.firstLine } start)⟩

/-! ## Scopes with indentation -/

namespace IndentScan

variable {scan : IndentScan}
  (kept : Findings.IsKeptOn language input line scan.lineNumber scan.lastCodeLine holds)

include kept

theorem holds_takeStatement (code : List Char) (start : holds scan.findings) :
    holds (scan.takeStatement language input line code).findings := by
  have closed := kept.closeFrom _ (indentWidth line) start
  simp only [takeStatement]
  split
  · exact closed
  · split
    · next recognized =>
        have added := kept.add _ _ _ _ recognized closed
        split
        · exact kept.openScope _ _ _ added
        · exact added
    · exact closed

/-- What the operations keep is kept by a line. -/
theorem holds_take (start : holds scan.findings) :
    holds (scan.take language input line).findings := by
  let stripped := language.lexicon.strip scan.mode line
  let before : IndentScan := { scan with
    mode := stripped.mode
    brackets := ((scan.brackets : Int) + allBracketBalance stripped.code).toNat }
  simp only [take]
  split
  · exact start
  · split
    · exact start
    · exact @holds_takeStatement language input line holds before kept _ start

end IndentScan

/-- What is kept on every line, and when all scopes are closed, holds of what a scan yields. -/
theorem holds_scanIndentation
    (kept : ∀ line lineNumber last, Findings.IsKeptOn language input line lineNumber last holds)
    (closes : ∀ findings line, holds findings → holds (findings.closeAll line))
    (start : holds {}) :
    ∃ findings, scanIndentation language input = findings.definitions.toList ∧ holds findings := by
  have all : ∀ (lines : List (List Char)) (scan : IndentScan), holds scan.findings →
      holds (lines.foldl (IndentScan.take language input) scan).findings := by
    intro lines
    induction lines with
    | nil => exact fun _ reached => reached
    | cons line lines induction =>
        exact fun scan reached => induction _ (IndentScan.holds_take (kept line _ _) reached)
  exact ⟨_, rfl, closes _ _
    (all input.lines { lineNumber := input.firstLine, lastCodeLine := input.firstLine } start)⟩

end SourceIndex
