import Mathlib.Data.List.Induction
import SourceIndex.Proofs.Dependency.Moving
import SourceIndex.Proofs.Text.Trimming
import SourceIndex.Language.Ecmascript
import SourceIndex.Proofs.Pattern.Stretches

/-! Statements that go on over several lines. Such a statement takes all lines up to the one that
closes it, whatever stands on them, unless it has grown too large before; the lines below are read
as if it had not been there. The statements of scripts all have the name of another file between
quotes, so that lines without quotes ask for nothing. -/

namespace SourceIndex.Dependency

/-! ## Lines in one statement -/

theorem byteSize_append (front back : List Char) :
    Text.byteSize (front ++ back) = Text.byteSize front + Text.byteSize back := by
  induction back using List.reverseRecOn with
  | nil => exact congrArg Text.byteSize (List.append_nil front)
  | append_singleton back last induction =>
      have concat : ∀ text, Text.byteSize (text ++ [last]) = Text.byteSize text + last.utf8Size :=
        fun text => List.foldl_append
      rw [← List.append_assoc, concat, concat, induction, Nat.add_assoc]

/-- The text that lines add to a statement. -/
def joinedText (lines : List (List Char)) : List Char :=
  lines.flatMap fun line => ' ' :: Text.trim line

theorem joinedText_append (front back : List (List Char)) :
    joinedText (front ++ back) = joinedText front ++ joinedText back :=
  List.flatMap_append

/-- What holds of a blank and of all characters of some lines holds of their text. -/
theorem forall_mem_joinedText {holds : Char → Prop} {lines : List (List Char)} (blank : holds ' ')
    (inLines : ∀ line ∈ lines, ∀ character ∈ line, holds character) :
    ∀ character ∈ joinedText lines, holds character := by
  intro character member
  rcases List.mem_flatMap.mp member with ⟨line, isLine, member⟩
  rcases List.mem_cons.mp member with rfl | member
  · exact blank
  · rcases Text.exists_trim line with ⟨front, back, parts, -⟩
    apply inLines line isLine character
    rw [parts]
    exact List.mem_append_left _ (List.mem_append_right _ member)

/-- Whether a line closes the statement that goes on there. -/
def closesStatement (language : Language) (line : List Char) : Bool :=
  language.imports.continuation.any (·.closing.occursIn line)

namespace Statement

/-- The statement with the text of lines below. -/
def extend (statement : Statement) (lines : List (List Char)) : Statement :=
  { statement with text := statement.text ++ joinedText lines }

/-- Whether a statement may still go on. -/
def Fits (statement : Statement) : Prop := Text.byteSize statement.text ≤ Scan.maxPendingSize

instance (statement : Statement) : Decidable statement.Fits := inferInstanceAs (Decidable (_ ≤ _))

/-- Whether a line is the last one that is joined with a statement. -/
def EndsAt (language : Language) (statement : Statement) (line : List Char) : Prop :=
  closesStatement language line = true ∨ ¬ (statement.extend [line]).Fits

instance (language : Language) (statement : Statement) (line : List Char) :
    Decidable (statement.EndsAt language line) := inferInstanceAs (Decidable (_ ∨ _))

/-- How many of the lines below a statement are joined with it. -/
def reach (language : Language) (statement : Statement) : List (List Char) → Nat
  | [] => 0
  | line :: lines =>
    if statement.EndsAt language line then 1
    else (statement.extend [line]).reach language lines + 1

variable {language : Language} {statement : Statement}

theorem extend_nil (statement : Statement) : statement.extend [] = statement := by
  rw [extend, joinedText, List.flatMap_nil, List.append_nil]

theorem extend_extend (statement : Statement) (front back : List (List Char)) :
    (statement.extend front).extend back = statement.extend (front ++ back) := by
  simp only [extend, joinedText_append, List.append_assoc]

theorem extend_singleton (statement : Statement) (line : List Char) :
    statement.extend [line] =
      { statement with text := statement.text ++ ' ' :: Text.trim line } := by
  simp [extend, joinedText]

/-- Only text is added to a statement. -/
theorem Fits.of_extend {lines : List (List Char)} (fits : (statement.extend lines).Fits) :
    statement.Fits := by
  rw [Fits, extend, byteSize_append] at fits
  exact Nat.le_of_add_right_le fits

theorem endsAt_iff (language : Language) (statement : Statement) (line : List Char) :
    statement.EndsAt language line ↔ (language.imports.continuation.any (·.closing.occursIn line) ||
      Text.byteSize (statement.text ++ ' ' :: Text.trim line) > Scan.maxPendingSize) = true := by
  rw [EndsAt, extend_singleton, Fits, Bool.or_eq_true, decide_eq_true_iff, Nat.not_le]
  rfl

theorem joined_cons (language : Language) (statement : Statement) (line : List Char)
    (lines : List (List Char)) :
    statement.joined language (line :: lines) =
      if statement.EndsAt language line then statement.extend [line]
      else (statement.extend [line]).joined language lines := by
  simp only [joined, endsAt_iff, extend_singleton]

theorem joined_cons_of_closes {line : List Char} (closes : closesStatement language line = true)
    (lines : List (List Char)) :
    statement.joined language (line :: lines) = statement.extend [line] := by
  rw [joined_cons, if_pos (.inl closes)]

/-- A statement takes the lines that it reaches. -/
theorem joined_eq_extend (language : Language) (statement : Statement)
    (lines : List (List Char)) : statement.joined language lines =
      statement.extend (lines.take (statement.reach language lines)) := by
  induction lines generalizing statement with
  | nil =>
      rw [List.take_nil, extend_nil]
      rfl
  | cons line lines induction =>
      rw [joined_cons, reach]
      split
      · rfl
      · rw [induction, extend_extend, List.take_succ_cons]
        rfl

/-- Lines that neither close a statement nor make it too large are joined with it. -/
theorem joined_append {front : List (List Char)}
    (goesOn : ∀ line ∈ front, closesStatement language line = false)
    (fits : (statement.extend front).Fits) (back : List (List Char)) :
    statement.joined language (front ++ back) = (statement.extend front).joined language back ∧
      statement.reach language (front ++ back) =
        front.length + (statement.extend front).reach language back := by
  induction front generalizing statement with
  | nil => simp [extend_nil]
  | cons line front induction =>
      rw [List.forall_mem_cons] at goesOn
      rw [← List.singleton_append (x := line), ← extend_extend] at fits
      have later := induction goesOn.2 fits
      have notLast : ¬ statement.EndsAt language line := by
        simp [EndsAt, goesOn.1, fits.of_extend]
      rw [extend_extend, List.singleton_append] at later
      rw [List.cons_append, joined_cons, reach, if_neg notLast, if_neg notLast, later.1, later.2,
        List.length_cons]
      exact ⟨rfl, Nat.add_right_comm _ _ _⟩

/-- Lines that make a statement too large, without closing it, are joined with it in part. -/
theorem exists_joined_of_not_fits {front : List (List Char)}
    (goesOn : ∀ line ∈ front, closesStatement language line = false)
    (fits : statement.Fits) (large : ¬ (statement.extend front).Fits) (back : List (List Char)) :
    ∃ first later, front = first ++ later ∧
      statement.joined language (front ++ back) = statement.extend first ∧
      statement.reach language (front ++ back) = first.length := by
  induction front generalizing statement with
  | nil =>
      rw [extend_nil] at large
      exact absurd fits large
  | cons line front induction =>
      rw [List.forall_mem_cons] at goesOn
      rw [List.cons_append, joined_cons, reach]
      by_cases small : (statement.extend [line]).Fits
      · have notLast : ¬ statement.EndsAt language line := by simp [EndsAt, goesOn.1, small]
        rw [← List.singleton_append (x := line), ← extend_extend] at large
        rcases induction goesOn.2 small large with ⟨first, later, rfl, joined, reach⟩
        rw [extend_extend, List.singleton_append] at joined
        rw [if_neg notLast, if_neg notLast, joined, reach]
        exact ⟨line :: first, later, rfl, rfl, rfl⟩
      · rw [if_pos (.inr small), if_pos (.inr small)]
        exact ⟨[line], front, rfl, rfl, rfl⟩

end Statement

/-! ## What is joined, and what lies below -/

variable {language : Language} {fileId : String}

namespace Scan

variable {scan : Scan} {statement : Statement}

theorem take_of_pending (isPending : scan.pending = some statement) (line : List Char) :
    scan.take language fileId line =
      let taken := { scan with lineNumber := scan.lineNumber + 1 }
      if statement.EndsAt language line then
        { taken with pending := none }.add (ofStatement language fileId (statement.extend [line]))
      else { taken with pending := some (statement.extend [line]) } := by
  simp only [take, isPending, takePending, Statement.endsAt_iff, Statement.extend_singleton]
  split <;> rfl

/-- The lines that a statement does not take are read as if they stood below nothing. -/
theorem finish_foldl_of_pending (single : HasSingleTargets language) (lines : List (List Char))
    {count : Nat} (lineNumber : scan.lineNumber = count + 1) (outside : scan.inBlock = false)
    (isPending : scan.pending = some statement) :
    (lines.foldl (take language fileId) scan).finish language fileId =
      scan.dependencies ++ ofStatement language fileId (statement.joined language lines) ++
        (ofLines language fileId (lines.drop (statement.reach language lines))).map
          (moved (count + statement.reach language lines)) := by
  induction lines generalizing scan statement count with
  | nil =>
      have nothing : ofLines language fileId [] = [] := rfl
      rw [List.foldl_nil, dependencies_finish, isPending, List.drop_nil, nothing]
      exact (List.append_nil _).symm
  | cons line lines induction =>
      have number : scan.lineNumber + 1 = count + 1 + 1 := congrArg (· + 1) lineNumber
      let taken : Scan := { scan with lineNumber := scan.lineNumber + 1 }
      rw [List.foldl_cons, take_of_pending isPending, Statement.joined_cons, Statement.reach]
      by_cases last : statement.EndsAt language line
      · rw [if_pos last, if_pos last, if_pos last]
        have between : IsBetween (count + 1)
            (scan.dependencies ++ ofStatement language fileId (statement.extend [line]))
            ({ taken with pending := none }.add
              (ofStatement language fileId (statement.extend [line]))) :=
          ⟨number, outside, rfl, dependencies_add _⟩
        exact between.finish single lines
      · rw [if_neg last, if_neg last, if_neg last, List.drop_succ_cons]
        let waiting : Scan := { taken with pending := some (statement.extend [line]) }
        have below := @induction waiting _ _ number outside rfl
        rw [Nat.add_right_comm] at below
        exact below

end Scan

/-- Whether a line opens a statement that goes on below. -/
structure IsOpening (language : Language) (line : List Char) : Prop where
  visible : (Text.trimStart line).isEmpty = false
  code : Scan.isLineComment language (Text.trimStart line) = false
  block : language.imports.block = none
  continuation : language.imports.continuation.any (·.opening.occursIn line) = true

/-- The statement that a line opens takes lines below it, and the others are read on their own. -/
theorem ofLines_of_opening (single : HasSingleTargets language) {line : List Char}
    (opening : IsOpening language line) (lines : List (List Char)) :
    let statement : Statement := ⟨Text.trim line, 1⟩
    let reach := statement.reach language lines
    ofLines language fileId (line :: lines) =
      ofStatement language fileId (statement.joined language lines) ++
        (ofLines language fileId (lines.drop reach)).map (moved (1 + reach)) := by
  have opened : Scan.take language fileId {} line =
      { pending := some ⟨Text.trim line, 1⟩, lineNumber := 2 } := by
    simp [Scan.take, Scan.takeFreeLine, Scan.takeStatementLine, opening.visible, opening.code,
      opening.block, opening.continuation]
  rw [ofLines, List.foldl_cons, opened]
  exact Scan.finish_foldl_of_pending single lines rfl rfl rfl

/-- What starts on a line that opens a statement is what the statement, with all the lines that it
takes, is read as. -/
theorem onLine_of_opening {content : String} {above below : List (List Char)} {line : List Char}
    (isFile : Text.lines content.toList = above ++ line :: below)
    (opening : IsOpening language line)
    (free : (above.foldl (Scan.take language fileId) {}).pending = none) :
    let number := above.length + 1
    Scan.onLine number (extractDependencies language fileId content) =
      ofStatement language fileId
        ((⟨Text.trim line, number⟩ : Statement).joined language below) := by
  have numbered : (above.foldl (Scan.take language fileId) {}).IsNumbered :=
    Scan.isNumbered_start.takeAll above
  have number : (above.foldl (Scan.take language fileId) {}).lineNumber = above.length + 1 :=
    (Scan.lineNumber_foldl language fileId above {}).trans (Nat.add_comm _ _)
  have started : Scan.startedBy language fileId (above.foldl (Scan.take language fileId) {}) line
      below = ofStatement language fileId
        ((⟨Text.trim line, above.length + 1⟩ : Statement).joined language below) := by
    simp [Scan.startedBy, Scan.ofOpeningLine, free, opening.visible, opening.code, opening.block,
      opening.continuation, number]
  intro here
  rw [← started, ← Scan.onLine_finish_take numbered line below, number]
  simp only [extractDependencies, isFile, List.foldl_append, List.foldl_cons, here]

end SourceIndex.Dependency

/-! ## Scripts -/

namespace SourceIndex.Dependency

open SourceIndex.Language Pattern

/-- Whether a language has the imports and the line comments of scripts. -/
structure IsScript (language : Language) : Prop where
  imports : language.imports = Ecmascript.imports
  comments : language.lexicon.lineComments = [['/', '/']]

theorem isScript_of_mem {language : Language} (member : language ∈ [javascript, typescript]) :
    IsScript language := by
  simp only [List.mem_cons, List.not_mem_nil, or_false] at member
  rcases member with rfl | rfl <;> exact ⟨rfl, rfl⟩

def scriptQuotes : List Char := ['\'', '"', '\x60']

theorem isBlank_scriptQuote {quote : Char} (isQuote : quote ∈ scriptQuotes) :
    Text.isBlank quote = false := by
  simp only [scriptQuotes, List.mem_cons, List.not_mem_nil, or_false] at isQuote
  rcases isQuote with rfl | rfl | rfl <;> rfl

/-- The quotes around the name of another file. -/
def quoteSet : CharacterSet := among ['\'', '"', '\x60']

theorem has_quoteSet (character : Char) :
    quoteSet.has character = decide (character ∈ scriptQuotes) :=
  (CharacterSet.has_characters scriptQuotes false character).trans (Bool.bne_false _)

namespace IsScript

variable {language : Language} (script : IsScript language)
include script

theorem hasSingleTargets : HasSingleTargets language := by
  rw [HasSingleTargets, script.imports]
  decide

/-- A line of a script that starts a statement over several lines. -/
theorem isOpening {line : List Char} (visible : (Text.trimStart line).isEmpty = false)
    (code : Text.startsWith (Text.trimStart line) ['/', '/'] = false)
    (opens : Ecmascript.imports.continuation.any (·.opening.occursIn line) = true) :
    IsOpening language line where
  visible := visible
  code := by simp [Scan.isLineComment, script.comments, code]
  block := by rw [script.imports]; rfl
  continuation := by rwa [script.imports]

/-- Only a line with a quote closes a statement. -/
theorem closesStatement_eq_false {line : List Char}
    (noQuotes : ∀ character ∈ line, character ∉ scriptQuotes) :
    closesStatement language line = false := by
  rw [closesStatement, script.imports]
  exact occursIn_eq_false_of_requires quoteSet (by decide) fun character member =>
    (has_quoteSet character).trans (decide_eq_false (noQuotes character member))

theorem find?_eq_none_of_no_quotes {text : List Char}
    (noQuotes : ∀ character ∈ text, character ∉ scriptQuotes) :
    ∀ rule ∈ language.imports.rules, rule.pattern.find? text = none := by
  rw [script.imports]
  intro rule member
  have needsQuote : ∀ rule ∈ Ecmascript.importRules, rule.pattern.requires quoteSet = true := by
    decide
  exact find?_eq_none_of_requires (needsQuote rule member) fun character inText =>
    (has_quoteSet character).trans (decide_eq_false (noQuotes character inText))

/-- A statement without quotes asks for nothing. -/
theorem ofStatement_eq_nil {fileId : String} {statement : Statement}
    (noQuotes : ∀ character ∈ statement.text, character ∉ scriptQuotes) :
    ofStatement language fileId statement = [] :=
  ofStatement_of_none (fittingRule?_eq_none (script.find?_eq_none_of_no_quotes noQuotes))

/-- A line without quotes and opening braces asks for nothing and opens nothing. -/
theorem isQuiet {line : List Char} (noQuotes : ∀ character ∈ line, character ∉ scriptQuotes)
    (noBrace : ∀ character ∈ line, character ≠ '\x7b') : IsQuiet language line where
  block := by rw [script.imports]; rfl
  continuation := by
    rw [script.imports]
    refine occursIn_eq_false_of_requires (.single '\x7b') (by decide) ?_
    intro character member
    rw [Bool.eq_false_iff]
    exact fun has => noBrace character member (CharacterSet.eq_of_has_single has)
  rules := script.find?_eq_none_of_no_quotes noQuotes

end IsScript

end SourceIndex.Dependency
