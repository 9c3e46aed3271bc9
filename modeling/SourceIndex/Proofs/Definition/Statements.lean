import SourceIndex.Proofs.Definition.Blocks

/-! Which lines of an indented text start a statement, and what a scan does on them. A line goes on
with the statement above it if it starts inside a string or inside brackets. A scan counts the
brackets of each line and carries on what is left, which falls short of the brackets that are open
by the closing ones that meet no open one. -/

namespace SourceIndex

/-! ## Brackets -/

/-- A bracket of any kind as a brace, and anything else as a blank. -/
def asBrace (character : Char) : Char :=
  if character ∈ ['(', '[', '\x7b'] then '\x7b'
  else if character ∈ [')', ']', '\x7d'] then '\x7d'
  else ' '

theorem asBrace_of_isBlank {character : Char} (blank : Text.isBlank character = true) :
    asBrace character = ' ' := by
  have noBlank : (['(', '[', '\x7b'] ++ [')', ']', '\x7d']).any Text.isBlank = false := by decide
  have other : character ∉ ['(', '[', '\x7b'] ++ [')', ']', '\x7d'] := by
    intro member
    rw [List.any_eq_true.mpr ⟨character, member, blank⟩] at noBlank
    cases noBlank
  rw [List.mem_append, not_or] at other
  rw [asBrace, if_neg other.1, if_neg other.2]

theorem allBracketBalance_eq (code : List Char) : allBracketBalance code =
    ((code.map asBrace).count '\x7b' : Int) - (code.map asBrace).count '\x7d' := by
  induction code using List.reverseRecOn with
  | nil => rfl
  | append_singleton code last induction =>
      rw [allBracketBalance, bracketBalance] at induction ⊢
      rw [List.foldl_concat, induction, List.map_append, List.count_append, List.count_append,
        List.map_singleton, asBrace]
      split
      · simp
        omega
      · split
        · simp
          omega
        · simp

/-- The brackets of a line, added to those in front of it, fall short of the depth behind the line by
the surplus ones. -/
theorem toNat_add_allBracketBalance (depth : Nat) (code : List Char) :
    ((depth : Int) + allBracketBalance code).toNat =
      depthBehind depth (code.map asBrace) - surplus depth (code.map asBrace) := by
  have counts := depthBehind_add_count depth (code.map asBrace)
  rw [allBracketBalance_eq]
  omega

theorem allBracketBalance_of_blank {code : List Char} (blank : (Text.trim code).isEmpty = true) :
    allBracketBalance code = 0 := by
  rcases Text.exists_trim code with ⟨front, back, parts, blanks⟩
  rw [List.isEmpty_iff.mp blank, List.append_nil] at parts
  have none : ∀ character ∈ code.map asBrace, character = ' ' := by
    intro character member
    rcases List.mem_map.mp member with ⟨original, inCode, rfl⟩
    exact asBrace_of_isBlank (blanks original (parts ▸ inCode))
  have opening : (code.map asBrace).count '\x7b' = 0 :=
    List.count_eq_zero.mpr fun member => absurd (none _ member) (by decide)
  have closing : (code.map asBrace).count '\x7d' = 0 :=
    List.count_eq_zero.mpr fun member => absurd (none _ member) (by decide)
  rw [allBracketBalance_eq, opening, closing]
  rfl

namespace IndentScan

open BraceScan (codeLines length_codeLines)

variable (language : Language) (input : ScanInput)

/-- How many brackets are open in front of a line. -/
def openBrackets (index : Nat) : Nat :=
  depthBehind 0 (((codeLines language input).take index).flatten.map asBrace)

/-- What is left of the brackets above a line when they are counted line by line. -/
def carriedBrackets (index : Nat) : Nat :=
  ((codeLines language input).take index).foldl
    (fun count code => ((count : Int) + allBracketBalance code).toNat) 0

variable {language input} {index : Nat} {line code : List Char}

theorem openBrackets_succ (isCode : (codeLines language input)[index]? = some code) :
    openBrackets language input (index + 1) =
      depthBehind (openBrackets language input index) (code.map asBrace) := by
  rw [openBrackets, flatten_take_succ isCode, List.map_append, depthBehind_append]
  rfl

theorem carriedBrackets_succ (isCode : (codeLines language input)[index]? = some code) :
    carriedBrackets language input (index + 1) =
      ((carriedBrackets language input index : Int) + allBracketBalance code).toNat := by
  rw [carriedBrackets, List.take_add_one, isCode, Option.toList_some, List.foldl_concat]
  rfl

/-- The brackets that are carried from line to line are those that are open just if no line with
surplus brackets leaves a bracket open. -/
theorem carriedBrackets_eq_iff (language : Language) (input : ScanInput) :
    (∀ index ≤ input.lines.length,
      carriedBrackets language input index = openBrackets language input index) ↔
    ∀ index code, (codeLines language input)[index]? = some code →
      surplus (openBrackets language input index) (code.map asBrace) = 0 ∨
        openBrackets language input (index + 1) = 0 := by
  have counted : ∀ {index code}, (codeLines language input)[index]? = some code →
      carriedBrackets language input index = openBrackets language input index →
      carriedBrackets language input (index + 1) = openBrackets language input (index + 1) -
        surplus (openBrackets language input index) (code.map asBrace) := by
    intro index code isCode same
    rw [carriedBrackets_succ isCode, toNat_add_allBracketBalance, same, openBrackets_succ isCode]
  constructor
  · intro same index code isCode
    have inFile := (List.getElem?_eq_some_iff.mp isCode).1
    rw [length_codeLines] at inFile
    have here := counted isCode (same index (Nat.le_of_lt inFile))
    rw [same (index + 1) inFile] at here
    omega
  · intro exact index
    induction index with
    | zero => exact fun _ => rfl
    | succ index induction =>
        intro inFile
        have inCode : index < (codeLines language input).length := by rwa [length_codeLines]
        have isCode := List.getElem?_eq_getElem inCode
        have here := counted isCode (induction (Nat.le_of_succ_le inFile))
        have := exact index _ isCode
        omega

/-! ## Statements -/

/-- Whether the code of a line is more than blanks. -/
def holdsCode (language : Language) (input : ScanInput) (index : Nat) : Bool :=
  (codeLines language input)[index]?.any fun code => !(Text.trim code).isEmpty

/-- Whether a line starts a statement: it holds code, and starts neither inside a string nor inside
brackets, of which `brackets` counts those in front of each line. -/
def isStatement (language : Language) (input : ScanInput) (brackets : Nat → Nat) (index : Nat) :
    Bool :=
  holdsCode language input index
    && language.lexicon.modeBehind .code (input.lines.take index) == .code && brackets index == 0

/-! ## What a line does -/

section Line

variable (language : Language) (input : ScanInput) (scan : IndentScan) (line : List Char)

/-- What a scan sees of a line. -/
def codeOn : List Char := (language.lexicon.strip scan.mode line).code

/-- Whether a scan takes a line for the first one of a statement. -/
def startsStatement : Bool :=
  !(Text.trim (scan.codeOn language line)).isEmpty && scan.mode == .code && scan.brackets == 0

/-- What a scan has found once the indentation of a line has closed what it closes. -/
def closedOn : Findings :=
  if scan.startsStatement language line then
    scan.findings.closeFrom (indentWidth line) scan.lastCodeLine
  else scan.findings

/-- What a scan picks on a line: nothing unless the line starts a statement and no decorator. -/
def pickOn? : Option Definition.Pick :=
  if scan.startsStatement language line
      && (Text.trim (scan.codeOn language line)).head? != some '@' then
    Definition.pick? language
      ((scan.closedOn language line).site input.fileId scan.lineNumber input.outer scan.decorators)
      line
  else none

end Line

end IndentScan

/-- Findings with what has been picked on a line that is indented by `indent`. -/
def Findings.receive (findings : Findings) (indent : Nat) : Option Definition.Pick → Findings
  | none => findings
  | some pick =>
    if pick.rule.opensBlock then
      (findings.add pick.definition).openScope findings.definitions.size indent
    else findings.add pick.definition

namespace IndentScan

open BraceScan (codeLines length_codeLines)

section Line

variable {language : Language} {input : ScanInput} {scan : IndentScan} {line : List Char}

/-- A statement closes the scopes that are not indented less, and what is picked on its line is
found. -/
theorem findings_takeStatement (code : List Char) :
    let closed := scan.findings.closeFrom (indentWidth line) scan.lastCodeLine
    (scan.takeStatement language input line code).findings =
      closed.receive (indentWidth line) (if code.head? = some '@' then none
        else Definition.pick? language
          (closed.site input.fileId scan.lineNumber input.outer scan.decorators) line) := by
  simp only [takeStatement, Definition.recognize?]
  split
  · rfl
  · cases Definition.pick? language _ line with
    | none => rfl
    | some pick => cases opens : pick.rule.opensBlock <;> simp [Findings.receive, opens]

theorem startsStatement_eq : scan.startsStatement language line =
    !((Text.trim (language.lexicon.strip scan.mode line).code).isEmpty
      || (scan.mode != .code || decide (scan.brackets > 0))) := by
  have none : (scan.brackets == 0) = !decide (scan.brackets > 0) := by
    cases scan.brackets <;> rfl
  rw [startsStatement, codeOn, none]
  simp [Bool.and_assoc, bne]

@[simp] theorem size_closedOn : (scan.closedOn language line).definitions.size =
    scan.findings.definitions.size := by
  rw [closedOn]
  split <;> simp

theorem findings_take : (scan.take language input line).findings =
    (scan.closedOn language line).receive (indentWidth line)
      (scan.pickOn? language input line) := by
  simp only [take, pickOn?, closedOn, startsStatement_eq]
  split
  · next blank =>
      rw [blank]
      rfl
  · next visible =>
      rw [Bool.not_eq_true] at visible
      rw [visible]
      split
      · next goesOn =>
          rw [goesOn]
          rfl
      · next starts =>
          rw [Bool.not_eq_true] at starts
          rw [starts, findings_takeStatement]
          simp only [codeOn, Bool.or_false, Bool.not_false, if_true, Bool.true_and, bne_iff_ne,
            ne_eq, ite_not]

theorem mode_brackets_takeStatement (code : List Char) :
    (scan.takeStatement language input line code).mode = scan.mode ∧
      (scan.takeStatement language input line code).brackets = scan.brackets := by
  simp only [takeStatement]
  split
  · exact ⟨rfl, rfl⟩
  · split <;> exact ⟨rfl, rfl⟩

theorem mode_take : (scan.take language input line).mode =
    (language.lexicon.strip scan.mode line).mode := by
  simp only [take]
  split
  · rfl
  · split
    · rfl
    · exact (mode_brackets_takeStatement _).1

theorem brackets_take : (scan.take language input line).brackets =
    ((scan.brackets : Int) + allBracketBalance (scan.codeOn language line)).toNat := by
  simp only [take]
  split
  · next blank =>
      rw [codeOn, allBracketBalance_of_blank blank, Int.add_zero, Int.toNat_natCast]
  · split
    · rfl
    · exact (mode_brackets_takeStatement _).2

theorem lastCodeLine_take_eq : (scan.take language input line).lastCodeLine =
    if (Text.trim (scan.codeOn language line)).isEmpty then scan.lastCodeLine
    else scan.lineNumber := by
  simp only [take]
  split
  · next blank => exact (if_pos blank).symm
  · next visible =>
      rw [codeOn, if_neg visible]
      split
      · rfl
      · exact (lines_takeStatement _ language input line _).2

end Line

/-! ## Line by line -/

section Above

variable {language : Language} {input : ScanInput} {index : Nat} {line : List Char}

/-- The scan of the lines above a line, which are counted from zero. -/
def aboveLine (language : Language) (input : ScanInput) (index : Nat) : IndentScan :=
  (input.lines.take index).foldl (take language input)
    { lineNumber := input.firstLine, lastCodeLine := input.firstLine }

theorem scanIndentation_eq (language : Language) (input : ScanInput) :
    scanIndentation language input =
      ((aboveLine language input input.lines.length).findings.closeAll
        (aboveLine language input input.lines.length).lastCodeLine).definitions.toList := by
  rw [aboveLine, List.take_length]
  rfl

theorem aboveLine_succ (isLine : input.lines[index]? = some line) :
    aboveLine language input (index + 1) =
      (aboveLine language input index).take language input line := by
  rw [aboveLine, List.take_add_one, isLine]
  exact List.foldl_concat ..

/-- Where a scan has come above a line: to its number, and to the mode and the brackets that the code
above leads to. -/
structure Follows (language : Language) (input : ScanInput) (index : Nat) : Prop where
  lineNumber : (aboveLine language input index).lineNumber = input.firstLine + index
  mode : (aboveLine language input index).mode =
    language.lexicon.modeBehind .code (input.lines.take index)
  brackets : (aboveLine language input index).brackets = carriedBrackets language input index

theorem Follows.getElem?_codeLines (follows : Follows language input index)
    (isLine : input.lines[index]? = some line) : (codeLines language input)[index]? =
      some ((aboveLine language input index).codeOn language line) := by
  rw [codeLines, List.getElem?_map, Lexicon.getElem?_stripLines, isLine, codeOn, follows.mode]
  rfl

theorem Follows.step (follows : Follows language input index)
    (isLine : input.lines[index]? = some line) : Follows language input (index + 1) where
  lineNumber := by rw [aboveLine_succ isLine, lineNumber_take, follows.lineNumber, Nat.add_assoc]
  mode := by
    rw [aboveLine_succ isLine, mode_take, follows.mode, List.take_add_one, isLine,
      Option.toList_some, Lexicon.modeBehind, Lexicon.modeBehind, List.foldl_concat]
  brackets := by
    rw [aboveLine_succ isLine, brackets_take, follows.brackets,
      carriedBrackets_succ (follows.getElem?_codeLines isLine)]

theorem follows (language : Language) (inFile : index ≤ input.lines.length) :
    Follows language input index :=
  ScanInput.induction_lines ⟨rfl, rfl, rfl⟩ (fun _ _ isLine above => above.step isLine) inFile

theorem holdsCode_eq (isLine : input.lines[index]? = some line) : holdsCode language input index =
    !(Text.trim ((aboveLine language input index).codeOn language line)).isEmpty := by
  have inFile := Nat.le_of_lt (List.getElem?_eq_some_iff.mp isLine).1
  rw [holdsCode, (follows language inFile).getElem?_codeLines isLine, Option.any_some]

/-- A scan takes a line for the first one of a statement if it is one by the brackets that are
carried. -/
theorem isStatement_eq (isLine : input.lines[index]? = some line) :
    isStatement language input (carriedBrackets language input) index =
      (aboveLine language input index).startsStatement language line := by
  have inFile := Nat.le_of_lt (List.getElem?_eq_some_iff.mp isLine).1
  have scan : Follows language input index := follows language inFile
  rw [isStatement, startsStatement, holdsCode_eq isLine, scan.mode, scan.brackets]

/-- The last line with code in front of a line. -/
structure IsLastCode (language : Language) (input : ScanInput) (next last : Nat) : Prop where
  above : last < next
  code : holdsCode language input last = true
  after : ∀ later < next, last < later → holdsCode language input later = false

theorem exists_isLastCode (language : Language) (inFile : index ≤ input.lines.length)
    {earlier : Nat} (above : earlier < index)
    (code : holdsCode language input earlier = true) :
    ∃ last, IsLastCode language input index last ∧
      (aboveLine language input index).lastCodeLine = input.firstLine + last := by
  induction index with
  | zero => exact absurd above (Nat.not_lt_zero _)
  | succ index induction =>
      have isLine := List.getElem?_eq_getElem (Nat.lt_of_succ_le inFile)
      rw [aboveLine_succ isLine, lastCodeLine_take_eq]
      have here := @holdsCode_eq language input index _ isLine
      split
      · next blank =>
          rw [blank, Bool.not_true] at here
          have other : earlier ≠ index := by
            rintro rfl
            rw [here] at code
            cases code
          rcases induction (Nat.le_of_succ_le inFile) (by omega) with ⟨last, isLast, reached⟩
          refine ⟨last, ⟨Nat.lt_succ_of_lt isLast.above, isLast.code, ?_⟩, reached⟩
          intro later inFront behind
          rcases Nat.lt_succ_iff_lt_or_eq.mp inFront with earlier | rfl
          · exact isLast.after later earlier behind
          · exact here
      · next visible =>
          rw [Bool.not_eq_true] at visible
          rw [visible, Bool.not_false] at here
          refine ⟨index, ⟨Nat.lt_succ_self _, here, fun later inFront behind => by omega⟩, ?_⟩
          exact (follows language (Nat.le_of_succ_le inFile)).lineNumber

end Above

end IndentScan

end SourceIndex
