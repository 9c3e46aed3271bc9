import SourceIndex.Complexity.Measurement
import SourceIndex.Text.Utf8
import Mathlib.Algebra.GroupWithZero.Nat

/-! How large the measures of a file can get: none of them exceeds the length of the file by more
than the width of a tab. -/

namespace SourceIndex

/-! ## Lines -/

namespace Text

/-- How many characters there are in some lines if each of them has an end. -/
def sizeOfLines (lines : List (List Char)) : Nat := (lines.map (·.length + 1)).sum

theorem length_dropCarriageReturn_le (line : List Char) :
    (dropCarriageReturn line).length ≤ line.length := by
  unfold dropCarriageReturn
  split
  · next rest isReversed =>
      have length := congrArg List.length isReversed
      rw [List.length_reverse, List.length_cons] at length
      rw [List.length_reverse]
      omega
  · exact Nat.le_refl _

theorem sizeOfLines_linesOfPieces_le (pieces : List (List Char)) :
    sizeOfLines (linesOfPieces pieces) ≤ sizeOfLines pieces := by
  fun_induction linesOfPieces pieces with
  | case1 => exact Nat.le_refl _
  | case2 last empty => exact Nat.zero_le _
  | case3 last some => exact Nat.le_refl _
  | case4 piece rest several induction =>
      have first := length_dropCarriageReturn_le piece
      simp only [sizeOfLines, List.map_cons, List.sum_cons] at induction ⊢
      omega

theorem sizeOfLines_splitAll (separates : Char → Bool) (text : List Char) :
    sizeOfLines (splitAll separates text) = text.length + 1 := by
  induction text with
  | nil => rfl
  | cons character text induction =>
      unfold splitAll at induction ⊢
      rw [List.foldr_cons]
      split
      · simp only [sizeOfLines, List.map_cons, List.sum_cons, List.length_nil,
          List.length_cons] at induction ⊢
        omega
      · split
        · next none =>
            rw [none] at induction
            cases induction
        · next piece rest isSplit =>
            rw [isSplit] at induction
            simp only [sizeOfLines, List.map_cons, List.sum_cons, List.length_cons] at induction ⊢
            omega

/-- The lines of a text are no longer than the text, but for the end of the last one. -/
theorem sizeOfLines_lines_le (text : List Char) : sizeOfLines (lines text) ≤ text.length + 1 := by
  rw [← sizeOfLines_splitAll (· == '\n') text]
  exact sizeOfLines_linesOfPieces_le _

theorem length_trim_le (text : List Char) : (trim text).length ≤ text.length := by
  have start : (trimStart text).length ≤ text.length := (List.dropWhile_suffix _).length_le
  refine Nat.le_trans ?_ start
  unfold trim trimEnd dropEndWhile
  have reversed : (trimStart text).reverse.length = (trimStart text).length := List.length_reverse
  rw [List.length_reverse, ← reversed]
  exact (List.dropWhile_suffix _).length_le

theorem length_decodeFrom_le (read : List Char) (bytes : List UInt8) :
    (decodeFrom read bytes).length ≤ read.length + bytes.length := by
  fun_induction decodeFrom read bytes
  all_goals simp only [List.length_reverse, List.length_cons, List.length_nil] at *
  all_goals omega

theorem length_toListLoop (bytes : ByteArray) (index : Nat) (read : List UInt8) :
    (ByteArray.toList.loop bytes index read).length = read.length + (bytes.size - index) := by
  fun_induction ByteArray.toList.loop bytes index read with
  | case1 index read more induction =>
      rw [induction, List.length_cons]
      omega
  | case2 index read done =>
      rw [List.length_reverse]
      omega

/-- Reading bytes as text gives at most one character for each of them. -/
theorem length_decodeLossy_le (bytes : ByteArray) : (decodeLossy bytes).length ≤ bytes.size := by
  have characters := length_decodeFrom_le [] bytes.toList
  have length : bytes.toList.length = bytes.size := by
    rw [ByteArray.toList, length_toListLoop, List.length_nil, Nat.zero_add, Nat.sub_zero]
  rwa [length, List.length_nil, Nat.zero_add] at characters

end Text

/-! ## Lines without strings and comments -/

namespace Lexicon

variable (lexicon : Lexicon)

theorem length_code_stepAt? {mode : Mode} {character : Char} {text : List Char} {step : Step}
    (taken : lexicon.stepAt? mode character text = some step) : step.code.length ≤ 1 := by
  have takes : ∀ {length mode isComment} {code : List Char}, code.length ≤ 1 →
      some (Step.take length mode isComment code) = some step → step.code.length ≤ 1 := by
    intro length mode isComment code short same
    cases same
    exact short
  unfold stepAt? at taken
  cases mode with
  | blockComment =>
      simp only at taken
      split at taken
      · split at taken <;> exact takes (by decide) taken
      · exact takes (by decide) taken
  | docBlock mark =>
      simp only at taken
      split at taken <;> exact takes (by decide) taken
  | string style =>
      simp only at taken
      split at taken
      · exact takes (by decide) taken
      · split at taken <;> exact takes (by decide) taken
  | code =>
      simp only at taken
      split at taken
      · cases taken
      · split at taken
        · exact takes (by decide) taken
        · split at taken
          · split at taken <;> exact takes (by decide) taken
          · split at taken
            · exact takes (by decide) taken
            · refine takes ?_ taken
              exact Nat.le_refl 1

theorem length_code_stripFrom_le (mode : Mode) (skip : Nat) (line : List Char) :
    (lexicon.stripFrom mode skip line).code.length ≤ line.length := by
  induction line generalizing mode skip with
  | nil => exact Nat.le_refl 0
  | cons character rest induction =>
      cases skip with
      | succ skip =>
          rw [stripFrom]
          exact Nat.le_succ_of_le (induction mode skip)
      | zero =>
          rw [stripFrom]
          split
          · exact Nat.zero_le _
          · next step taken =>
              have first := lexicon.length_code_stepAt? taken
              have later := induction step.mode step.skip
              rw [List.length_append, List.length_cons]
              omega

theorem length_code_strip_le (mode : Mode) (line : List Char) :
    (lexicon.strip mode line).code.length ≤ line.length := by
  unfold strip
  simp only
  split
  · exact lexicon.length_code_stripFrom_le _ _ line
  · exact lexicon.length_code_stripFrom_le _ _ line

end Lexicon

theorem Pattern.countFrom_le (pattern : Pattern) (skip : Nat) (before : Option Char)
    (text : List Char) : pattern.countFrom skip before text ≤ text.length + 1 := by
  induction text generalizing skip before with
  | nil =>
      rw [countFrom]
      split
      · exact Nat.le_refl _
      · exact Nat.zero_le _
  | cons character rest induction =>
      cases skip with
      | succ skip =>
          rw [countFrom]
          exact Nat.le_succ_of_le (induction skip _)
      | zero =>
          rw [countFrom]
          split
          · exact Nat.le_succ_of_le (induction 0 _)
          · exact Nat.succ_le_succ (induction _ _)

theorem indentWidth_le (line : List Char) : indentWidth line ≤ tabWidth * line.length := by
  have widens : ∀ (blanks : List Char) (width : Nat), blanks.foldl
      (fun width character => width + if character == '\t' then tabWidth else 1) width ≤
        width + tabWidth * blanks.length := by
    intro blanks
    induction blanks with
    | nil => exact fun width => Nat.le_refl _
    | cons character blanks induction =>
        intro width
        have later := induction (width + if character == '\t' then tabWidth else 1)
        have first : (if character == '\t' then tabWidth else 1) ≤ tabWidth := by
          split <;> decide
        rw [List.foldl_cons, List.length_cons, Nat.mul_succ]
        omega
  have width := widens (line.takeWhile fun character => character == ' ' || character == '\t') 0
  have shorter := (List.takeWhile_prefix (l := line)
    fun character => character == ' ' || character == '\t').length_le
  rw [Nat.zero_add] at width
  exact Nat.le_trans width (Nat.mul_le_mul_left tabWidth shorter)

/-! ## The tally -/

namespace ComplexityTally

/-- Whether no count of a tally exceeds the size of the lines that have been taken, indentation
being counted in tabs. -/
structure IsWithin (size : Nat) (tally : ComplexityTally) : Prop where
  logicalLines : tally.logicalLines ≤ size
  decisions : tally.decisions ≤ size
  depth : tally.depth ≤ size
  maxDepth : tally.maxDepth ≤ size
  indents : ∀ indent ∈ tally.indents, indent ≤ tabWidth * size

theorem foldl_takeBrace_le (code : List Char) (depths : Nat × Nat) :
    (code.foldl takeBrace depths).1 ≤ depths.1 + code.length ∧
      (code.foldl takeBrace depths).2 ≤ max depths.2 (depths.1 + code.length) := by
  induction code generalizing depths with
  | nil => exact ⟨Nat.le_refl _, Nat.le_max_left _ _⟩
  | cons character code induction =>
      have first : (takeBrace depths character).1 ≤ depths.1 + 1 ∧
          (takeBrace depths character).2 ≤ max depths.2 (depths.1 + 1) := by
        unfold takeBrace
        simp only
        split
        · exact ⟨Nat.le_refl _, Nat.le_refl _⟩
        · split
          · exact ⟨by simp only; omega, Nat.le_max_left _ _⟩
          · exact ⟨Nat.le_succ _, Nat.le_max_left _ _⟩
      have later := induction (takeBrace depths character)
      rw [List.foldl_cons, List.length_cons]
      omega

variable {size : Nat} {tally : ComplexityTally}

theorem IsWithin.mono (within : tally.IsWithin size) {larger : Nat} (le : size ≤ larger) :
    tally.IsWithin larger where
  logicalLines := Nat.le_trans within.logicalLines le
  decisions := Nat.le_trans within.decisions le
  depth := Nat.le_trans within.depth le
  maxDepth := Nat.le_trans within.maxDepth le
  indents indent member := Nat.le_trans (within.indents indent member)
    (Nat.mul_le_mul_left tabWidth le)

theorem IsWithin.takeLogical (within : tally.IsWithin size) (language : Language)
    {line code : List Char} (shorter : code.length ≤ line.length) :
    (tally.takeLogical language line code).IsWithin (size + (line.length + 1)) := by
  have lines := within.logicalLines
  have former := within.decisions
  have decisions : language.decisions.count code ≤ code.length + 1 :=
    Pattern.countFrom_le _ 0 none code
  have larger := within.mono (Nat.le_add_right size (line.length + 1))
  have depths := foldl_takeBrace_le code (tally.depth, tally.maxDepth)
  have depth := within.depth
  have maxDepth := within.maxDepth
  have indent := indentWidth_le line
  unfold ComplexityTally.takeLogical
  simp only
  split
  · split
    · exact ⟨by simp only; omega, by simp only; omega, larger.depth, larger.maxDepth,
        larger.indents⟩
    · refine ⟨by simp only; omega, by simp only; omega, larger.depth, larger.maxDepth, ?_⟩
      intro width member
      rcases List.mem_cons.mp member with rfl | member
      · have wider : line.length ≤ size + (line.length + 1) := by omega
        exact Nat.le_trans indent (Nat.mul_le_mul_left tabWidth wider)
      · exact larger.indents width member
  · exact ⟨by simp only; omega, by simp only; omega, by simp only at depths ⊢; omega,
      by simp only at depths ⊢; omega, larger.indents⟩

theorem IsWithin.take (within : tally.IsWithin size) (language : Language) (line : List Char) :
    (tally.take language line).IsWithin (size + (line.length + 1)) := by
  have larger := within.mono (Nat.le_add_right size (line.length + 1))
  unfold ComplexityTally.take
  simp only
  split
  · exact ⟨larger.logicalLines, larger.decisions, larger.depth, larger.maxDepth, larger.indents⟩
  · split
    · exact ⟨larger.logicalLines, larger.decisions, larger.depth, larger.maxDepth, larger.indents⟩
    · refine IsWithin.takeLogical ?_ language ?_
      · exact ⟨within.logicalLines, within.decisions, within.depth, within.maxDepth,
          within.indents⟩
      · exact Nat.le_trans (Text.length_trim_le _) (language.lexicon.length_code_strip_le _ _)

theorem IsWithin.takeAll (within : tally.IsWithin size) (language : Language)
    (lines : List (List Char)) : (lines.foldl (ComplexityTally.take language) tally).IsWithin
      (size + Text.sizeOfLines lines) := by
  induction lines generalizing tally size with
  | nil => exact within
  | cons line lines induction =>
      have later := induction (within.take language line)
      rwa [Nat.add_assoc] at later

theorem IsWithin.maxNesting_le (within : tally.IsWithin size) (language : Language) :
    tally.maxNesting language ≤ tabWidth * size := by
  have shallow := within.maxDepth
  unfold maxNesting
  split
  · cases isMax : (tally.indents.map (· / tally.indentUnit)).max? with
    | none => exact Nat.zero_le _
    | some deepest =>
        rcases List.mem_map.mp (List.max?_mem isMax) with ⟨indent, member, rfl⟩
        exact Nat.le_trans (Nat.div_le_self indent _) (within.indents indent member)
  · exact Nat.le_trans shallow (Nat.le_mul_of_pos_left size (by decide))

end ComplexityTally

/-- The measures that are judged do not exceed the length of the text, nesting being counted in
tabs. -/
theorem measureComplexity_le (language : Language) (content : String) :
    let report := measureComplexity language content
    report.logicalLines ≤ content.toList.length + 1 ∧
      report.cyclomatic ≤ content.toList.length + 2 ∧
      report.maxNesting ≤ tabWidth * (content.toList.length + 1) := by
  have start : ComplexityTally.IsWithin 0 {} := ⟨Nat.le_refl 0, Nat.le_refl 0, Nat.le_refl 0,
    Nat.le_refl 0, fun _ member => absurd member List.not_mem_nil⟩
  have all := start.takeAll language (Text.lines content.toList)
  have size : 0 + Text.sizeOfLines (Text.lines content.toList) ≤ content.toList.length + 1 := by
    rw [Nat.zero_add]
    exact Text.sizeOfLines_lines_le content.toList
  have within := all.mono size
  refine ⟨within.logicalLines, ?_, within.maxNesting_le language⟩
  have decisions := within.decisions
  change 1 + _ ≤ _
  omega

end SourceIndex
