import SourceIndex.Proofs.Definition.Depths
import SourceIndex.Proofs.Text.Lines

/-! How the measures of a file change when lines are added at its end. None of them gets smaller: the
unit by which indentation is divided can become smaller with a later line, so that the lines above
count as deeper, and it is never zero. -/

namespace SourceIndex

/-! ## Lines -/

namespace Text

theorem linesOfPieces_append (pieces : List (List Char)) {later : List (List Char)}
    (more : later ≠ []) :
    linesOfPieces (pieces ++ later) = pieces.map dropCarriageReturn ++ linesOfPieces later := by
  induction pieces with
  | nil => rfl
  | cons piece pieces induction =>
      rw [List.cons_append, linesOfPieces_cons (List.append_ne_nil_of_right_ne_nil _ more),
        induction]
      rfl

/-- Behind a line feed there are the lines of what follows. -/
theorem lines_append_of_feed {front : List Char} (ends : front.getLast? = some '\n')
    (rest : List Char) : lines (front ++ rest) = lines front ++ lines rest := by
  rcases List.getLast?_eq_some_iff.mp ends with ⟨start, rfl⟩
  rcases List.eq_nil_or_concat (splitAll (· == '\n') start) with none | ⟨earlier, last, split⟩
  · exact absurd none (splitAll_ne_nil _ _)
  rw [List.concat_eq_append] at split
  -- The piece behind the last feed is empty, so that the rest starts with a piece of its own.
  have ended : splitAll (· == '\n') (start ++ ['\n']) = (earlier ++ [last]) ++ [[]] := by
    rw [splitAll_append_of_last split (rfl : splitAll (· == '\n') ['\n'] = [[], []]),
      List.append_nil, List.append_assoc]
    rfl
  rcases List.exists_cons_of_ne_nil (splitAll_ne_nil (· == '\n') rest) with
    ⟨first, later, splitRest⟩
  have whole : splitAll (· == '\n') (start ++ ['\n'] ++ rest) =
      (earlier ++ [last]) ++ splitAll (· == '\n') rest := by
    rw [splitAll_append_of_last ended splitRest, splitRest]
    rfl
  rw [lines, lines, lines, whole, ended, linesOfPieces_append _ (splitAll_ne_nil _ _),
    linesOfPieces_append _ (List.cons_ne_nil _ _)]
  simp [linesOfPieces]

end Text

namespace ComplexityTally

/-! ## Units -/

/-- What indentation is divided by is never zero, whatever the indentation of the lines is. -/
theorem indentUnit_pos (tally : ComplexityTally) : 0 < tally.indentUnit := by
  unfold indentUnit
  cases smallest : (tally.indents.filter (0 < ·)).min? with
  | none => decide
  | some width =>
      have member := List.mem_filter.mp (List.min?_mem smallest)
      exact of_decide_eq_true member.2

/-- If any line is indented, the unit is the indentation of one of the lines, and no larger than that
of the others. -/
theorem indentUnit_of_indented {tally : ComplexityTally} {width : Nat}
    (member : width ∈ tally.indents) (indented : 0 < width) :
    tally.indentUnit ∈ tally.indents ∧ tally.indentUnit ≤ width := by
  have isThere : width ∈ tally.indents.filter (0 < ·) :=
    List.mem_filter.mpr ⟨member, decide_eq_true indented⟩
  unfold indentUnit
  cases smallest : (tally.indents.filter (0 < ·)).min? with
  | none =>
      rw [List.min?_eq_none_iff.mp smallest] at isThere
      exact absurd isThere List.not_mem_nil
  | some least =>
      have isLeast := List.min?_eq_some_iff.mp smallest
      exact ⟨(List.mem_filter.mp isLeast.1).1, isLeast.2 width isThere⟩

/-! ## Growth -/

/-- Whether nothing that has been counted has become less, and no line has been forgotten. -/
structure Grows (former later : ComplexityTally) : Prop where
  logicalLines : former.logicalLines ≤ later.logicalLines
  commentLines : former.commentLines ≤ later.commentLines
  blankLines : former.blankLines ≤ later.blankLines
  decisions : former.decisions ≤ later.decisions
  returns : former.returns ≤ later.returns
  maxDepth : former.maxDepth ≤ later.maxDepth
  indents : former.indents ⊆ later.indents

theorem Grows.refl (tally : ComplexityTally) : tally.Grows tally :=
  ⟨Nat.le_refl _, Nat.le_refl _, Nat.le_refl _, Nat.le_refl _, Nat.le_refl _, Nat.le_refl _,
    List.Subset.refl _⟩

theorem Grows.trans {former middle later : ComplexityTally} (first : former.Grows middle)
    (second : middle.Grows later) : former.Grows later where
  logicalLines := Nat.le_trans first.logicalLines second.logicalLines
  commentLines := Nat.le_trans first.commentLines second.commentLines
  blankLines := Nat.le_trans first.blankLines second.blankLines
  decisions := Nat.le_trans first.decisions second.decisions
  returns := Nat.le_trans first.returns second.returns
  maxDepth := Nat.le_trans first.maxDepth second.maxDepth
  indents := List.Subset.trans first.indents second.indents

theorem le_maxDepth_foldl_takeBrace (code : List Char) (depths : Nat × Nat) :
    depths.2 ≤ (code.foldl takeBrace depths).2 := by
  induction code generalizing depths with
  | nil => exact Nat.le_refl _
  | cons character code induction =>
      refine Nat.le_trans ?_ (induction (takeBrace depths character))
      rcases depths with ⟨depth, deepest⟩
      unfold takeBrace
      by_cases opens : character = '\x7b'
      · simp only [if_pos opens]
        exact Nat.le_max_left _ _
      · simp only [if_neg opens]
        split <;> exact Nat.le_refl _

variable (language : Language) (tally : ComplexityTally)

theorem grows_takeLogical (line code : List Char) :
    tally.Grows (tally.takeLogical language line code) := by
  have deeper := le_maxDepth_foldl_takeBrace code (tally.depth, tally.maxDepth)
  have same := Grows.refl tally
  unfold takeLogical
  simp only
  split
  · split
    · exact { same with
        logicalLines := Nat.le_add_right _ _
        decisions := Nat.le_add_right _ _
        returns := Nat.le_add_right _ _ }
    · exact { same with
        logicalLines := Nat.le_add_right _ _
        decisions := Nat.le_add_right _ _
        returns := Nat.le_add_right _ _
        indents := List.subset_cons_self _ _ }
  · exact { same with
      logicalLines := Nat.le_add_right _ _
      decisions := Nat.le_add_right _ _
      returns := Nat.le_add_right _ _
      maxDepth := deeper }

theorem grows_take (line : List Char) : tally.Grows (tally.take language line) := by
  have same := Grows.refl tally
  simp only [take]
  split
  · exact { same with blankLines := Nat.le_add_right _ _ }
  · split
    · exact { same with commentLines := Nat.le_add_right _ _ }
    · have grown := grows_takeLogical language
        { tally with mode := (language.lexicon.strip tally.mode line).mode } line
        (Text.trim (language.lexicon.strip tally.mode line).code)
      exact ⟨grown.logicalLines, grown.commentLines, grown.blankLines, grown.decisions,
        grown.returns, grown.maxDepth, grown.indents⟩

theorem grows_takeAll (lines : List (List Char)) :
    tally.Grows (lines.foldl (take language) tally) := by
  induction lines generalizing tally with
  | nil => exact .refl tally
  | cons line lines induction =>
      exact (grows_take language tally line).trans (induction (tally.take language line))

variable {tally} {language}

/-- A line is as deep as before or deeper, since the unit is as large as before or smaller. Where no
line has been indented before, the unit can become larger, but then no line has been deep. -/
theorem Grows.div_indentUnit_le {later : ComplexityTally} (grows : tally.Grows later) {width : Nat}
    (member : width ∈ tally.indents) : width / tally.indentUnit ≤ width / later.indentUnit := by
  rcases Nat.eq_zero_or_pos width with rfl | indented
  · rw [Nat.zero_div]
    exact Nat.zero_le _
  · -- The former unit is the indentation of a line, and this line is still there.
    have unit := grows.indents (indentUnit_of_indented member indented).1
    have smaller := (indentUnit_of_indented unit tally.indentUnit_pos).2
    exact Nat.div_le_div_left smaller later.indentUnit_pos

theorem Grows.maxNesting_le {later : ComplexityTally} (grows : tally.Grows later) :
    tally.maxNesting language ≤ later.maxNesting language := by
  unfold maxNesting
  split
  · cases deepest : (tally.indents.map (· / tally.indentUnit)).max? with
    | none => exact Nat.zero_le _
    | some depth =>
        rcases List.mem_map.mp (List.max?_mem deepest) with ⟨width, member, rfl⟩
        refine Nat.le_trans (grows.div_indentUnit_le member) ?_
        exact List.le_max?_getD_of_mem (List.mem_map_of_mem (grows.indents member))
  · exact grows.maxDepth

end ComplexityTally

open ComplexityTally in
/-- When a text is added to one that is empty or ends with a line feed, none of the counts and
neither the number of paths nor the depth of nesting becomes less. Indentation is never divided by
zero, even in between. -/
theorem measureComplexity_grows (language : Language) {content : String}
    (ends : content = "" ∨ content.toList.getLast? = some '\n') (added : String) :
    let report := measureComplexity language content
    let longer := measureComplexity language (content ++ added)
    (report.logicalLines ≤ longer.logicalLines ∧ report.commentLines ≤ longer.commentLines ∧
      report.blankLines ≤ longer.blankLines ∧ report.cyclomatic ≤ longer.cyclomatic ∧
      report.returnCount ≤ longer.returnCount ∧ report.maxNesting ≤ longer.maxNesting) ∧
    ∀ lines, 0 < (behind language lines).indentUnit := by
  intro report longer
  have lines : Text.lines (content ++ added).toList =
      Text.lines content.toList ++ Text.lines added.toList := by
    rw [String.toList_append]
    rcases ends with rfl | feed
    · rfl
    · exact Text.lines_append_of_feed feed _
  have grows : (behind language (Text.lines content.toList)).Grows
      (behind language (Text.lines (content ++ added).toList)) := by
    rw [lines, behind, behind, List.foldl_append]
    exact grows_takeAll language _ _
  exact ⟨⟨grows.logicalLines, grows.commentLines, grows.blankLines,
    Nat.add_le_add_left grows.decisions 1, grows.returns, grows.maxNesting_le⟩,
    fun lines => indentUnit_pos _⟩

/-- The second line is indented less than the first one, which then counts as two levels deep. -/
theorem measureComplexity_grows_by_unit :
    let report := measureComplexity .python "    a\n"
    let longer := measureComplexity .python ("    a\n" ++ "  b\n")
    "    a\n".toList.getLast? = some '\n' ∧ report.maxNesting ≤ longer.maxNesting ∧
      report.maxNesting = 1 ∧ longer.maxNesting = 2 := by
  intro report longer
  have feed : "    a\n".toList.getLast? = some '\n' := by decide
  have grows := (measureComplexity_grows .python (.inr feed) "  b\n").1
  exact ⟨feed, grows.2.2.2.2.2, by decide +kernel, by decide +kernel⟩

end SourceIndex
