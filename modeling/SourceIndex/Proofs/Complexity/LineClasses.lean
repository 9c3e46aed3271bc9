import SourceIndex.Chunk.LineClass
import SourceIndex.Proofs.Definition.Depths
import SourceIndex.Proofs.Lexicon.Inside

/-! The lines that the measures of a file count, and the classes by which its chunks are judged.
Both passes strip the lines in the modes that the lines above lead to, so that they meet the same
code and come to the same answer on every line. -/

namespace SourceIndex

/-! ## One line -/

/-- Whether a line of the class counts as a line of code in the measures. -/
def LineClass.isLogical : LineClass → Bool
  | .importLine | .code => true
  | .blank | .comment => false

namespace ComplexityTally

/-- Whether lines of the given classes have been counted on top of what had been counted before. -/
structure Counts (former tally : ComplexityTally) (classes : List LineClass) : Prop where
  blank : tally.blankLines = former.blankLines + classes.count .blank
  comment : tally.commentLines = former.commentLines + classes.count .comment
  logical : tally.logicalLines = former.logicalLines + classes.countP LineClass.isLogical

theorem Counts.append {former middle last : ComplexityTally} {classes later : List LineClass}
    (counts : former.Counts middle classes) (countsLater : middle.Counts last later) :
    former.Counts last (classes ++ later) where
  blank := by rw [countsLater.blank, counts.blank, List.count_append, Nat.add_assoc]
  comment := by rw [countsLater.comment, counts.comment, List.count_append, Nat.add_assoc]
  logical := by rw [countsLater.logical, counts.logical, List.countP_append, Nat.add_assoc]

variable (language : Language) (tally : ComplexityTally) (line : List Char)

/-- Whatever the mode, a line that is neither blank nor a comment counts as one of code. -/
theorem counts_takeLogical {lineClass : LineClass} (isLogical : lineClass.isLogical = true)
    (mode : Lexicon.Mode) (code : List Char) :
    tally.Counts (({ tally with mode } : ComplexityTally).takeLogical language line code)
      [lineClass] := by
  have counts : ∀ taken : ComplexityTally, taken.blankLines = tally.blankLines →
      taken.commentLines = tally.commentLines → taken.logicalLines = tally.logicalLines + 1 →
      tally.Counts taken [lineClass] := by
    intro taken blank comment logical
    cases lineClass with
    | importLine | code => exact ⟨blank, comment, logical⟩
    | blank | comment => cases isLogical
  simp only [takeLogical]
  split
  · split
    · exact counts _ rfl rfl rfl
    · exact counts _ rfl rfl rfl
  · exact counts _ rfl rfl rfl

/-- A line is counted as a line of its class: the pass and the judgement of chunks ask the same
questions of the same code. -/
theorem counts_take : tally.Counts (tally.take language line)
    [LineClass.of language line (language.lexicon.strip tally.mode line)] := by
  simp only [take, LineClass.of, Text.isEmpty_trim]
  split
  · exact ⟨rfl, rfl, rfl⟩
  · split
    · exact ⟨rfl, rfl, rfl⟩
    · split
      · exact tally.counts_takeLogical language line rfl _ _
      · exact tally.counts_takeLogical language line rfl _ _

/-! ## All lines -/

/-- Behind the lines at the start of a file, the pass is in the mode to which they lead. -/
theorem mode_behind (above : List (List Char)) :
    (behind language above).mode = language.lexicon.modeBehind .code above := by
  suffices same : ∀ tally : ComplexityTally, (above.foldl (take language) tally).mode =
      language.lexicon.modeBehind tally.mode above from same {}
  induction above with
  | nil => exact fun _ => rfl
  | cons line above induction =>
      intro tally
      rw [List.foldl_cons, induction, mode_take]
      rfl

/-- A line of a file is counted as a line of the class that it has below the lines above it. -/
theorem counts_behind_concat (above : List (List Char)) (line : List Char) :
    (behind language above).Counts (behind language (above ++ [line]))
      [LineClass.of language line
        (language.lexicon.strip (language.lexicon.modeBehind .code above) line)] := by
  have counts := (behind language above).counts_take language line
  rwa [mode_behind, ← behind_concat] at counts

end ComplexityTally

namespace LineClass

theorem ofLines_concat (language : Language) (above : List (List Char)) (line : List Char) :
    ofLines language (above ++ [line]) = ofLines language above ++
      [of language line
        (language.lexicon.strip (language.lexicon.modeBehind .code above) line)] := by
  simp only [ofLines, Lexicon.stripLines_append, Lexicon.stripLines]
  rw [List.zip_append (Lexicon.length_stripLines _ _ _).symm, List.map_append]
  rfl

theorem length_ofLines (language : Language) (lines : List (List Char)) :
    (ofLines language lines).length = lines.length := by
  simp [ofLines]

/-- The class of a line depends on the lines above it alone. -/
theorem getElem?_ofLines (language : Language) (lines : List (List Char)) (index : Nat) :
    (ofLines language lines)[index]? = lines[index]?.map fun line =>
      of language line
        (language.lexicon.strip (language.lexicon.modeBehind .code (lines.take index)) line) := by
  rw [ofLines, List.getElem?_map, List.zip, List.getElem?_zipWith, Lexicon.getElem?_stripLines]
  cases lines[index]? <;> rfl

theorem length_eq_counts (classes : List LineClass) :
    classes.countP isLogical + classes.count .comment + classes.count .blank = classes.length := by
  induction classes with
  | nil => rfl
  | cons lineClass classes induction =>
      rw [List.countP_cons, List.count_cons, List.count_cons, List.length_cons, ← induction]
      cases lineClass <;> simp [isLogical] <;> omega

end LineClass

open ComplexityTally

theorem ComplexityTally.counts_behind (language : Language) (lines : List (List Char)) :
    Counts {} (behind language lines) (LineClass.ofLines language lines) := by
  induction lines using List.reverseRecOn with
  | nil => exact ⟨rfl, rfl, rfl⟩
  | append_singleton above line induction =>
      rw [LineClass.ofLines_concat]
      exact induction.append (counts_behind_concat language above line)

/-- The measures of a file and its chunks agree on every line: each line is counted as blank, as a
comment or as code just if it is of that class, where imports are code too. In all, every line is
counted once. -/
theorem measureComplexity_counts_classes (language : Language) (content : String) :
    let lines := Text.lines content.toList
    let classes := LineClass.ofLines language lines
    let report := measureComplexity language content
    report.logicalLines + report.commentLines + report.blankLines = lines.length ∧
      (report.blankLines = classes.count .blank ∧ report.commentLines = classes.count .comment ∧
        report.logicalLines = classes.countP LineClass.isLogical) ∧
      classes.length = lines.length ∧
      ∀ index, (behind language (lines.take index)).Counts
        (behind language (lines.take (index + 1))) (classes[index]?).toList := by
  intro lines classes report
  have length : classes.length = lines.length := LineClass.length_ofLines language lines
  have counts : Counts {} (behind language lines) classes := counts_behind language lines
  have blank : report.blankLines = classes.count .blank := counts.blank.trans (Nat.zero_add _)
  have comment : report.commentLines = classes.count .comment :=
    counts.comment.trans (Nat.zero_add _)
  have logical : report.logicalLines = classes.countP LineClass.isLogical :=
    counts.logical.trans (Nat.zero_add _)
  refine ⟨?_, ⟨blank, comment, logical⟩, length, fun index => ?_⟩
  · rw [blank, comment, logical, LineClass.length_eq_counts, length]
  · rw [LineClass.getElem?_ofLines, List.take_add_one]
    cases lines[index]? with
    | none =>
        rw [Option.toList_none, List.append_nil]
        exact ⟨rfl, rfl, rfl⟩
    | some line => exact counts_behind_concat language (lines.take index) line

/-- A line of a comment that looks like code, and a blank one in a string. -/
example : LineClass.ofLines .python ["\"\"\"".toList, "import a".toList, [], "\"\"\"".toList] =
    [.comment, .comment, .blank, .comment] := by decide +kernel

end SourceIndex
