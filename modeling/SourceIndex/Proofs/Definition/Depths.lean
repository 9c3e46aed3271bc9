import SourceIndex.Complexity.Measurement
import SourceIndex.Proofs.Code.Depths
import SourceIndex.Proofs.Definition.CommentText
import SourceIndex.Proofs.Text.Trimming

/-! How deep the lines of a file lead. The measures of a file follow its braces one by one, and so
does the walk over a line that tells a scan for definitions which scopes end. What the scan carries
to the next line is counted once a line instead: it falls short by the surplus braces of the line,
so that it is right if there are none, or if the line leaves no brace open. -/

namespace SourceIndex

/-! ## Lines without strings and comments -/

namespace Text

theorem noBrace_of_isBlank {character : Char} (blank : isBlank character = true) :
    character ≠ '\x7b' ∧ character ≠ '\x7d' := by
  constructor <;> rintro rfl <;> exact absurd blank (by decide)

theorem depthBehind_of_blank (depth : Nat) {text : List Char}
    (blank : ∀ character ∈ text, isBlank character = true) : depthBehind depth text = depth :=
  depthBehind_of_no_brace depth fun character member => noBrace_of_isBlank (blank character member)

/-- Blanks around a text do not change its depth. -/
theorem depthBehind_trim (depth : Nat) (text : List Char) :
    depthBehind depth (trim text) = depthBehind depth text := by
  rcases exists_trim text with ⟨front, back, parts, blank⟩
  have inFront := fun character member => blank character (List.mem_append_left back member)
  have behind := fun character member => blank character (List.mem_append_right front member)
  conv_rhs => rw [parts]
  rw [depthBehind_append, depthBehind_append, depthBehind_of_blank _ inFront,
    depthBehind_of_blank _ behind]

/-- Blanks around a text hold no other characters. -/
theorem count_trim {character : Char} (noBlank : isBlank character = false) (text : List Char) :
    text.count character = (trim text).count character := by
  rcases exists_trim text with ⟨front, back, parts, blank⟩
  have outside : ∀ around : List Char, (∀ other ∈ around, isBlank other = true) →
      around.count character = 0 := by
    intro around blank
    rw [List.count_eq_zero]
    intro member
    rw [blank character member] at noBlank
    cases noBlank
  conv_lhs => rw [parts]
  rw [List.count_append, List.count_append,
    outside front fun other member => blank other (List.mem_append_left back member),
    outside back fun other member => blank other (List.mem_append_right front member)]
  omega

end Text

namespace Lexicon

variable (lexicon : Lexicon)

theorem mem_code_stepAt? {mode : Mode} {first : Char} {text : List Char} {step : Step}
    (taken : lexicon.stepAt? mode first text = some step) :
    ∀ character ∈ step.code, character = first ∨ character = ' ' := by
  have takes : ∀ {length mode isComment} {code : List Char},
      (∀ character ∈ code, character = first ∨ character = ' ') →
      some (Step.take length mode isComment code) = some step →
      ∀ character ∈ step.code, character = first ∨ character = ' ' := by
    intro length mode isComment code kept same
    cases same
    exact kept
  rw [stepAt?.eq_def] at taken
  cases mode with
  | blockComment =>
      simp only at taken
      split at taken
      · split at taken <;> exact takes (by simp) taken
      · exact takes (by simp) taken
  | docBlock mark =>
      simp only at taken
      split at taken <;> exact takes (by simp) taken
  | string style =>
      simp only at taken
      split at taken
      · exact takes (by simp) taken
      · split at taken <;> exact takes (by simp) taken
  | code =>
      simp only at taken
      split at taken
      · cases taken
      · split at taken
        · exact takes (by simp) taken
        · split at taken
          · next quote =>
              rw [Bool.and_eq_true, beq_iff_eq] at quote
              split at taken <;> exact takes (by simp [quote.2]) taken
          · split at taken <;> exact takes (by simp) taken

theorem mem_code_stripFrom (mode : Mode) (skip : Nat) (line : List Char) :
    ∀ character ∈ (lexicon.stripFrom mode skip line).code, character ∈ line ∨ character = ' ' := by
  induction line generalizing mode skip with
  | nil => exact fun character member => absurd member List.not_mem_nil
  | cons first rest induction =>
      intro character member
      cases skip with
      | succ skip =>
          rw [stripFrom] at member
          exact (induction mode skip character member).imp_left (List.mem_cons_of_mem _)
      | zero =>
          rw [stripFrom] at member
          split at member
          · exact absurd member List.not_mem_nil
          · next step taken =>
              rcases List.mem_append.mp member with here | later
              · refine (lexicon.mem_code_stepAt? taken character here).imp_left ?_
                rintro rfl
                exact List.mem_cons_self ..
              · exact (induction _ _ character later).imp_left (List.mem_cons_of_mem _)

/-- The code of a line consists of characters of the line, and of blanks. -/
theorem mem_code_strip (mode : Mode) (line : List Char) :
    ∀ character ∈ (lexicon.strip mode line).code, character ∈ line ∨ character = ' ' := by
  simp only [strip]
  split
  · exact lexicon.mem_code_stripFrom _ _ line
  · exact lexicon.mem_code_stripFrom _ _ line

theorem isBlank_code_strip (mode : Mode) {line : List Char} (blank : Text.isBlankText line = true) :
    ∀ character ∈ (lexicon.strip mode line).code, Text.isBlank character = true := by
  intro character member
  rcases lexicon.mem_code_strip mode line character member with inLine | rfl
  · exact List.all_eq_true.mp blank character inLine
  · rfl

end Lexicon

/-! ## The tally -/

namespace ComplexityTally

/-- The tally of lines at the start of a file. -/
def behind (language : Language) (above : List (List Char)) : ComplexityTally :=
  above.foldl (take language) {}

theorem behind_concat (language : Language) (above : List (List Char)) (line : List Char) :
    behind language (above ++ [line]) = (behind language above).take language line :=
  List.foldl_concat ..

theorem fst_foldl_takeBrace (depths : Nat × Nat) (code : List Char) :
    (code.foldl takeBrace depths).1 = depthBehind depths.1 code := by
  induction code generalizing depths with
  | nil => rfl
  | cons character code induction =>
      rw [List.foldl_cons, induction, depthBehind_cons]
      congr 1
      rw [takeBrace.eq_def, braceDepth]
      simp only
      split
      · rfl
      · split <;> rfl

variable (language : Language) (tally : ComplexityTally) (line : List Char)

theorem mode_take :
    (tally.take language line).mode = (language.lexicon.strip tally.mode line).mode := by
  simp only [take]
  split
  · rfl
  · split
    · rfl
    · simp only [takeLogical]
      split
      · split <;> rfl
      · rfl

theorem depth_take (braces : language.scopeStyle = .braces) :
    (tally.take language line).depth =
      depthBehind tally.depth (language.lexicon.strip tally.mode line).code := by
  simp only [take]
  split
  · next blank => exact (Text.depthBehind_of_blank _ (language.lexicon.isBlank_code_strip _ blank)).symm
  · split
    · next comment =>
        rw [Bool.and_eq_true, List.isEmpty_iff] at comment
        rw [← Text.depthBehind_trim, comment.1]
        rfl
    · simp only [takeLogical, braces, reduceCtorEq, if_false]
      rw [fst_foldl_takeBrace, Text.depthBehind_trim]

end ComplexityTally

/-! ## The scan -/

namespace BraceScan

variable (language : Language) (input : ScanInput) (scan : BraceScan) (line : List Char)

/-- What a scan sees of a line. -/
def codeOn : List Char := (language.lexicon.strip scan.mode line).code

/-- The walk over the braces of a line. -/
def walkOn : BraceWalk := BraceWalk.ofLine scan.depth (scan.codeOn language line)

theorem behind_concat (above : List (List Char)) (line : List Char) :
    behind language input (above ++ [line]) =
      (behind language input above).take language input line :=
  List.foldl_concat ..

/-- The code of a line changes neither the mode of a scan nor its depth. -/
theorem mode_depth_takeCode (code : List Char) (walk : BraceWalk) :
    (scan.takeCode language input line code walk).mode = scan.mode ∧
      (scan.takeCode language input line code walk).depth = scan.depth := by
  simp only [takeCode, takeDefinition, takeContinuation, takeOther]
  repeat' split
  all_goals exact ⟨rfl, rfl⟩

theorem mode_take : (scan.take language input line).mode =
    (language.lexicon.strip scan.mode line).mode := by
  simp only [take]
  split
  · rfl
  · exact (mode_depth_takeCode language input _ line _ _).1

/-- What is carried to the next line falls short of the depth behind a line by its surplus
braces. -/
theorem depth_take : (scan.take language input line).depth =
    (scan.walkOn language line).depth - surplus scan.depth (scan.codeOn language line) := by
  have counted : scan.depth + (scan.walkOn language line).opens -
      (scan.walkOn language line).closes =
        (scan.walkOn language line).depth - surplus scan.depth (scan.codeOn language line) := by
    rw [walkOn, BraceWalk.depth_ofLine]
    exact BraceWalk.depth_add_opens_sub_closes _ _
  rw [← counted]
  simp only [take]
  split
  · rfl
  · exact (mode_depth_takeCode language input _ line _ _).2

theorem depth_take_eq_iff :
    (scan.take language input line).depth = (scan.walkOn language line).depth ↔
      surplus scan.depth (scan.codeOn language line) = 0 ∨
        (scan.walkOn language line).depth = 0 := by
  rw [depth_take]
  omega

/-- The tally and the scan of the same lines agree on what is code. -/
theorem mode_behind (above : List (List Char)) :
    (ComplexityTally.behind language above).mode = (behind language input above).mode := by
  induction above using List.reverseRecOn with
  | nil => rfl
  | append_singleton above line induction =>
      rw [ComplexityTally.behind_concat, behind_concat, ComplexityTally.mode_take, mode_take,
        induction]

theorem depth_tally_concat (braces : language.scopeStyle = .braces) (above : List (List Char)) :
    (ComplexityTally.behind language (above ++ [line])).depth =
      depthBehind (ComplexityTally.behind language above).depth
        ((behind language input above).codeOn language line) := by
  rw [ComplexityTally.behind_concat, ComplexityTally.depth_take _ _ _ braces,
    mode_behind language input, codeOn]

end BraceScan

/-- On each line, what a scan carries to the next line falls short of the depth that the walk over
the line reaches by the surplus braces of the line, so that both are equal just if there are none or
the walk reaches the depth zero; and the measures of the file follow the braces of the line as the
walk does. So the scan and the measures agree on the depth behind every line just if no line with
surplus braces leaves a brace open. -/
theorem depth_carried_iff (language : Language) (braces : language.scopeStyle = .braces)
    (input : ScanInput) :
    (∀ above line, above ++ [line] <+: input.lines →
      let scan := BraceScan.behind language input above
      let code := scan.codeOn language line
      let reached := (scan.walkOn language line).depth
      let carried := (BraceScan.behind language input (above ++ [line])).depth
      carried = reached - surplus scan.depth code ∧
      (carried = reached ↔ surplus scan.depth code = 0 ∨ reached = 0) ∧
      (ComplexityTally.behind language (above ++ [line])).depth =
        (BraceWalk.ofLine (ComplexityTally.behind language above).depth code).depth) ∧
    ((∀ above, above <+: input.lines →
        (BraceScan.behind language input above).depth =
          (ComplexityTally.behind language above).depth) ↔
      ∀ above line, above ++ [line] <+: input.lines →
        let scan := BraceScan.behind language input above
        surplus scan.depth (scan.codeOn language line) = 0 ∨
          (scan.walkOn language line).depth = 0) := by
  have tally := fun above line => BraceScan.depth_tally_concat language input line braces above
  refine ⟨fun above line _ => ⟨?_, ?_, ?_⟩, fun agree above line isAbove => ?_, fun exact => ?_⟩
  · rw [BraceScan.behind_concat]
    exact BraceScan.depth_take ..
  · rw [BraceScan.behind_concat]
    exact BraceScan.depth_take_eq_iff ..
  · rw [tally, BraceWalk.depth_ofLine]
  · have here := agree (above ++ [line]) isAbove
    rw [tally, ← agree above ((List.prefix_append _ _).trans isAbove),
      BraceScan.behind_concat] at here
    rw [← BraceScan.depth_take_eq_iff language input, here]
    exact (BraceWalk.depth_ofLine _ _).symm
  · -- From line to line: both start at one depth, and the walk leads both to the same.
    intro above
    induction above using List.reverseRecOn with
    | nil => exact fun _ => rfl
    | append_singleton above line induction =>
        intro isAbove
        have former := induction ((List.prefix_append _ _).trans isAbove)
        rw [tally, ← former, BraceScan.behind_concat,
          (BraceScan.depth_take_eq_iff ..).mpr (exact above line isAbove)]
        exact BraceWalk.depth_ofLine _ _

/-- A function whose line closes one brace too many before it opens the function's block: the
measures are inside of the block behind the line, the scan is not. -/
theorem depth_carried_short :
    let input : ScanInput := ⟨"f", 1, none,
      ["function f() \x7b \x7d \x7d \x7b".toList, "if (x) \x7b \x7d".toList, "\x7d".toList]⟩
    ¬ ∀ above, above <+: input.lines →
      (BraceScan.behind .javascript input above).depth =
        (ComplexityTally.behind .javascript above).depth := by
  intro input agree
  have exact := (depth_carried_iff .javascript rfl input).2.mp agree []
    "function f() \x7b \x7d \x7d \x7b".toList (by decide)
  revert exact
  decide +kernel

end SourceIndex
