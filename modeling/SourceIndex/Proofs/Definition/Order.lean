import SourceIndex.Proofs.Definition.Parents

/-! No two definitions of a file start on one line: each scan takes at most one definition from a
line, and the lines go up. -/

namespace SourceIndex

/-- Whether definitions start on lines that go up. -/
def StartsGoUp (definitions : List Definition) : Prop :=
  definitions.Pairwise fun definition later => definition.startLine < later.startLine

/-! ## Findings -/

namespace Findings

/-- The lines on which the definitions found so far start. -/
def startLines (findings : Findings) : List Nat :=
  findings.definitions.toList.map (·.startLine)

theorem passesOverEnds_startLine : PassesOverEnds Definition.startLine := fun _ _ => rfl

variable (findings : Findings)

theorem startLines_add (definition : Definition) :
    (findings.add definition).startLines = findings.startLines ++ [definition.startLine] :=
  findings.shown_add definition

@[simp] theorem startLines_closeFrom (depth line : Nat) :
    (findings.closeFrom depth line).startLines = findings.startLines :=
  findings.shown_closeFrom passesOverEnds_startLine depth line

@[simp] theorem startLines_closeAll (line : Nat) :
    (findings.closeAll line).startLines = findings.startLines :=
  findings.shown_closeAll passesOverEnds_startLine line

@[simp] theorem startLines_openScope (definition depth : Nat) :
    (findings.openScope definition depth).startLines = findings.startLines := rfl

end Findings

/-! ## Line by line -/

/-- A scan that finds at most one definition on each line finds definitions that start on lines that
go up. -/
theorem startLines_foldl {Scan : Type} {take : Scan → List Char → Scan}
    (startsOf : Scan → List Nat) (lineOf : Scan → Nat)
    (step : ∀ scan line, (startsOf (take scan line)).Sublist (startsOf scan ++ [lineOf scan]))
    (next : ∀ scan line, lineOf (take scan line) = lineOf scan + 1) (lines : List (List Char))
    (scan : Scan) : (startsOf (lines.foldl take scan)).Sublist
      (startsOf scan ++ List.range' (lineOf scan) lines.length) := by
  induction lines generalizing scan with
  | nil => exact List.sublist_append_left _ _
  | cons line lines induction =>
      have rest := induction (take scan line)
      rw [next] at rest
      rw [List.foldl_cons, List.length_cons, List.range'_succ, List.append_cons]
      exact rest.trans ((step scan line).append_right _)

theorem startsGoUp_of_sublist {definitions : List Definition} {first count : Nat}
    (within : (definitions.map (·.startLine)).Sublist (List.range' first count)) :
    StartsGoUp definitions :=
  List.pairwise_map.mp (List.Pairwise.sublist within List.pairwise_lt_range')

/-! ## Scopes with braces -/

namespace BraceScan

variable (scan : BraceScan) (language : Language) (input : ScanInput)

section View

variable {View : Type} {view : Definition → View} (passes : Findings.PassesOverEnds view)
include passes

theorem shown_closeScopes (walk : BraceWalk) :
    (scan.closeScopes walk).findings.shown view = scan.findings.shown view := by
  simp only [closeScopes]
  generalize walk.closeDepths.reverse = depths
  generalize scan.findings = findings
  induction depths generalizing findings with
  | nil => rfl
  | cons depth depths induction =>
      rw [List.foldl_cons, induction]
      exact findings.shown_closeFrom passes depth scan.lineNumber

theorem shown_takeContinuation (pending : PendingBlock) (code : List Char) (walk : BraceWalk) :
    (scan.takeContinuation pending code walk).findings.shown view = scan.findings.shown view := by
  simp only [takeContinuation]
  split
  · split
    · rfl
    · exact scan.findings.shown_endAt passes pending.definition scan.lineNumber
  · split <;> rfl

theorem shown_takeDefinition (definition : Definition) (opensBlock : Bool) (code : List Char)
    (walk : BraceWalk) :
    (scan.takeDefinition definition opensBlock code walk).findings.shown view =
      scan.findings.shown view ++ [view definition] := by
  have added : (scan.findings.add definition).shown view =
      scan.findings.shown view ++ [view definition] := scan.findings.shown_add definition
  simp only [takeDefinition]
  split
  · split
    · exact added
    · split
      · exact (Findings.shown_endAt _ passes _ scan.lineNumber).trans added
      · split
        · exact added
        · exact added
  · exact added

end View

theorem startLines_closeScopes (walk : BraceWalk) :
    (scan.closeScopes walk).findings.startLines = scan.findings.startLines :=
  scan.shown_closeScopes Findings.passesOverEnds_startLine walk

theorem startLines_takeContinuation (pending : PendingBlock) (code : List Char)
    (walk : BraceWalk) :
    (scan.takeContinuation pending code walk).findings.startLines = scan.findings.startLines :=
  scan.shown_takeContinuation Findings.passesOverEnds_startLine pending code walk

theorem startLines_takeDefinition (definition : Definition) (opensBlock : Bool)
    (code : List Char) (walk : BraceWalk) :
    (scan.takeDefinition definition opensBlock code walk).findings.startLines =
      scan.findings.startLines ++ [definition.startLine] :=
  scan.shown_takeDefinition Findings.passesOverEnds_startLine definition opensBlock code walk

theorem startLines_takeCode (line code : List Char) (walk : BraceWalk) :
    (scan.takeCode language input line code walk).findings.startLines.Sublist
      (scan.findings.startLines ++ [scan.lineNumber]) := by
  unfold takeCode
  simp only
  split
  · next definition opensBlock recognized =>
      rw [startLines_takeDefinition, Definition.startLine_of_recognize? recognized]
      exact List.Sublist.refl _
  · next pending _ _ =>
      split
      · rw [startLines_takeContinuation]
        exact List.sublist_append_left _ _
      · exact List.sublist_append_left _ _
  · exact List.sublist_append_left _ _

theorem startLines_take (line : List Char) :
    (scan.take language input line).findings.startLines.Sublist
      (scan.findings.startLines ++ [scan.lineNumber]) := by
  let stripped := language.lexicon.strip scan.mode line
  let walk := BraceWalk.ofLine scan.depth stripped.code
  let before : BraceScan := { scan with mode := stripped.mode }
  have closed : (before.closeScopes walk).findings.startLines = scan.findings.startLines :=
    before.startLines_closeScopes walk
  unfold take
  simp only
  split
  · rw [closed]
    exact List.sublist_append_left _ _
  · have taken := (before.closeScopes walk).startLines_takeCode language input line
      (Text.trim stripped.code) walk
    rw [closed] at taken
    exact taken

end BraceScan

theorem startLines_scanBraces (language : Language) (input : ScanInput) :
    ((scanBraces language input).map (·.startLine)).Sublist
      (List.range' input.firstLine input.lines.length) := by
  have final := startLines_foldl (fun scan : BraceScan => scan.findings.startLines)
    BraceScan.lineNumber (fun scan line => scan.startLines_take language input line)
    (fun scan line => scan.lineNumber_take language input line) input.lines
    { lineNumber := input.firstLine }
  unfold scanBraces
  simp only
  rw [← Findings.startLines, Findings.startLines_closeAll]
  exact final

/-! ## Scopes with indentation -/

namespace IndentScan

variable (scan : IndentScan) (language : Language) (input : ScanInput)

theorem startLines_takeStatement (line code : List Char) :
    (scan.takeStatement language input line code).findings.startLines.Sublist
      (scan.findings.startLines ++ [scan.lineNumber]) := by
  have closed := scan.findings.startLines_closeFrom (indentWidth line) scan.lastCodeLine
  unfold takeStatement
  simp only
  split
  · rw [closed]
    exact List.sublist_append_left _ _
  · split
    · next definition opensBlock recognized =>
        have starts := Definition.startLine_of_recognize? recognized
        have added := (scan.findings.closeFrom (indentWidth line)
          scan.lastCodeLine).startLines_add definition
        rw [closed, starts] at added
        split
        · rw [Findings.startLines_openScope, added]
          exact List.Sublist.refl _
        · rw [added]
          exact List.Sublist.refl _
    · rw [closed]
      exact List.sublist_append_left _ _

theorem startLines_take (line : List Char) :
    (scan.take language input line).findings.startLines.Sublist
      (scan.findings.startLines ++ [scan.lineNumber]) := by
  unfold take
  simp only
  split
  · exact List.sublist_append_left _ _
  · split
    · exact List.sublist_append_left _ _
    · exact startLines_takeStatement _ language input line _

end IndentScan

theorem startLines_scanIndentation (language : Language) (input : ScanInput) :
    ((scanIndentation language input).map (·.startLine)).Sublist
      (List.range' input.firstLine input.lines.length) := by
  have final := startLines_foldl (fun scan : IndentScan => scan.findings.startLines)
    IndentScan.lineNumber (fun scan line => scan.startLines_take language input line)
    (fun scan line => scan.lineNumber_take language input line) input.lines
    { lineNumber := input.firstLine, lastCodeLine := input.firstLine }
  unfold scanIndentation
  simp only
  rw [← Findings.startLines, Findings.startLines_closeAll]
  exact final

/-! ## Lines that are each taken alone -/

theorem startsGoUp_scanPlain (language : Language) (input : ScanInput) :
    StartsGoUp (scanPlain language input) := by
  have numbers : ∀ lines : List (List Char × Lexicon.Stripped),
      (lines.zipIdx input.firstLine).Pairwise fun line later => line.2 < later.2 := by
    intro lines
    rw [← List.pairwise_map, List.zipIdx_map_snd]
    exact List.pairwise_lt_range'
  have starts : ∀ (entry : (List Char × Lexicon.Stripped) × Nat) definition,
      (if Text.isBlankText entry.1.2.code then none
        else (Definition.recognize? language ⟨input.fileId, entry.2, .topLevel, none, []⟩
          entry.1.1).map (·.1)) = some definition → definition.startLine = entry.2 := by
    intro entry definition made
    split at made
    · cases made
    · rcases Option.map_eq_some_iff.mp made with ⟨⟨found, opensBlock⟩, recognized, rfl⟩
      exact Definition.startLine_of_recognize? recognized
  unfold scanPlain StartsGoUp
  simp only
  rw [List.pairwise_filterMap]
  apply (numbers _).imp
  intro entry later before definition made other otherMade
  rwa [starts entry definition made, starts later other otherMade]

/-! ## Documents -/

/-- What is found between the tags of a region starts behind the region itself. -/
theorem startsGoUp_section {region : Region} {sectionOf : Definition}
    (starts : sectionOf.startLine = region.start + 1) {first last : Nat}
    (inner : region.innerLines? = some (first, last)) {definitions : List Definition} {count : Nat}
    (nested : (definitions.map (·.startLine)).Sublist (List.range' (first + 1) count))
    (few : count ≤ last - first + 1) :
    StartsGoUp (sectionOf :: definitions) ∧ ∀ definition ∈ sectionOf :: definitions,
      region.start < definition.startLine ∧ definition.startLine ≤ region.stop + 1 := by
  rw [Region.innerLines?_eq_some_iff] at inner
  have inside : ∀ definition ∈ definitions, region.start + 1 < definition.startLine ∧
      definition.startLine ≤ region.stop := by
    intro definition member
    have bounds := nested.subset (List.mem_map_of_mem member)
    rw [List.mem_range'_1] at bounds
    omega
  constructor
  · refine List.pairwise_cons.mpr ⟨fun definition member => ?_, startsGoUp_of_sublist nested⟩
    rw [starts]
    exact (inside definition member).1
  · intro definition member
    rcases List.mem_cons.mp member with rfl | member
    · omega
    · have := inside definition member
      omega

/-- What is found in a region starts on its lines. -/
theorem startsGoUp_regionDefinitions (language : Language) (fileId : String)
    (lines : List (List Char)) {region : Region} (order : region.start ≤ region.stop) :
    StartsGoUp (regionDefinitions language fileId lines region) ∧
      ∀ definition ∈ regionDefinitions language fileId lines region,
        region.start < definition.startLine ∧ definition.startLine ≤ region.stop + 1 := by
  unfold regionDefinitions
  simp only
  split
  · next script first last _ inner =>
      refine startsGoUp_section rfl inner ?_
        (List.length_take_le (last - first + 1) (lines.drop first))
      split
      · exact startLines_scanIndentation script _
      · exact startLines_scanBraces script _
  · refine ⟨List.pairwise_singleton _ _, fun definition member => ?_⟩
    have starts : definition.startLine = region.start + 1 := by
      rw [List.mem_singleton.mp member]
      rfl
    omega

theorem startsGoUp_scanMarkup (language : Language) (fileId : String) (lines : List (List Char)) :
    StartsGoUp (scanMarkup language fileId lines) := by
  have regions := Region.inOrder_findAll lines
  have found := fun region member =>
    startsGoUp_regionDefinitions language fileId lines (regions.within region member).2.1
  unfold scanMarkup StartsGoUp
  rw [List.pairwise_flatMap]
  refine ⟨fun region member => (found region member).1, ?_⟩
  apply List.Pairwise.imp_of_mem _ regions.apart
  intro region other member otherMember before definition inside later laterInside
  have := (found region member).2 definition inside
  have := (found other otherMember).2 later laterInside
  omega

/-! ## Files -/

/-- No two definitions start on one line, in every language and every text. -/
theorem startsGoUp_extractDefinitions (language : Language) (fileId content : String) :
    StartsGoUp (extractDefinitions language fileId content) := by
  unfold extractDefinitions
  simp only
  split
  · exact startsGoUp_of_sublist (startLines_scanBraces language _)
  · exact startsGoUp_of_sublist (startLines_scanIndentation language _)
  · exact startsGoUp_scanPlain language _
  · exact startsGoUp_scanMarkup language fileId _

end SourceIndex
