import SourceIndex.Proofs.Definition.IndentedBlocks
import SourceIndex.Proofs.Pattern.Reading

/-! Where indented blocks end and what stands in them. The definition of a block ends on the last line
with code that the block reaches over, and a new definition stands in the innermost block that reaches
beyond its line. -/

namespace SourceIndex

namespace IndentScan

open BraceScan (codeLines length_codeLines)

variable {language : Language} {input : ScanInput} {index : Nat} {line : List Char}

/-! ## Ends -/

theorem nested_aboveLine (language : Language) (input : ScanInput) (index : Nat) :
    Nested input (aboveLine language input index) := by
  have start : Nested input { lineNumber := input.firstLine, lastCodeLine := input.firstLine } :=
    Findings.nested_empty _ _ _
  exact (start.takeAll language (input.lines.take index) (Nat.le_refl _)).1

theorem startLine_le_lastCodeLine {place : Nat} {definition : Definition}
    (found : (aboveLine language input index).findings.definitions[place]? = some definition) :
    definition.startLine ≤ (aboveLine language input index).lastCodeLine := by
  have starts := ((nested_aboveLine language input index).lines place definition found).2
  omega

/-- Of the definitions of blocks, those of certain blocks are ended, and no others. -/
theorem ended_eq (inFile : index ≤ input.lines.length) {block : IndentedBlock}
    (member : block ∈ blocksAbove language input index) (ends : IndentedBlock → Bool) (last : Nat)
    (definition : Definition) :
    Findings.ended (((blocksAbove language input index).filter ends).map (·.scope input)) last
        block.definition definition =
      if ends block then { definition with endLine := max last definition.startLine }
      else definition := by
  have same : (((blocksAbove language input index).filter ends).map (·.scope input)).any
      (·.definition == block.definition) = ends block := by
    rw [Bool.eq_iff_iff, List.any_map, List.any_eq_true]
    constructor
    · rintro ⟨other, isEnded, same⟩
      rcases List.mem_filter.mp isEnded with ⟨above, ended⟩
      have equal : other = block :=
        eq_of_definition_eq inFile above member (by simpa [IndentedBlock.scope] using same)
      exact equal ▸ ended
    · exact fun isEnded =>
        ⟨block, List.mem_filter.mpr ⟨member, isEnded⟩, by simp [IndentedBlock.scope]⟩
  rw [Findings.ended, same]

/-- The blocks that reach to a line, but not beyond it. -/
def blocksClosedOn (language : Language) (input : ScanInput) (index : Nat) : List IndentedBlock :=
  (blocksAbove language input index).filter fun block =>
    block.Reaches input (carriedStatement language input) index ∧
      ¬ block.Reaches input (carriedStatement language input) (index + 1)

/-- A line ends the definitions of the blocks that do not reach beyond it on the last line with
code. -/
theorem getElem?_closedOn (isLine : input.lines[index]? = some line) (place : Nat) :
    ((aboveLine language input index).closedOn language line).definitions[place]? =
      (aboveLine language input index).findings.definitions[place]?.map
        (Findings.ended ((blocksClosedOn language input index).map (·.scope input))
          (aboveLine language input index).lastCodeLine place) := by
  have inFile := Nat.le_of_lt (List.getElem?_eq_some_iff.mp isLine).1
  have isOpen : HasOpen language input index := hasOpen language inFile
  have indent : input.indentOf index = indentWidth line := by simp [ScanInput.indentOf, isLine]
  have next := fun block (member : block ∈ blocksAbove language input index) =>
    @IndentedBlock.reaches_succ_iff input (carriedStatement language input) index block
      (exists_of_mem_blocksAbove member).1
  rw [closedOn, ← isStatement_eq isLine, ← carriedStatement, blocksClosedOn]
  split
  · next starts =>
      rw [Findings.getElem?_closeFrom]
      congr 1
      refine Findings.ended_congr _ _ fun scope => ?_
      rw [Findings.mem_takeWhile_iff isOpen.isNestedByDepth, isOpen, ← indent]
      simp only [List.mem_map, List.mem_filter, decide_eq_true_iff]
      constructor
      · rintro ⟨⟨block, ⟨member, reaches⟩, rfl⟩, deep⟩
        refine ⟨block, ⟨member, reaches, fun beyond => ?_⟩, rfl⟩
        exact Nat.not_le.mpr (((next block member).mp beyond).2 starts) deep
      · rintro ⟨block, ⟨member, reaches, ends⟩, rfl⟩
        refine ⟨⟨block, ⟨member, reaches⟩, rfl⟩, Nat.le_of_not_lt fun deeper => ends ?_⟩
        exact (next block member).mpr ⟨reaches, fun _ => deeper⟩
  · next continues =>
      have none : ∀ block ∈ blocksAbove language input index,
          ¬ (decide (block.Reaches input (carriedStatement language input) index ∧
            ¬ block.Reaches input (carriedStatement language input) (index + 1)) = true) := by
        intro block member
        simp [next block member, continues]
      rw [List.filter_eq_nil_iff.mpr none]
      simp

theorem holdsCode_of_mem_blocksAbove {block : IndentedBlock}
    (member : block ∈ blocksAbove language input index) :
    holdsCode language input block.line = true := by
  have starts := carriedStatement_of_blockOn? (exists_of_mem_blocksAbove member).2
  rw [carriedStatement, isStatement, Bool.and_eq_true, Bool.and_eq_true] at starts
  exact starts.1.1

/-- What is picked on a line leaves the other definitions as they are. -/
theorem getElem?_aboveLine_succ (isLine : input.lines[index]? = some line) {place : Nat}
    (inside : place < (aboveLine language input index).findings.definitions.size) :
    (aboveLine language input (index + 1)).findings.definitions[place]? =
      ((aboveLine language input index).closedOn language line).definitions[place]? := by
  have other : place ≠
      ((aboveLine language input index).closedOn language line).definitions.size := by
    rw [size_closedOn]
    omega
  rw [aboveLine_succ isLine, findings_take]
  cases (aboveLine language input index).pickOn? language input line with
  | none => rfl
  | some pick =>
      rw [Findings.receive]
      split
      · exact (Findings.getElem?_add _ _ _).trans (if_neg other)
      · exact (Findings.getElem?_add _ _ _).trans (if_neg other)

/-- Above a line, the definition of each block that does not reach to the line has ended where the
block does. -/
def EndsClosed (language : Language) (input : ScanInput) (index : Nat) : Prop :=
  ∀ block ∈ blocksAbove language input index,
    ¬ block.Reaches input (carriedStatement language input) index →
    ∃ last, block.EndsOn language input (carriedStatement language input) last ∧
      ∃ definition,
        (aboveLine language input index).findings.definitions[block.definition]? =
          some definition ∧
        definition.endLine = input.firstLine + last

theorem EndsClosed.step (ends : EndsClosed language input index)
    (isLine : input.lines[index]? = some line) : EndsClosed language input (index + 1) := by
  have inFile := Nat.le_of_lt (List.getElem?_eq_some_iff.mp isLine).1
  intro block member closed
  have above : block ∈ blocksAbove language input index := by
    rw [blocksAbove_succ, List.mem_append, Option.mem_toList] at member
    exact member.resolve_left fun opened => closed (reaches_of_blockOn? opened)
  have before := (exists_of_mem_blocksAbove above).1
  have inside := definition_lt_of_mem_blocksAbove inFile above
  rw [getElem?_aboveLine_succ isLine inside, getElem?_closedOn isLine, blocksClosedOn]
  by_cases reaches : block.Reaches input (carriedStatement language input) index
  · -- The line starts a statement that is not indented deeper, and ends the definition.
    rcases exists_isLastCode language inFile before (holdsCode_of_mem_blocksAbove above) with
      ⟨last, isLast, reached⟩
    have found := Array.getElem?_eq_getElem inside
    have starts := startLine_le_lastCodeLine found
    have statement : carriedStatement language input index = true ∧
        input.indentOf index ≤ input.indentOf block.line := by
      rw [IndentedBlock.reaches_succ_iff before, not_and, Classical.not_imp, Nat.not_lt] at closed
      exact closed reaches
    refine ⟨last, ⟨index, reaches, .inr ⟨before, statement⟩, isLast⟩, _,
      by rw [found, Option.map_some], ?_⟩
    rw [ended_eq inFile above, if_pos (by simp [reaches, closed])]
    simp only
    omega
  · -- What has ended stays: no other block has the definition.
    rcases ends block above reaches with ⟨last, endsOn, definition, found, ended⟩
    refine ⟨last, endsOn, definition, ?_, ended⟩
    rw [found, Option.map_some, ended_eq inFile above, if_neg (by simp [reaches])]

theorem endsClosed (language : Language) (inFile : index ≤ input.lines.length) :
    EndsClosed language input index :=
  ScanInput.induction_lines (show EndsClosed language input 0 from nofun)
    (fun _ _ isLine above => EndsClosed.step above isLine) inFile

/-- Blocks that reach to the end of the file end on its last line with code. -/
theorem endsOn_of_mem_blocksAbove {block : IndentedBlock}
    (member : block ∈ blocksAbove language input input.lines.length) :
    ∃ last definition, (scanIndentation language input)[block.definition]? = some definition ∧
      definition.endLine = input.firstLine + last ∧
      block.EndsOn language input (carriedStatement language input) last := by
  have inside := definition_lt_of_mem_blocksAbove (Nat.le_refl _) member
  have isOpen : HasOpen language input input.lines.length := hasOpen language (Nat.le_refl _)
  rw [scanIndentation_eq language input, Array.getElem?_toList, Findings.getElem?_closeAll, isOpen]
  by_cases reaches : block.Reaches input (carriedStatement language input) input.lines.length
  · rcases exists_isLastCode language (Nat.le_refl _) (exists_of_mem_blocksAbove member).1
      (holdsCode_of_mem_blocksAbove member) with ⟨last, isLast, reached⟩
    have found := Array.getElem?_eq_getElem inside
    have starts := startLine_le_lastCodeLine found
    refine ⟨last, _, by rw [found, Option.map_some], ?_, _, reaches, .inl rfl, isLast⟩
    rw [ended_eq (Nat.le_refl _) member, if_pos (by simpa using reaches)]
    simp only
    omega
  · rcases endsClosed language (Nat.le_refl _) block member reaches with
      ⟨last, endsOn, definition, found, ended⟩
    refine ⟨last, definition, ?_, ended, endsOn⟩
    rw [found, Option.map_some, ended_eq (Nat.le_refl _) member,
      if_neg (by simpa using reaches)]

/-! ## Parents -/

section View

variable {View : Type} {view : Definition → View} (passes : Findings.PassesOverEnds view)
include passes

theorem map_scanIndentation : (scanIndentation language input).map view =
    (aboveLine language input input.lines.length).findings.shown view := by
  rw [scanIndentation_eq]
  exact Findings.shown_closeAll _ passes _

/-- What has been found was picked on some line, and its place is the number of what had been found
above that line. -/
theorem exists_pick {place : Nat} {seen : View}
    (found : ((scanIndentation language input).map view)[place]? = some seen) :
    ∃ index line pick, input.lines[index]? = some line ∧
      (aboveLine language input index).pickOn? language input line = some pick ∧
      (aboveLine language input index).findings.definitions.size = place ∧
      view pick.definition = seen := by
  rw [map_scanIndentation passes] at found
  rcases (grows_aboveLine passes language input).exists_new (Nat.le_refl _) found with
    ⟨index, -, isNew, isPlace⟩
  rcases Option.bind_eq_some_iff.mp isNew with ⟨line, isLine, isNew⟩
  rcases Option.map_eq_some_iff.mp isNew with ⟨pick, picked, same⟩
  exact ⟨index, line, pick, isLine, picked, by simpa [Findings.shown] using isPlace, same⟩

end View

/-- The definition of the last block above a line that reaches to the line and is indented less, or
the one around the input. -/
def enclosingOn (language : Language) (input : ScanInput) (isStatement : Nat → Bool)
    (definitions : List Definition) (index : Nat) : Option Definition :=
  match (blocksAbove language input index).find? fun block =>
    block.Reaches input isStatement index ∧
      input.indentOf block.line < input.indentOf index with
  | some block => definitions[block.definition]?
  | none => input.outer

theorem enclosing_closedOn (isLine : input.lines[index]? = some line)
    (starts : carriedStatement language input index = true) :
    ((aboveLine language input index).closedOn language line).enclosing input.outer =
      enclosingOn language input (carriedStatement language input)
        ((aboveLine language input index).closedOn language line).definitions.toList index := by
  have inFile := Nat.le_of_lt (List.getElem?_eq_some_iff.mp isLine).1
  have beyond : ∀ block ∈ blocksAbove language input index,
      decide (block.Reaches input (carriedStatement language input) (index + 1)) =
        decide (block.Reaches input (carriedStatement language input) index ∧
          input.indentOf block.line < input.indentOf index) := by
    intro block member
    rw [Bool.eq_iff_iff, decide_eq_true_iff, decide_eq_true_iff,
      IndentedBlock.reaches_succ_iff (exists_of_mem_blocksAbove member).1]
    simp [starts]
  rw [Findings.enclosing, (hasOpen language inFile).scopes_closedOn isLine,
    List.filter_congr beyond, List.head?_map, List.head?_filter, enclosingOn]
  cases (blocksAbove language input index).find? _ with
  | none => rfl
  | some block => simp [IndentedBlock.scope]

theorem id_enclosingOn (isLine : input.lines[index]? = some line)
    (starts : carriedStatement language input index = true) :
    (enclosingOn language input (carriedStatement language input)
        (scanIndentation language input) index).map (·.id) =
      (((aboveLine language input index).closedOn language line).enclosing input.outer).map
        (·.id) := by
  have inFile := Nat.le_of_lt (List.getElem?_eq_some_iff.mp isLine).1
  have passes : Findings.PassesOverEnds Definition.id := fun _ _ => rfl
  have front := (grows_aboveLine passes language input).isPrefix inFile (Nat.le_refl _)
  rw [← map_scanIndentation passes, ← shown_closedOn passes language line] at front
  rw [enclosing_closedOn isLine starts, enclosingOn, enclosingOn]
  cases found : (blocksAbove language input index).find? _ with
  | none => rfl
  | some block =>
      have inside := definition_lt_of_mem_blocksAbove inFile (List.mem_of_find?_eq_some found)
      rcases front with ⟨rest, whole⟩
      have equal := congrArg (·[block.definition]?) whole
      rw [List.getElem?_append_left (by simpa [Findings.shown] using inside)] at equal
      simpa [Findings.shown] using equal.symm

theorem pick?_of_pickOn? {scan : IndentScan} {pick : Definition.Pick}
    (picked : scan.pickOn? language input line = some pick) :
    Definition.pick? language ((scan.closedOn language line).site input.fileId scan.lineNumber
      input.outer scan.decorators) line = some pick := by
  rw [pickOn?] at picked
  split at picked
  · exact picked
  · cases picked

theorem parentId_of_pickOn? (isLine : input.lines[index]? = some line) {pick : Definition.Pick}
    (picked : (aboveLine language input index).pickOn? language input line = some pick)
    (noReceiver : pick.found.capture? "recv" = none) :
    pick.definition.startLine = input.firstLine + index ∧
      pick.definition.parentId = (enclosingOn language input (carriedStatement language input)
        (scanIndentation language input) index).map (·.id) := by
  have inFile := Nat.le_of_lt (List.getElem?_eq_some_iff.mp isLine).1
  have starts := startsStatement_of_pickOn? picked
  rw [← isStatement_eq isLine] at starts
  have made := Definition.parentId_of_pick? (pick?_of_pickOn? picked)
  rw [noReceiver] at made
  rw [id_enclosingOn isLine starts, ← (follows language inFile).lineNumber]
  exact made

/-- No rule of Python knows of receivers. -/
theorem noReceiver_of_pickOn? {scan : IndentScan} {pick : Definition.Pick}
    (picked : scan.pickOn? .python input line = some pick) : pick.found.capture? "recv" = none := by
  have checked : ∀ rule ∈ Language.python.rules, "recv" ∉ rule.pattern.names := by decide +kernel
  have sound := Definition.pick?_sound (pick?_of_pickOn? picked)
  exact Pattern.capture?_eq_none sound.matched (checked _ sound.known)

end IndentScan

/-! ## Ranges of lines -/

namespace IndentedBlock

/-- Of two blocks the later one starts below the end of the earlier one, or ends with it at the
latest. -/
theorem apart_or_inside {language : Language} {input : ScanInput} {isStatement : Nat → Bool}
    (inFile : ∀ index, isStatement index = true → index < input.lines.length)
    {outer inner : IndentedBlock} (order : outer.line < inner.line)
    (starts : isStatement inner.line = true) {outerLast innerLast : Nat}
    (outerEnds : outer.EndsOn language input isStatement outerLast)
    (innerEnds : inner.EndsOn language input isStatement innerLast) :
    outerLast < inner.line ∨ innerLast ≤ outerLast := by
  rcases outerEnds with ⟨outerNext, outerReaches, outerStop, outerIsLast⟩
  rcases innerEnds with ⟨innerNext, innerReaches, innerStop, innerIsLast⟩
  by_cases beyond : outerNext ≤ inner.line
  · exact .inl (Nat.lt_of_lt_of_le outerIsLast.above beyond)
  · right
    have deeper := outerReaches inner.line (by omega) order starts
    -- The inner block cannot reach over what ends the outer one, which is indented even less.
    have innerFirst : innerNext ≤ outerNext := by
      by_contra overtakes
      rcases outerStop with atEnd | ⟨-, statement, shallow⟩
      · rcases innerStop with innerAtEnd | ⟨-, innerStatement, -⟩
        · omega
        · have := inFile innerNext innerStatement
          omega
      · have := innerReaches outerNext (by omega) (by omega) statement
        omega
    by_contra below
    have inFront := Nat.lt_of_lt_of_le innerIsLast.above innerFirst
    have blank := outerIsLast.after innerLast inFront (by omega)
    rw [innerIsLast.code] at blank
    cases blank

end IndentedBlock

/-- Whether what is found in a text follows its indentation. Every definition is the one that is
picked on some line, and its parent is the definition of the last block above that reaches to the
line and is indented less, or the one around the text. The definition of every block starts on the
line of the block and ends where the block does. So the lines of two blocks are nested or apart. -/
structure FollowsIndentation (language : Language) (input : ScanInput) (isStatement : Nat → Bool) :
    Prop where
  parents : ∀ place definition, (scanIndentation language input)[place]? = some definition →
    ∃ index line pick, input.lines[index]? = some line ∧ isStatement index = true ∧
      (IndentScan.aboveLine language input index).pickOn? language input line = some pick ∧
      (IndentScan.aboveLine language input index).findings.definitions.size = place ∧
      definition = { pick.definition with endLine := definition.endLine } ∧
      definition.startLine = input.firstLine + index ∧
      definition.parentId = (IndentScan.enclosingOn language input isStatement
        (scanIndentation language input) index).map (·.id)
  ends : ∀ block ∈ IndentScan.blocksAbove language input input.lines.length,
    ∃ last definition, (scanIndentation language input)[block.definition]? = some definition ∧
      definition.startLine = input.firstLine + block.line ∧
      definition.endLine = input.firstLine + last ∧
      block.EndsOn language input isStatement last
  ranges : ∀ block ∈ IndentScan.blocksAbove language input input.lines.length,
    ∀ other ∈ IndentScan.blocksAbove language input input.lines.length, block.line < other.line →
      ∀ outer inner, (scanIndentation language input)[block.definition]? = some outer →
        (scanIndentation language input)[other.definition]? = some inner →
        outer.startLine < inner.startLine ∧
          (outer.endLine < inner.startLine ∨ inner.endLine ≤ outer.endLine)

namespace IndentScan

variable {input : ScanInput}

theorem lt_length_of_isStatement {language : Language} {brackets : Nat → Nat} {index : Nat}
    (starts : isStatement language input brackets index = true) : index < input.lines.length := by
  rw [isStatement, Bool.and_eq_true, Bool.and_eq_true, holdsCode, Option.any_eq_true] at starts
  rcases starts.1.1 with ⟨code, isCode, -⟩
  have inFile := (List.getElem?_eq_some_iff.mp isCode).1
  rwa [BraceScan.length_codeLines] at inFile

theorem isStatement_congr {language : Language} {brackets other : Nat → Nat}
    (agree : ∀ index ≤ input.lines.length, brackets index = other index) :
    isStatement language input brackets = isStatement language input other := by
  funext index
  by_cases inFile : index ≤ input.lines.length
  · rw [isStatement, isStatement, agree index inFile]
  · rw [Bool.eq_iff_iff]
    exact ⟨fun starts => absurd (Nat.le_of_lt (lt_length_of_isStatement starts)) inFile,
      fun starts => absurd (Nat.le_of_lt (lt_length_of_isStatement starts)) inFile⟩

/-- The definition of a block starts on the line of the block. -/
theorem startLine_of_mem_blocksAbove {language : Language} {block : IndentedBlock}
    (member : block ∈ blocksAbove language input input.lines.length) {definition : Definition}
    (found : (scanIndentation language input)[block.definition]? = some definition) :
    definition.startLine = input.firstLine + block.line := by
  rcases exists_of_mem_blocksAbove member with ⟨above, opened⟩
  rcases of_blockOn? opened with ⟨same, line, pick, isLine, picked⟩
  have isPlace := congrArg IndentedBlock.definition same
  have starts := shown_of_pickOn? Findings.passesOverEnds_startLine isLine picked above
    (Nat.le_refl _)
  simp only at isPlace
  rw [← map_scanIndentation Findings.passesOverEnds_startLine, List.getElem?_map, ← isPlace, found,
    Option.map_some, Option.some.injEq] at starts
  rw [starts, (Definition.parentId_of_pick? (pick?_of_pickOn? picked)).1,
    ← (follows language (Nat.le_of_lt above)).lineNumber]
  rfl

theorem followsIndentation_carried (input : ScanInput) :
    FollowsIndentation .python input (carriedStatement .python input) where
  parents place definition found := by
    have passes : Findings.PassesOverEnds fun definition : Definition =>
      { definition with endLine := 0 } := fun _ _ => rfl
    have seen := congrArg (Option.map fun definition : Definition =>
      { definition with endLine := 0 }) found
    rw [← List.getElem?_map] at seen
    rcases exists_pick passes seen with ⟨index, line, pick, isLine, picked, isPlace, same⟩
    have equal : definition = { pick.definition with endLine := definition.endLine } :=
      (congrArg ({ · with endLine := definition.endLine }) same).symm
    have made := parentId_of_pickOn? isLine picked (noReceiver_of_pickOn? picked)
    have starts := startsStatement_of_pickOn? picked
    rw [← isStatement_eq isLine] at starts
    refine ⟨index, line, pick, isLine, starts, picked, isPlace, equal, ?_, ?_⟩
    · rw [equal]
      exact made.1
    · rw [← made.2, equal]
  ends block member := by
    rcases endsOn_of_mem_blocksAbove member with ⟨last, definition, found, ended, endsOn⟩
    exact ⟨last, definition, found, startLine_of_mem_blocksAbove member found, ended, endsOn⟩
  ranges block member other otherMember order outer inner isOuter isInner := by
    rcases endsOn_of_mem_blocksAbove member with ⟨last, _, found, ended, endsOn⟩
    rcases endsOn_of_mem_blocksAbove otherMember with
      ⟨otherLast, _, otherFound, otherEnded, otherEndsOn⟩
    obtain rfl := Option.some.inj (isOuter.symm.trans found)
    obtain rfl := Option.some.inj (isInner.symm.trans otherFound)
    rw [startLine_of_mem_blocksAbove member found,
      startLine_of_mem_blocksAbove otherMember otherFound, ended, otherEnded]
    have starts := carriedStatement_of_blockOn? (exists_of_mem_blocksAbove otherMember).2
    have either := IndentedBlock.apart_or_inside (fun _ => lt_length_of_isStatement) order starts
      endsOn otherEndsOn
    omega

end IndentScan

/-- What is found in a Python text follows its indentation, where a line starts a statement by the
brackets that are carried from line to line. These are the brackets that are open in front of each
line just if no line with surplus brackets leaves a bracket open; then the statements are the lines
with code that start neither inside a string nor inside brackets. -/
theorem scanIndentation_follows_indentation (input : ScanInput) :
    let carried := IndentScan.carriedBrackets .python input
    let unclosed := IndentScan.openBrackets .python input
    FollowsIndentation .python input (IndentScan.isStatement .python input carried) ∧
    ((∀ index ≤ input.lines.length, carried index = unclosed index) ↔
      ∀ index code, (BraceScan.codeLines .python input)[index]? = some code →
        surplus (unclosed index) (code.map asBrace) = 0 ∨ unclosed (index + 1) = 0) ∧
    ((∀ index ≤ input.lines.length, carried index = unclosed index) →
      FollowsIndentation .python input (IndentScan.isStatement .python input unclosed)) := by
  intro carried unclosed
  refine ⟨IndentScan.followsIndentation_carried input,
    IndentScan.carriedBrackets_eq_iff .python input, fun agree => ?_⟩
  rw [← IndentScan.isStatement_congr agree]
  exact IndentScan.followsIndentation_carried input

/-- A class with a line that closes one bracket too many and leaves another one open: the next line
starts inside a bracket, and yet it ends the class. -/
theorem scanIndentation_follows_indentation_of_surplus :
    let input : ScanInput := ⟨"f", 1, none, ["class A:".toList, "    ) (".toList, "x".toList,
      "    )".toList, "    def m(self):".toList, "        pass".toList]⟩
    FollowsIndentation .python input
        (IndentScan.isStatement .python input (IndentScan.carriedBrackets .python input)) ∧
      ¬ FollowsIndentation .python input
        (IndentScan.isStatement .python input (IndentScan.openBrackets .python input)) := by
  intro input
  refine ⟨(scanIndentation_follows_indentation input).1, fun follows => ?_⟩
  rcases follows.ends ⟨0, 0⟩ (by decide +kernel) with
    ⟨last, definition, found, -, ended, next, -, stop, isLast⟩
  have ends : (scanIndentation .python input)[0]?.map (·.endLine) = some 2 := by decide +kernel
  rw [found, Option.map_some, Option.some.injEq, ended] at ends
  have isSecond : last = 1 := Nat.add_left_cancel ends
  -- The third line holds code, so it is the one that ends the class.
  have isThird : next = 2 := by
    have above := isLast.above
    by_contra other
    have blank := isLast.after 2 (by omega) (by omega)
    revert blank
    decide +kernel
  rw [isThird] at stop
  revert stop
  decide +kernel

end SourceIndex
