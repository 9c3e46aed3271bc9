import SourceIndex.Proofs.Definition.BlockEnds
import SourceIndex.Proofs.Definition.Statements

/-! The blocks of an indented file. A block reaches as far as the statements below its line are
indented deeper than that line. The scopes that a scan has open are just the blocks that reach to
the line at hand, the one that was opened last in front. -/

namespace SourceIndex

/-- How deep a line is indented. -/
def ScanInput.indentOf (input : ScanInput) (index : Nat) : Nat :=
  (input.lines[index]?.map indentWidth).getD 0

/-- A block of a definition, which is told by its place among those found, and the line on which
both start, counted from zero. -/
structure IndentedBlock where
  line : Nat
  definition : Nat
  deriving DecidableEq, Repr

namespace IndentedBlock

/-- Whether all statements below the line of a block, in front of another line, are indented
deeper. -/
def Reaches (input : ScanInput) (isStatement : Nat → Bool) (next : Nat) (block : IndentedBlock) :
    Prop :=
  ∀ later < next, block.line < later → isStatement later = true →
    input.indentOf block.line < input.indentOf later

instance (input : ScanInput) (isStatement : Nat → Bool) (next : Nat) (block : IndentedBlock) :
    Decidable (block.Reaches input isStatement next) :=
  inferInstanceAs (Decidable (∀ later < next, block.line < later → _ → _))

/-- Whether a line is the last one with code in front of the first statement below a block that is
not indented deeper, or of the end of the file if there is none. -/
def EndsOn (language : Language) (input : ScanInput) (isStatement : Nat → Bool)
    (block : IndentedBlock) (last : Nat) : Prop :=
  ∃ next, block.Reaches input isStatement next ∧
    (next = input.lines.length ∨ block.line < next ∧ isStatement next = true ∧
      input.indentOf next ≤ input.indentOf block.line) ∧
    IndentScan.IsLastCode language input next last

variable {input : ScanInput} {isStatement : Nat → Bool} {next : Nat} {block : IndentedBlock}

theorem reaches_succ_iff (above : block.line < next) :
    block.Reaches input isStatement (next + 1) ↔ block.Reaches input isStatement next ∧
      (isStatement next = true → input.indentOf block.line < input.indentOf next) := by
  constructor
  · intro reaches
    exact ⟨fun later inFront => reaches later (Nat.lt_succ_of_lt inFront),
      reaches next (Nat.lt_succ_self _) above⟩
  · rintro ⟨reaches, here⟩ later inFront below
    rcases Nat.lt_succ_iff_lt_or_eq.mp inFront with earlier | rfl
    · exact reaches later earlier below
    · exact here

/-- The scope of a block. -/
def scope (input : ScanInput) (block : IndentedBlock) : OpenScope :=
  ⟨block.definition, input.indentOf block.line⟩

end IndentedBlock

namespace IndentScan

variable (language : Language) (input : ScanInput)

/-- The block that a line opens. -/
def blockOn? (index : Nat) : Option IndentedBlock :=
  (input.lines[index]?).bind fun line =>
    ((aboveLine language input index).pickOn? language input line).bind fun pick =>
      if pick.rule.opensBlock then
        some ⟨index, (aboveLine language input index).findings.definitions.size⟩
      else none

/-- The blocks that are opened above a line, the last one first. -/
def blocksAbove (next : Nat) : List IndentedBlock :=
  (List.range next).reverse.filterMap (blockOn? language input)

variable {language input} {index : Nat} {line : List Char}

theorem blocksAbove_succ (next : Nat) : blocksAbove language input (next + 1) =
    (blockOn? language input next).toList ++ blocksAbove language input next :=
  filterMap_reverse_range_succ _ next

theorem startsStatement_of_pickOn? {scan : IndentScan} {pick : Definition.Pick}
    (picked : scan.pickOn? language input line = some pick) :
    scan.startsStatement language line = true := by
  rw [pickOn?] at picked
  split at picked
  · next starts => exact ((Bool.and_eq_true _ _).mp starts).1
  · cases picked

/-- The block of a line has the definition that is new on the line. -/
theorem of_blockOn? {block : IndentedBlock} (found : blockOn? language input index = some block) :
    block = ⟨index, (aboveLine language input index).findings.definitions.size⟩ ∧
      ∃ line pick, input.lines[index]? = some line ∧
        (aboveLine language input index).pickOn? language input line = some pick := by
  rcases Option.bind_eq_some_iff.mp found with ⟨line, isLine, found⟩
  rcases Option.bind_eq_some_iff.mp found with ⟨pick, picked, found⟩
  split at found
  · exact ⟨(Option.some.inj found).symm, line, pick, isLine, picked⟩
  · cases found

theorem exists_of_mem_blocksAbove {block : IndentedBlock} {next : Nat}
    (member : block ∈ blocksAbove language input next) :
    block.line < next ∧ blockOn? language input block.line = some block := by
  rcases List.mem_filterMap.mp member with ⟨index, above, found⟩
  rw [List.mem_reverse, List.mem_range] at above
  have same := (of_blockOn? found).1
  subst same
  exact ⟨above, found⟩

theorem pairwise_blocksAbove (language : Language) (input : ScanInput) (next : Nat) :
    (blocksAbove language input next).Pairwise fun later earlier => earlier.line < later.line :=
  pairwise_filterMap_reverse_range _
    (fun _ _ found => congrArg IndentedBlock.line (of_blockOn? found).1) next

/-- The statements by the brackets that are carried from line to line. -/
def carriedStatement (language : Language) (input : ScanInput) : Nat → Bool :=
  isStatement language input (carriedBrackets language input)

theorem carriedStatement_of_blockOn? {block : IndentedBlock}
    (found : blockOn? language input index = some block) :
    carriedStatement language input index = true := by
  rcases (of_blockOn? found).2 with ⟨line, pick, isLine, picked⟩
  rw [carriedStatement, isStatement_eq isLine, startsStatement_of_pickOn? picked]

/-! ## Definitions of blocks -/

section View

variable {View : Type} {view : Definition → View} (passes : Findings.PassesOverEnds view)
include passes

theorem shown_closedOn (language : Language) {scan : IndentScan} (line : List Char) :
    (scan.closedOn language line).shown view = scan.findings.shown view := by
  rw [closedOn]
  split
  · exact Findings.shown_closeFrom _ passes _ _
  · rfl

theorem shown_take {scan : IndentScan} (line : List Char) :
    (scan.take language input line).findings.shown view = scan.findings.shown view ++
      ((scan.pickOn? language input line).map (view ·.definition)).toList := by
  rw [findings_take, ← shown_closedOn passes language line]
  cases scan.pickOn? language input line with
  | none => simp [Findings.receive]
  | some pick =>
      rw [Findings.receive]
      split
      · exact Findings.shown_add _ _
      · exact Findings.shown_add _ _

theorem grows_aboveLine (language : Language) (input : ScanInput) :
    Findings.Grows input.lines.length
      (fun index => (aboveLine language input index).findings.shown view)
      (fun index => input.lines[index]?.bind fun line =>
        ((aboveLine language input index).pickOn? language input line).map (view ·.definition)) where
  start := rfl
  next index inFile := by
    have isLine := List.getElem?_eq_getElem inFile
    rw [isLine, Option.bind_some, aboveLine_succ isLine]
    exact shown_take passes _

end View

/-- What is picked on a line stands behind all that was found above the line. -/
theorem shown_of_pickOn? {View : Type} {view : Definition → View}
    (passes : Findings.PassesOverEnds view) (isLine : input.lines[index]? = some line)
    {pick : Definition.Pick}
    (picked : (aboveLine language input index).pickOn? language input line = some pick)
    {later : Nat} (order : index < later) (inFile : later ≤ input.lines.length) :
    ((aboveLine language input later).findings.shown view)[
      (aboveLine language input index).findings.definitions.size]? =
        some (view pick.definition) := by
  have behind := (grows_aboveLine passes language input).getElem?_of_new order inFile
    (by rw [isLine, Option.bind_some, picked, Option.map_some])
  simpa [Findings.shown] using behind

theorem size_lt_size (isLine : input.lines[index]? = some line) {pick : Definition.Pick}
    (picked : (aboveLine language input index).pickOn? language input line = some pick)
    {later : Nat} (order : index < later) (inFile : later ≤ input.lines.length) :
    (aboveLine language input index).findings.definitions.size <
      (aboveLine language input later).findings.definitions.size := by
  have found := shown_of_pickOn? Findings.passesOverEnds_startLine isLine picked order inFile
  simpa [Findings.shown] using (List.getElem?_eq_some_iff.mp found).1

theorem definition_lt_of_blockOn? {block : IndentedBlock}
    (found : blockOn? language input index = some block) {later : Nat} (order : index < later)
    (inFile : later ≤ input.lines.length) :
    block.definition < (aboveLine language input later).findings.definitions.size := by
  rcases of_blockOn? found with ⟨rfl, line, pick, isLine, picked⟩
  exact size_lt_size isLine picked order inFile

theorem definition_lt_of_mem_blocksAbove (inFile : index ≤ input.lines.length)
    {block : IndentedBlock} (member : block ∈ blocksAbove language input index) :
    block.definition < (aboveLine language input index).findings.definitions.size := by
  rcases exists_of_mem_blocksAbove member with ⟨above, found⟩
  exact definition_lt_of_blockOn? found above inFile

/-- Each block has a definition of its own. -/
theorem eq_of_definition_eq (inFile : index ≤ input.lines.length) {block other : IndentedBlock}
    (member : block ∈ blocksAbove language input index)
    (otherMember : other ∈ blocksAbove language input index)
    (same : block.definition = other.definition) : block = other := by
  rcases exists_of_mem_blocksAbove member with ⟨above, found⟩
  rcases exists_of_mem_blocksAbove otherMember with ⟨otherAbove, otherFound⟩
  have first := (of_blockOn? found).1
  have second := (of_blockOn? otherFound).1
  rcases Nat.lt_trichotomy block.line other.line with before | equal | behind
  · have less := definition_lt_of_blockOn? found before (by omega)
    rw [second] at same
    exact absurd same (Nat.ne_of_lt less)
  · rw [equal, otherFound] at found
    exact (Option.some.inj found).symm
  · have less := definition_lt_of_blockOn? otherFound behind (by omega)
    rw [first] at same
    exact absurd same.symm (Nat.ne_of_lt less)

/-! ## Open scopes are blocks that reach -/

/-- There is nothing in a block yet behind the line that opens it. -/
theorem reaches_of_blockOn? {block : IndentedBlock}
    (found : blockOn? language input index = some block) {isStatement : Nat → Bool} :
    block.Reaches input isStatement (index + 1) := by
  intro later inFront below
  rw [(of_blockOn? found).1] at below
  exact absurd inFront (Nat.not_lt.mpr below)

/-- Whether a scan has the blocks open that reach to a line. -/
def HasOpen (language : Language) (input : ScanInput) (index : Nat) : Prop :=
  (aboveLine language input index).findings.scopes =
    ((blocksAbove language input index).filter
      fun block => block.Reaches input (carriedStatement language input) index).map (·.scope input)

theorem HasOpen.isNestedByDepth (hasOpen : HasOpen language input index) :
    Findings.IsNestedByDepth (aboveLine language input index).findings.scopes := by
  rw [hasOpen, Findings.IsNestedByDepth, List.pairwise_map]
  have order := (pairwise_blocksAbove language input index).filter
    fun block => block.Reaches input (carriedStatement language input) index
  refine order.imp_of_mem fun {inner outer} innerMember outerMember below => ?_
  rcases exists_of_mem_blocksAbove (List.mem_filter.mp innerMember).1 with ⟨above, found⟩
  have reaches := (List.mem_filter.mp outerMember).2
  rw [decide_eq_true_iff] at reaches
  exact reaches inner.line above below (carriedStatement_of_blockOn? found)

/-- A statement closes the scopes of the blocks that do not reach beyond it. -/
theorem HasOpen.scopes_closedOn (hasOpen : HasOpen language input index)
    (isLine : input.lines[index]? = some line) :
    ((aboveLine language input index).closedOn language line).scopes =
      ((blocksAbove language input index).filter
        fun block => block.Reaches input (carriedStatement language input) (index + 1)).map
          (·.scope input) := by
  have indent : input.indentOf index = indentWidth line := by simp [ScanInput.indentOf, isLine]
  rw [closedOn, ← isStatement_eq isLine, ← carriedStatement]
  split
  · next starts =>
      refine (Findings.dropWhile_eq_filter hasOpen.isNestedByDepth (indentWidth line)).trans ?_
      rw [hasOpen, List.filter_map, List.filter_filter]
      congr 1
      refine List.filter_congr fun block member => ?_
      rw [Bool.eq_iff_iff, decide_eq_true_iff,
        IndentedBlock.reaches_succ_iff (exists_of_mem_blocksAbove member).1]
      simp [IndentedBlock.scope, starts, indent, and_comm]
  · next continues =>
      rw [hasOpen]
      congr 1
      refine List.filter_congr fun block member => ?_
      rw [Bool.eq_iff_iff, decide_eq_true_iff, decide_eq_true_iff,
        IndentedBlock.reaches_succ_iff (exists_of_mem_blocksAbove member).1]
      simp [continues]

theorem HasOpen.step (hasOpen : HasOpen language input index)
    (isLine : input.lines[index]? = some line) : HasOpen language input (index + 1) := by
  have indent : input.indentOf index = indentWidth line := by simp [ScanInput.indentOf, isLine]
  rw [HasOpen, aboveLine_succ isLine, findings_take, blocksAbove_succ, List.filter_append,
    List.map_append, ← hasOpen.scopes_closedOn isLine]
  have opened : ∀ block, blockOn? language input index = some block →
      block.Reaches input (carriedStatement language input) (index + 1) := fun _ found =>
    reaches_of_blockOn? found
  simp only [blockOn?, isLine, Option.bind_some] at opened ⊢
  cases picked : (aboveLine language input index).pickOn? language input line with
  | none => rfl
  | some pick =>
      rw [picked, Option.bind_some] at opened
      rw [Findings.receive, Option.bind_some]
      split
      · next opens =>
          simp only [opens, if_true, Option.some.injEq, forall_eq'] at opened
          simp [opened, Findings.openScope, Findings.add, IndentedBlock.scope, indent]
      · rfl

theorem hasOpen (language : Language) (inFile : index ≤ input.lines.length) :
    HasOpen language input index :=
  ScanInput.induction_lines (show HasOpen language input 0 from rfl)
    (fun _ _ isLine above => HasOpen.step above isLine) inFile

end IndentScan

end SourceIndex
