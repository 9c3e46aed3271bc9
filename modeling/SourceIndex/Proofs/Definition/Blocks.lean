import SourceIndex.Proofs.Definition.Depths
import SourceIndex.Proofs.Lexicon.Inside

/-! The blocks of a file. The block of a definition is opened by the first brace that a line leaves
open: the line on which the definition is found, or a later one that goes on with its signature. As
long as the file closes no more braces than it has opened, the scopes that a scan has open are just
the blocks whose braces have not been closed, the one that was opened last in front. -/

namespace SourceIndex

/-! ## Blocks -/

/-- A block of a definition, which is told by its place among those found: the line that opens it,
counted from zero, and the code of that line in front of its brace and behind. -/
structure Block where
  line : Nat
  definition : Nat
  before : List Char
  after : List Char
  deriving DecidableEq, Repr

namespace Block

/-- What stands behind the brace of a block, up to the line in front of `next`. -/
def inside (codes : List (List Char)) (block : Block) (next : Nat) : List Char :=
  block.after ++ ((codes.take next).drop (block.line + 1)).flatten

/-- Whether the brace of a block is not closed above a line. -/
def IsOpen (codes : List (List Char)) (next : Nat) (block : Block) : Prop :=
  ClosesWithin 0 (block.inside codes next)

instance (codes : List (List Char)) (next : Nat) (block : Block) :
    Decidable (block.IsOpen codes next) :=
  inferInstanceAs (Decidable (ClosesWithin 0 _))

/-- Whether the brace of a block is closed on a line: by a brace such that all braces between the two
match each other. -/
def ClosesOn (codes : List (List Char)) (block : Block) (last : Nat) : Prop :=
  block.line < last ∧ ∃ inner outer, codes[last]? = some (inner ++ '\x7d' :: outer) ∧
    IsBalanced (block.inside codes last ++ inner)

/-- The depth in front of the brace of a block. -/
def depth (codes : List (List Char)) (block : Block) : Nat :=
  depthBehind 0 ((codes.take block.line).flatten ++ block.before)

/-- Whether a block is opened above a line, by a brace that its own line leaves open. -/
structure Lies (codes : List (List Char)) (next : Nat) (block : Block) : Prop where
  above : block.line < next
  code : codes[block.line]? = some (block.before ++ '\x7b' :: block.after)
  within : ClosesWithin 0 block.after

variable {codes : List (List Char)} {next : Nat} {block earlier later : Block}

theorem inside_succ (above : block.line < next) {code : List Char}
    (isCode : codes[next]? = some code) :
    block.inside codes (next + 1) = block.inside codes next ++ code := by
  have inFile := (List.getElem?_eq_some_iff.mp isCode).1
  have long : block.line + 1 ≤ (codes.take next).length := by
    rw [List.length_take]
    omega
  rw [inside, List.take_add_one, isCode, List.drop_append_of_le_length long]
  simp [inside]

/-- Behind the line that opens it there is nothing in a block but what its own line leaves. -/
theorem inside_line : block.inside codes (block.line + 1) = block.after := by
  have nothing : (codes.take (block.line + 1)).drop (block.line + 1) = [] :=
    List.drop_of_length_le (List.length_take_le _ _)
  rw [inside, nothing, List.flatten_nil, List.append_nil]

theorem Lies.take_eq (lies : block.Lies codes next) : codes.take next =
    codes.take block.line ++ (block.before ++ '\x7b' :: block.after) ::
      (codes.take next).drop (block.line + 1) := by
  have inFront : (codes.take next)[block.line]? = some (block.before ++ '\x7b' :: block.after) := by
    rw [List.getElem?_take_of_lt lies.above, lies.code]
  rcases List.getElem?_eq_some_iff.mp inFront with ⟨short, found⟩
  have whole := List.take_append_drop block.line (codes.take next)
  rw [List.take_take, Nat.min_eq_left (Nat.le_of_lt lies.above),
    List.drop_eq_getElem_cons short, found] at whole
  exact whole.symm

theorem Lies.flatten_take (lies : block.Lies codes next) : (codes.take next).flatten =
    (codes.take block.line).flatten ++ block.before ++ '\x7b' :: block.inside codes next := by
  have lines := congrArg List.flatten lies.take_eq
  simpa [inside] using lines

/-- An open block is one deeper than its brace, and what stands in it leads on from there. -/
theorem Lies.depth_eq (lies : block.Lies codes next) (isOpen : block.IsOpen codes next) :
    depthBehind 0 (codes.take next).flatten =
      block.depth codes + 1 + depthBehind 0 (block.inside codes next) := by
  rw [lies.flatten_take, depthBehind_append, depthBehind_cons, braceDepth_opening]
  exact isOpen.depthBehind_add _

/-- An earlier block reaches over the brace of a later one. -/
theorem Lies.inside_eq (lies : later.Lies codes next) (order : earlier.line < later.line) :
    earlier.inside codes next = earlier.inside codes later.line ++ later.before ++
      '\x7b' :: later.inside codes next := by
  have inFile := (List.getElem?_eq_some_iff.mp lies.code).1
  have long : earlier.line + 1 ≤ (codes.take later.line).length := by
    rw [List.length_take]
    omega
  rw [inside, lies.take_eq, List.drop_append_of_le_length long]
  simp [inside]

/-- A block inside an open one is deeper. -/
theorem Lies.depth_lt (lies : earlier.Lies codes next) (behind : later.Lies codes next)
    (order : earlier.line < later.line) (isOpen : earlier.IsOpen codes next) :
    earlier.depth codes < later.depth codes := by
  rw [IsOpen, behind.inside_eq order] at isOpen
  have inFront := (closesWithin_append.mp isOpen).1
  have above : earlier.Lies codes later.line := ⟨order, lies.code, lies.within⟩
  have leads := inFront.depthBehind_add (earlier.depth codes + 1)
  rw [Nat.add_zero] at leads
  have whole : later.depth codes = depthBehind (earlier.depth codes + 1)
      (earlier.inside codes later.line ++ later.before) := by
    rw [depth, above.flatten_take]
    simp [depth]
  omega

/-- An open block stays open on a line that does not lead back to the depth of its brace. -/
theorem Lies.isOpen_succ_iff (lies : block.Lies codes next) {code : List Char}
    (isCode : codes[next]? = some code)
    (within : ClosesWithin (depthBehind 0 (codes.take next).flatten) code) :
    block.IsOpen codes (next + 1) ↔ block.IsOpen codes next ∧
      (BraceWalk.ofLine (depthBehind 0 (codes.take next).flatten) code).closeDepths.all
        (block.depth codes < ·) = true := by
  rw [IsOpen, inside_succ lies.above isCode, closesWithin_append, ← IsOpen]
  refine and_congr_right fun isOpen => ?_
  have reached := lies.depth_eq isOpen
  simp only [List.all_eq_true, decide_eq_true_iff]
  rw [BraceWalk.forall_lt_closeDepths_iff (by omega) within]
  suffices left : depthBehind 0 (codes.take next).flatten - (block.depth codes + 1) =
      depthBehind 0 (block.inside codes next) by rw [left]
  omega

/-- The scope of a block. -/
def scope (codes : List (List Char)) (block : Block) : OpenScope :=
  ⟨block.definition, block.depth codes⟩

end Block

theorem flatten_take_succ {codes : List (List Char)} {index : Nat} {code : List Char}
    (isCode : codes[index]? = some code) :
    (codes.take (index + 1)).flatten = (codes.take index).flatten ++ code := by
  rw [List.take_add_one, isCode]
  simp

/-- A line of a text that has no surplus braces has none where it stands. -/
theorem ClosesWithin.line {codes : List (List Char)} (closes : ClosesWithin 0 codes.flatten)
    {index : Nat} {code : List Char} (isCode : codes[index]? = some code) :
    ClosesWithin (depthBehind 0 (codes.take index).flatten) code := by
  rw [← List.take_append_drop (index + 1) codes, List.flatten_append, closesWithin_append,
    flatten_take_succ isCode, closesWithin_append] at closes
  exact closes.1.2

/-! ## Scopes -/

namespace Findings

variable {scopes : List OpenScope}

/-- Whether inner scopes are deeper than those around them. -/
def IsNestedByDepth (scopes : List OpenScope) : Prop :=
  scopes.Pairwise fun inner outer => outer.depth < inner.depth

/-- Of nested scopes the innermost ones are closed, and no others. -/
theorem dropWhile_eq_filter (nested : IsNestedByDepth scopes) (depth : Nat) :
    scopes.dropWhile (depth ≤ ·.depth) = scopes.filter (·.depth < depth) := by
  induction scopes with
  | nil => rfl
  | cons inner scopes induction =>
      rcases List.pairwise_cons.mp nested with ⟨shallower, nested⟩
      by_cases deep : depth ≤ inner.depth
      · rw [List.dropWhile_cons_of_pos (by simpa using deep), induction nested,
          List.filter_cons_of_neg (by simpa using deep)]
      · rw [List.dropWhile_cons_of_neg (by simpa using deep), List.filter_eq_self.mpr]
        intro scope member
        rw [decide_eq_true_iff]
        rcases List.mem_cons.mp member with rfl | outside
        · omega
        · have := shallower scope outside
          omega

theorem scopes_foldl_closeFrom (depths : List Nat) (line : Nat) {findings : Findings}
    (nested : IsNestedByDepth findings.scopes) :
    (depths.foldl (fun findings depth => findings.closeFrom depth line) findings).scopes =
      findings.scopes.filter fun scope => depths.all (scope.depth < ·) := by
  induction depths generalizing findings with
  | nil => simp
  | cons depth depths induction =>
      have closed : (findings.closeFrom depth line).scopes =
          findings.scopes.filter (·.depth < depth) := dropWhile_eq_filter nested depth
      have later := @induction (findings.closeFrom depth line) (by
        rw [closed]
        exact List.Pairwise.sublist List.filter_sublist nested)
      rw [List.foldl_cons, later, closed, List.filter_filter]
      refine List.filter_congr fun scope _ => ?_
      simp [Bool.and_comm]

end Findings

/-! ## Lines that open blocks -/

/-- What holds above the first line, and below each line if it holds above, holds everywhere. -/
theorem ScanInput.induction_lines {input : ScanInput} {holds : Nat → Prop} (start : holds 0)
    (step : ∀ index line, input.lines[index]? = some line → holds index → holds (index + 1))
    {index : Nat} (inFile : index ≤ input.lines.length) : holds index := by
  induction index with
  | zero => exact start
  | succ index induction =>
      exact step index _ (List.getElem?_eq_getElem (Nat.lt_of_succ_le inFile))
        (induction (Nat.le_of_succ_le inFile))

section Items

variable {Item : Type} (found : Nat → Option Item)

/-- What is found on lines, the last one first, has what is found on the next line in front. -/
theorem filterMap_reverse_range_succ (next : Nat) :
    (List.range (next + 1)).reverse.filterMap found =
      (found next).toList ++ (List.range next).reverse.filterMap found := by
  rw [List.range_succ, List.reverse_append, List.filterMap_append]
  cases isFound : found next <;> simp [isFound]

theorem pairwise_filterMap_reverse_range {line : Item → Nat}
    (isLine : ∀ index item, found index = some item → line item = index) (next : Nat) :
    ((List.range next).reverse.filterMap found).Pairwise
      fun later earlier => line earlier < line later := by
  refine List.Pairwise.filterMap _ ?_ (List.pairwise_reverse.mpr List.pairwise_lt_range)
  intro later earlier order laterItem laterFound earlierItem earlierFound
  rw [isLine later laterItem laterFound, isLine earlier earlierItem earlierFound]
  exact order

end Items

namespace BraceScan

variable (language : Language) (input : ScanInput)

/-- The code of the lines of an input. -/
def codeLines : List (List Char) :=
  (language.lexicon.stripLines .code input.lines).map (·.code)

/-- The scan of the lines above a line, which are counted from zero. -/
def aboveLine (index : Nat) : BraceScan := behind language input (input.lines.take index)

/-- The definition whose block a line opens if the line leaves a brace open: the one that is found on
the line, if it may own a block, or the pending one if the line goes on with its signature. -/
def owner? (scan : BraceScan) (line : List Char) : Option Nat :=
  match Definition.recognize? language ((scan.closedOn language line).site input) line,
    scan.pending with
  | some (_, opensBlock), _ =>
    if opensBlock then some scan.findings.definitions.size else none
  | none, some pending =>
    if belongsTo pending (Text.trim (scan.codeOn language line)) (scan.walkOn language line) then
      some pending.definition
    else none
  | none, none => none

/-- The block that is opened on a line. -/
def blockOn? (index : Nat) : Option Block :=
  (input.lines[index]?).bind fun line =>
    let scan := aboveLine language input index
    (unclosedBrace? (scan.codeOn language line)).bind fun (before, after) =>
      (scan.owner? language input line).map fun definition => ⟨index, definition, before, after⟩

/-- The blocks that are opened above a line, the last one first. -/
def blocksAbove (next : Nat) : List Block :=
  (List.range next).reverse.filterMap (blockOn? language input)

variable {language : Language} {input : ScanInput}

theorem mode_behind_eq (language : Language) (input : ScanInput) (above : List (List Char)) :
    (behind language input above).mode = language.lexicon.modeBehind .code above := by
  induction above using List.reverseRecOn with
  | nil => rfl
  | append_singleton above line induction =>
      rw [behind_concat, mode_take, induction, Lexicon.modeBehind, Lexicon.modeBehind,
        List.foldl_concat]

theorem getElem?_codeLines (index : Nat) : (codeLines language input)[index]? =
    input.lines[index]?.map fun line =>
      (aboveLine language input index).codeOn language line := by
  rw [codeLines, List.getElem?_map, Lexicon.getElem?_stripLines, Option.map_map,
    ← mode_behind_eq language input]
  rfl

theorem length_codeLines : (codeLines language input).length = input.lines.length := by
  rw [codeLines, List.length_map, Lexicon.length_stripLines]

theorem aboveLine_succ {index : Nat} {line : List Char} (isLine : input.lines[index]? = some line) :
    aboveLine language input (index + 1) =
      (aboveLine language input index).take language input line := by
  rw [aboveLine, List.take_add_one, isLine]
  exact behind_concat language input _ line

theorem getElem?_codeLines_of_line (language : Language) {index : Nat} {line : List Char}
    (isLine : input.lines[index]? = some line) : (codeLines language input)[index]? =
      some ((aboveLine language input index).codeOn language line) := by
  rw [getElem?_codeLines, isLine, Option.map_some]

theorem lineNumber_aboveLine (language : Language) {index : Nat} (inFile : index ≤ input.lines.length) :
    (aboveLine language input index).lineNumber = input.firstLine + index := by
  rw [aboveLine, lineNumber_behind, List.length_take, Nat.min_eq_left inFile]

theorem blocksAbove_succ (next : Nat) : blocksAbove language input (next + 1) =
    (blockOn? language input next).toList ++ blocksAbove language input next :=
  filterMap_reverse_range_succ _ next

theorem line_of_blockOn? {index : Nat} {block : Block}
    (found : blockOn? language input index = some block) : block.line = index := by
  rcases Option.bind_eq_some_iff.mp found with ⟨line, -, found⟩
  rcases Option.bind_eq_some_iff.mp found with ⟨parts, -, found⟩
  rcases Option.map_eq_some_iff.mp found with ⟨definition, -, rfl⟩
  rfl

theorem lies_of_mem_blocksAbove {next : Nat} {block : Block}
    (member : block ∈ blocksAbove language input next) :
    block.Lies (codeLines language input) next := by
  rcases List.mem_filterMap.mp member with ⟨index, isAbove, found⟩
  rw [List.mem_reverse, List.mem_range] at isAbove
  rcases Option.bind_eq_some_iff.mp found with ⟨line, isLine, found⟩
  rcases Option.bind_eq_some_iff.mp found with ⟨⟨before, after⟩, splits, found⟩
  rcases Option.map_eq_some_iff.mp found with ⟨definition, -, rfl⟩
  rcases BraceWalk.unclosed?_of_unclosedBrace? 0 splits with ⟨code, within, -⟩
  refine ⟨isAbove, ?_, within⟩
  rw [getElem?_codeLines_of_line language isLine, code]

theorem pairwise_blocksAbove (language : Language) (input : ScanInput) (next : Nat) :
    (blocksAbove language input next).Pairwise fun later earlier => earlier.line < later.line :=
  pairwise_filterMap_reverse_range _ (fun _ _ => line_of_blockOn?) next

/-! ## What a line does -/

/-- The scope that is opened on a line. -/
def scopeOn? (language : Language) (input : ScanInput) (scan : BraceScan) (line : List Char) :
    Option OpenScope :=
  (scan.walkOn language line).unclosed?.bind fun depth =>
    (scan.owner? language input line).map fun definition => ⟨definition, depth⟩

/-- What becomes of a scan behind a line, once the closing braces of the line have closed what they
close: a scope may be opened, a definition may be added or pending, and a definition that neither
was pending nor is new stays as it was. What was pending stays so only if nothing has been closed. -/
structure Takes (scan closed next : BraceScan) (opened : Option OpenScope) : Prop where
  scopes : next.findings.scopes = opened.toList ++ closed.findings.scopes
  larger : closed.findings.definitions.size ≤ next.findings.definitions.size
  inside : ∀ scope, opened = some scope →
    scope.definition = scan.findings.definitions.size ∧
        scan.findings.definitions.size < next.findings.definitions.size ∨
      scan.pending.map (·.definition) = some scope.definition
  kept : ∀ place < scan.findings.definitions.size,
    scan.pending.map (·.definition) ≠ some place →
      next.findings.definitions[place]? = closed.findings.definitions[place]?
  pending : ∀ block, next.pending = some block → opened = none ∧
    (block.definition = scan.findings.definitions.size ∨
      scan.pending.map (·.definition) = some block.definition ∧
        closed.findings.scopes = scan.findings.scopes)

section Line

variable {scan : BraceScan}

theorem size_closedOn (language : Language) (line : List Char) :
    (scan.closedOn language line).findings.definitions.size = scan.findings.definitions.size := by
  have same := @shown_closedOn _ _ Findings.passesOverEnds_startLine language scan line
  simpa [Findings.shown] using congrArg List.length same

theorem scopes_closedOn (nested : Findings.IsNestedByDepth scan.findings.scopes)
    (line : List Char) : (scan.closedOn language line).findings.scopes =
      scan.findings.scopes.filter fun scope =>
        (scan.walkOn language line).closeDepths.all (scope.depth < ·) := by
  have closed := Findings.scopes_foldl_closeFrom
    (scan.walkOn language line).closeDepths.reverse scan.lineNumber nested
  simp only [List.all_reverse] at closed
  exact closed

theorem opens_pos_of_unclosed? {depth key : Nat} {code : List Char}
    (unclosed : (BraceWalk.ofLine depth code).unclosed? = some key) :
    0 < (BraceWalk.ofLine depth code).opens := by
  cases splits : unclosedBrace? code with
  | none =>
      rw [BraceWalk.unclosed?_of_unclosedBrace?_eq_none depth splits] at unclosed
      cases unclosed
  | some parts =>
      rw [(BraceWalk.counts_ofLine depth code).1,
        (BraceWalk.unclosed?_of_unclosedBrace? depth splits).1, List.count_append,
        List.count_cons_self]
      omega

theorem unclosed?_of_blank {line : List Char}
    (blank : (Text.trim (scan.codeOn language line)).isEmpty = true) :
    (scan.walkOn language line).unclosed? = none := by
  have length := BraceWalk.length_openDepths scan.depth (scan.codeOn language line)
  rw [← Text.depthBehind_trim, List.isEmpty_iff.mp blank, depthBehind_nil,
    List.length_eq_zero_iff] at length
  rw [walkOn, BraceWalk.unclosed?, length, List.getLast?_nil]

/-- A line without closing braces closes no scope. -/
theorem scopes_closedOn_of_closes {line : List Char}
    (none : (scan.walkOn language line).closes = 0) :
    (scan.closedOn language line).findings.scopes = scan.findings.scopes := by
  have depths : (scan.walkOn language line).closeDepths = [] := by
    rw [← List.length_eq_zero_iff, walkOn, BraceWalk.length_closeDepths]
    exact none
  simp only [closedOn, closeScopes]
  rw [show (BraceWalk.ofLine scan.depth (language.lexicon.strip scan.mode line).code).closeDepths = []
    from depths]
  rfl

theorem closes_of_blank {line : List Char}
    (blank : (Text.trim (scan.codeOn language line)).isEmpty = true) :
    (scan.walkOn language line).closes = 0 := by
  rw [walkOn, (BraceWalk.counts_ofLine _ _).2, Text.count_trim (by decide), List.isEmpty_iff.mp blank]
  rfl

/-- A line that goes on with the pending definition and opens nothing closes nothing either. -/
theorem closes_of_belongsTo {line : List Char} {pending : PendingBlock}
    (belongs : belongsTo pending (Text.trim (scan.codeOn language line))
      (scan.walkOn language line) = true) (none : (scan.walkOn language line).opens = 0) :
    (scan.walkOn language line).closes = 0 := by
  simp only [belongsTo, Bool.and_eq_true, Bool.or_eq_true, beq_iff_eq] at belongs
  refine belongs.2.resolve_right fun opening => ?_
  rw [walkOn, (BraceWalk.counts_ofLine _ _).1, Text.count_trim (by decide), List.count_eq_zero]
    at none
  exact none (List.mem_of_mem_head? opening)

theorem takes_definition (closed : BraceScan) (definition : Definition) (opensBlock : Bool)
    (code : List Char) (walk : BraceWalk)
    (size : closed.findings.definitions.size = scan.findings.definitions.size) :
    scan.Takes closed (closed.takeDefinition definition opensBlock code walk)
      (walk.unclosed?.bind fun depth =>
        (if opensBlock then some scan.findings.definitions.size else none).map
          fun definition => ⟨definition, depth⟩) := by
  have keeps : ∀ place < scan.findings.definitions.size,
      (closed.findings.add definition).definitions[place]? =
        closed.findings.definitions[place]? := by
    intro place inside
    rw [Findings.getElem?_add, size, if_neg (Nat.ne_of_lt inside)]
  have larger : closed.findings.definitions.size ≤
      (closed.findings.add definition).definitions.size := by
    rw [Findings.add, Array.size_push]
    exact Nat.le_succ _
  simp only [takeDefinition]
  cases opensBlock with
  | false => exact ⟨by simp [Findings.add], larger, by simp, fun place inside _ =>
      keeps place inside, by simp⟩
  | true =>
      cases unclosed : walk.unclosed? with
      | some depth =>
          refine ⟨by simp [Findings.openScope, Findings.add, size], larger, ?_,
            fun place inside _ => keeps place inside, by simp⟩
          rintro scope ⟨⟩
          exact .inl ⟨rfl, by simp [Findings.openScope, Findings.add, size]⟩
      | none =>
          simp only [if_true, Option.bind_none]
          split
          · refine ⟨rfl, ?_, by simp, fun place inside _ => ?_, by simp⟩
            · rwa [Findings.size_endAt]
            · rw [Findings.getElem?_endAt, if_neg (by omega), keeps place inside]
          · split
            · exact ⟨rfl, larger, by simp, fun place inside _ => keeps place inside, by simp⟩
            · refine ⟨rfl, larger, by simp, fun place inside _ => keeps place inside, ?_⟩
              rintro block ⟨⟩
              exact ⟨rfl, .inl size⟩

theorem takes_continuation (closed : BraceScan) (pending : PendingBlock) (code : List Char)
    (walk : BraceWalk) (isPending : scan.pending = some pending)
    (opens : ∀ depth, walk.unclosed? = some depth → 0 < walk.opens)
    (still : walk.opens = 0 → closed.findings.scopes = scan.findings.scopes) :
    scan.Takes closed (closed.takeContinuation pending code walk)
      (walk.unclosed?.map fun depth => ⟨pending.definition, depth⟩) := by
  simp only [takeContinuation]
  cases unclosed : walk.unclosed? with
  | some depth =>
      rw [if_pos (opens depth unclosed)]
      refine ⟨rfl, Nat.le_refl _, ?_, fun _ _ _ => rfl, by simp⟩
      rintro scope ⟨⟩
      exact .inr (by rw [isPending]; rfl)
  | none =>
      split
      · refine ⟨rfl, by simp, by simp, fun place _ other => ?_, by simp⟩
        rw [isPending, Option.map_some, ne_eq, Option.some.injEq] at other
        rw [Findings.getElem?_endAt, if_neg other]
      · next noOpening =>
          split
          · exact ⟨rfl, Nat.le_refl _, by simp, fun _ _ _ => rfl, by simp⟩
          · refine ⟨rfl, Nat.le_refl _, by simp, fun _ _ _ => rfl, ?_⟩
            rintro block ⟨⟩
            exact ⟨rfl, .inr ⟨by rw [isPending]; rfl, still (Nat.eq_zero_of_not_pos noOpening)⟩⟩

theorem takes_take (input : ScanInput) (line : List Char) : scan.Takes (scan.closedOn language line)
    (scan.take language input line) (scan.scopeOn? language input line) := by
  have size := @size_closedOn scan language line
  have opens : ∀ depth, (scan.walkOn language line).unclosed? = some depth →
      0 < (scan.walkOn language line).opens := fun depth => opens_pos_of_unclosed?
  have advance : ∀ {next opened}, scan.Takes (scan.closedOn language line) next opened →
      scan.Takes (scan.closedOn language line) { next with lineNumber := next.lineNumber + 1 }
        opened := fun takes =>
    ⟨takes.scopes, takes.larger, takes.inside, takes.kept, takes.pending⟩
  -- A blank line, one with a definition, one that goes on with the pending one, and any other.
  simp only [take]
  rw [← closedOn, ← codeOn, ← walkOn]
  apply advance
  split
  · next blank =>
      rw [scopeOn?, unclosed?_of_blank blank]
      refine ⟨rfl, Nat.le_refl _, by simp, fun _ _ _ => rfl, fun block isPending =>
        ⟨rfl, .inr ⟨congrArg (Option.map _) isPending, ?_⟩⟩⟩
      exact scopes_closedOn_of_closes (closes_of_blank blank)
  · rw [takeCode, ← site, scopeOn?, owner?]
    cases Definition.recognize? language ((scan.closedOn language line).site input) line with
    | some recognized =>
        exact takes_definition _ recognized.1 recognized.2 _ _ size
    | none =>
        rw [show (scan.closedOn language line).pending = scan.pending from rfl]
        cases isPending : scan.pending with
        | none =>
            simp only [Option.map_none]
            exact ⟨by simp [takeOther], Nat.le_refl _, by simp, fun _ _ _ => rfl, by simp [takeOther]⟩
        | some pending =>
            simp only
            split
            · next belongs =>
              have takes := takes_continuation (scan.closedOn language line) pending
                (Text.trim (scan.codeOn language line)) (scan.walkOn language line) isPending opens
                fun none => scopes_closedOn_of_closes (closes_of_belongsTo belongs none)
              simpa [Option.map_eq_bind, Function.comp_def] using takes
            · exact ⟨by simp [takeOther], Nat.le_refl _, by simp, fun _ _ _ => rfl,
                by simp [takeOther]⟩

end Line

/-! ## Open scopes are open blocks -/

/-- Whether a scan has come as deep as the code above a line leads, and has the blocks open whose
braces are not closed above the line. -/
structure Follows (language : Language) (input : ScanInput) (index : Nat) : Prop where
  depth : (aboveLine language input index).depth =
    depthBehind 0 ((codeLines language input).take index).flatten
  scopes : (aboveLine language input index).findings.scopes =
    ((blocksAbove language input index).filter
      fun block => block.IsOpen (codeLines language input) index).map
        (·.scope (codeLines language input))

section Follows

variable {index : Nat} {line : List Char}

theorem Follows.isNestedByDepth (follows : Follows language input index) :
    Findings.IsNestedByDepth (aboveLine language input index).findings.scopes := by
  rw [follows.scopes, Findings.IsNestedByDepth, List.pairwise_map]
  have order := (pairwise_blocksAbove language input index).filter
    fun block => block.IsOpen (codeLines language input) index
  refine order.imp_of_mem fun {inner outer} innerMember outerMember below => ?_
  rcases List.mem_filter.mp outerMember with ⟨outerAbove, isOpen⟩
  exact (lies_of_mem_blocksAbove outerAbove).depth_lt
    (lies_of_mem_blocksAbove (List.mem_filter.mp innerMember).1) below (by simpa using isOpen)

variable (closes : ClosesWithin 0 (codeLines language input).flatten)
include closes

/-- The closing braces of a line close the scopes of the blocks that are not open any more behind
the line. -/
theorem Follows.scopes_closedOn (follows : Follows language input index)
    (isLine : input.lines[index]? = some line) :
    ((aboveLine language input index).closedOn language line).findings.scopes =
      ((blocksAbove language input index).filter
        fun block => block.IsOpen (codeLines language input) (index + 1)).map
          (·.scope (codeLines language input)) := by
  have isCode := getElem?_codeLines_of_line language isLine
  rw [BraceScan.scopes_closedOn follows.isNestedByDepth, follows.scopes, List.filter_map,
    List.filter_filter]
  congr 1
  refine List.filter_congr fun block member => ?_
  have next := (lies_of_mem_blocksAbove member).isOpen_succ_iff isCode (closes.line isCode)
  rw [Bool.eq_iff_iff, decide_eq_true_iff, next, and_comm]
  simp [Block.scope, walkOn, follows.depth]

omit closes in
/-- The scope that a line opens is that of its block. -/
theorem Follows.scopeOn?_eq (follows : Follows language input index)
    (isLine : input.lines[index]? = some line) :
    (aboveLine language input index).scopeOn? language input line =
      (blockOn? language input index).map (·.scope (codeLines language input)) := by
  simp only [blockOn?, isLine, Option.bind_some, scopeOn?, walkOn]
  cases splits : unclosedBrace? ((aboveLine language input index).codeOn language line) with
  | none =>
      rw [BraceWalk.unclosed?_of_unclosedBrace?_eq_none _ splits]
      rfl
  | some parts =>
      rw [(BraceWalk.unclosed?_of_unclosedBrace? _ splits).2.2, Option.bind_some, Option.bind_some,
        Option.map_map]
      congr 1
      funext definition
      rw [Function.comp_apply, Block.scope, Block.depth, depthBehind_append, follows.depth]

theorem Follows.step (follows : Follows language input index)
    (isLine : input.lines[index]? = some line) : Follows language input (index + 1) := by
  have isCode := getElem?_codeLines_of_line language isLine
  constructor
  · have none := surplus_eq_zero_iff.mpr (closes.line isCode)
    rw [aboveLine_succ isLine, depth_take, walkOn, BraceWalk.depth_ofLine, follows.depth, none,
      flatten_take_succ isCode, depthBehind_append]
    rfl
  · rw [aboveLine_succ isLine, (takes_take input line).scopes,
      follows.scopes_closedOn closes isLine, follows.scopeOn?_eq isLine, blocksAbove_succ]
    cases found : blockOn? language input index with
    | none => rfl
    | some block =>
        have lies : block.Lies (codeLines language input) (index + 1) :=
          lies_of_mem_blocksAbove (by simp [blocksAbove_succ, found])
        have isOpen : block.IsOpen (codeLines language input) (index + 1) := by
          rw [← line_of_blockOn? found, Block.IsOpen, Block.inside_line]
          exact lies.within
        simp [isOpen]

theorem follows (inFile : index ≤ input.lines.length) : Follows language input index :=
  ScanInput.induction_lines ⟨rfl, rfl⟩ (fun _ _ isLine above => above.step closes isLine) inFile

end Follows

end BraceScan

end SourceIndex
