import Mathlib.Data.List.Nodup
import SourceIndex.Proofs.Definition.Blocks

/-! Where blocks end and what stands in them, in a file that closes no more braces than it has
opened. The definition of a block ends on the line of the brace that matches the block's brace, or
with the file, and a new definition stands in the innermost block that is open behind the closing
braces of its line. -/

namespace SourceIndex

/-! ## Definitions that closing braces end -/

namespace Findings

variable {scopes : List OpenScope}

theorem ended_congr {closed other : List OpenScope} (line place : Nat)
    (same : ∀ scope, scope ∈ closed ↔ scope ∈ other) :
    ended closed line place = ended other line place := by
  have equal : closed.any (·.definition == place) = other.any (·.definition == place) := by
    rw [Bool.eq_iff_iff, List.any_eq_true, List.any_eq_true]
    simp only [same]
  funext definition
  rw [ended, ended, equal]

theorem ended_append (front back : List OpenScope) (line place : Nat) (definition : Definition) :
    ended (front ++ back) line place definition =
      ended back line place (ended front line place definition) := by
  simp only [ended, List.any_append, Bool.or_eq_true]
  by_cases inFront : front.any (·.definition == place) = true <;>
    by_cases behind : back.any (·.definition == place) = true <;>
    simp [inFront, behind]

theorem mem_takeWhile_iff (nested : IsNestedByDepth scopes) (depth : Nat) {scope : OpenScope} :
    scope ∈ scopes.takeWhile (depth ≤ ·.depth) ↔ scope ∈ scopes ∧ depth ≤ scope.depth := by
  constructor
  · intro member
    exact ⟨(List.takeWhile_sublist _).subset member, by simpa using List.mem_takeWhile_imp member⟩
  · rintro ⟨member, deep⟩
    rw [← List.takeWhile_append_dropWhile (p := (depth ≤ ·.depth)) (l := scopes),
      dropWhile_eq_filter nested] at member
    refine (List.mem_append.mp member).resolve_right fun behind => ?_
    have shallow := (List.mem_filter.mp behind).2
    rw [decide_eq_true_iff] at shallow
    omega

/-- The scopes that closing braces close, told by the depths to which the braces lead. -/
def closedBy (depths : List Nat) (scopes : List OpenScope) : List OpenScope :=
  scopes.filter fun scope => !depths.all (scope.depth < ·)

theorem getElem?_foldl_closeFrom (depths : List Nat) (line place : Nat) {findings : Findings}
    (nested : IsNestedByDepth findings.scopes) :
    (depths.foldl (fun findings depth => findings.closeFrom depth line)
        findings).definitions[place]? =
      findings.definitions[place]?.map (ended (closedBy depths findings.scopes) line place) := by
  induction depths generalizing findings with
  | nil => simp [closedBy]
  | cons depth depths induction =>
      have closed : (findings.closeFrom depth line).scopes =
          findings.scopes.filter (·.depth < depth) := dropWhile_eq_filter nested depth
      have later := @induction (findings.closeFrom depth line) (by
        rw [closed]
        exact List.Pairwise.sublist List.filter_sublist nested)
      rw [List.foldl_cons, later, getElem?_closeFrom, Option.map_map, closed]
      congr 1
      funext definition
      rw [Function.comp_apply, ← ended_append]
      refine congrFun (ended_congr line place fun scope => ?_) definition
      have shallow : scope.depth < depth ↔ ¬ depth ≤ scope.depth := Nat.not_le.symm
      rw [List.mem_append, mem_takeWhile_iff nested]
      simp only [closedBy, List.mem_filter, List.all_cons, Bool.not_eq_true', Bool.and_eq_false_iff,
        decide_eq_true_iff, decide_eq_false_iff_not, shallow, not_not]
      tauto

end Findings

namespace BraceScan

variable {language : Language} {input : ScanInput} {index : Nat} {line : List Char}

theorem nested_aboveLine (language : Language) (inFile : index ≤ input.lines.length) :
    Nested input (input.firstLine + index) (aboveLine language input index) := by
  let initial : BraceScan := { lineNumber := input.firstLine }
  have start : initial.Nested input initial.lineNumber := ⟨Findings.nested_empty _ _ _, nofun⟩
  have reached := start.takeAll language (input.lines.take index) (Nat.le_refl _)
  rwa [List.length_take, Nat.min_eq_left inFile] at reached

/-! ## Owners -/

/-- Whether each block above a line has a definition of its own, which is not pending any more. -/
structure Owns (language : Language) (input : ScanInput) (index : Nat) : Prop where
  inside : ∀ block ∈ blocksAbove language input index,
    block.definition < (aboveLine language input index).findings.definitions.size
  settled : ∀ block ∈ blocksAbove language input index,
    (aboveLine language input index).pending.map (·.definition) ≠ some block.definition
  distinct : ((blocksAbove language input index).map (·.definition)).Nodup

theorem mem_blocksAbove_succ {block : Block} :
    block ∈ blocksAbove language input (index + 1) ↔
      blockOn? language input index = some block ∨ block ∈ blocksAbove language input index := by
  rw [blocksAbove_succ, List.mem_append, Option.mem_toList]

section Owns

/-- The scope that a line opens is that of the definition of its block. -/
theorem definition_scopeOn? (isLine : input.lines[index]? = some line) :
    ((aboveLine language input index).scopeOn? language input line).map (·.definition) =
      (blockOn? language input index).map (·.definition) := by
  simp only [blockOn?, isLine, Option.bind_some, scopeOn?, walkOn]
  cases splits : unclosedBrace? ((aboveLine language input index).codeOn language line) with
  | none =>
      rw [BraceWalk.unclosed?_of_unclosedBrace?_eq_none _ splits]
      rfl
  | some parts =>
      rw [(BraceWalk.unclosed?_of_unclosedBrace? _ splits).2.2, Option.bind_some, Option.bind_some,
        Option.map_map, Option.map_map]
      rfl

variable (isLine : input.lines[index]? = some line)
include isLine

theorem takes_aboveLine : (aboveLine language input index).Takes
    ((aboveLine language input index).closedOn language line)
    (aboveLine language input (index + 1))
    ((aboveLine language input index).scopeOn? language input line) := by
  rw [aboveLine_succ isLine]
  exact takes_take input line

/-- A block that a line opens has a new definition or the pending one. -/
theorem new_or_pending {block : Block} (opened : blockOn? language input index = some block) :
    block.definition = (aboveLine language input index).findings.definitions.size ∧
        (aboveLine language input index).findings.definitions.size <
          (aboveLine language input (index + 1)).findings.definitions.size ∨
      (aboveLine language input index).pending.map (·.definition) = some block.definition := by
  have same := @definition_scopeOn? language input index line isLine
  rw [opened, Option.map_some, Option.map_eq_some_iff] at same
  rcases same with ⟨scope, isScope, equal⟩
  rw [← equal]
  exact (takes_aboveLine isLine).inside scope isScope

theorem Owns.step (owns : Owns language input index) : Owns language input (index + 1) := by
  have takes := @takes_aboveLine language input index line isLine
  have larger := takes.larger
  rw [size_closedOn] at larger
  have inFile := (List.getElem?_eq_some_iff.mp isLine).1
  have nested := nested_aboveLine language (Nat.le_of_lt inFile)
  constructor
  · intro block member
    rcases mem_blocksAbove_succ.mp member with opened | above
    · rcases new_or_pending isLine opened with ⟨new, more⟩ | waited
      · omega
      · rcases Option.map_eq_some_iff.mp waited with ⟨pending, isPending, same⟩
        have := nested.pending pending isPending
        omega
    · have := owns.inside block above
      omega
  · intro block member waits
    rcases Option.map_eq_some_iff.mp waits with ⟨pending, isPending, same⟩
    rcases takes.pending pending isPending with ⟨opened, origin⟩
    have none := @definition_scopeOn? language input index line isLine
    rw [opened, Option.map_none, eq_comm, Option.map_eq_none_iff] at none
    have above := (mem_blocksAbove_succ.mp member).resolve_left (by simp [none])
    have := owns.inside block above
    rcases origin with new | ⟨waited, -⟩
    · omega
    · exact owns.settled block above (by rw [waited, same])
  · rw [blocksAbove_succ, List.map_append, List.nodup_append]
    refine ⟨?_, owns.distinct, ?_⟩
    · cases blockOn? language input index <;> simp
    · intro definition isNew former isFormer
      rcases List.mem_map.mp isNew with ⟨block, opened, rfl⟩
      rcases List.mem_map.mp isFormer with ⟨other, above, rfl⟩
      rw [Option.mem_toList] at opened
      have := owns.inside other above
      rcases new_or_pending isLine opened with ⟨new, -⟩ | waited
      · omega
      · rintro same
        exact owns.settled other above (by rw [waited, same])

end Owns

/-- Of the definitions of blocks, those of certain blocks are ended, and no others. -/
theorem Owns.ended_eq (owns : Owns language input index) {block : Block}
    (member : block ∈ blocksAbove language input index) (ends : Block → Bool) (last : Nat)
    (definition : Definition) :
    Findings.ended (((blocksAbove language input index).filter ends).map
        (·.scope (codeLines language input))) last block.definition definition =
      if ends block then { definition with endLine := max last definition.startLine }
      else definition := by
  have same : (((blocksAbove language input index).filter ends).map
      (·.scope (codeLines language input))).any (·.definition == block.definition) =
        ends block := by
    rw [Bool.eq_iff_iff, List.any_map, List.any_eq_true]
    constructor
    · rintro ⟨other, isEnded, same⟩
      rcases List.mem_filter.mp isEnded with ⟨above, ended⟩
      have equal : other = block := List.inj_on_of_nodup_map owns.distinct above member
        (by simpa [Block.scope] using same)
      exact equal ▸ ended
    · exact fun isEnded => ⟨block, List.mem_filter.mpr ⟨member, isEnded⟩, by simp [Block.scope]⟩
  rw [Findings.ended, same]

theorem owns (language : Language) (inFile : index ≤ input.lines.length) :
    Owns language input index :=
  ScanInput.induction_lines ⟨nofun, nofun, List.nodup_nil⟩ (fun _ _ isLine above =>
    above.step isLine) inFile

section Closing

variable (closes : ClosesWithin 0 (codeLines language input).flatten)
include closes

/-! ## Ends -/

/-- The blocks that are closed on a line. -/
def blocksClosedOn (language : Language) (input : ScanInput) (index : Nat) : List Block :=
  (blocksAbove language input index).filter fun block =>
    block.IsOpen (codeLines language input) index ∧
      ¬ block.IsOpen (codeLines language input) (index + 1)

theorem getElem?_closedOn (isLine : input.lines[index]? = some line) (place : Nat) :
    ((aboveLine language input index).closedOn language line).findings.definitions[place]? =
      (aboveLine language input index).findings.definitions[place]?.map
        (Findings.ended ((blocksClosedOn language input index).map
          (·.scope (codeLines language input))) (input.firstLine + index) place) := by
  have inFile := Nat.le_of_lt (List.getElem?_eq_some_iff.mp isLine).1
  have isCode := getElem?_codeLines_of_line language isLine
  have scan := follows closes inFile
  refine (Findings.getElem?_foldl_closeFrom
    ((aboveLine language input index).walkOn language line).closeDepths.reverse
    (aboveLine language input index).lineNumber place scan.isNestedByDepth).trans ?_
  rw [lineNumber_aboveLine language inFile]
  congr 1
  refine Findings.ended_congr _ _ fun scope => ?_
  rw [Findings.closedBy, scan.scopes, List.filter_map, List.filter_filter, blocksClosedOn]
  suffices same : ∀ block ∈ blocksAbove language input index, _ by
    rw [List.filter_congr same]
  intro block member
  have next := (lies_of_mem_blocksAbove member).isOpen_succ_iff isCode (closes.line isCode)
  rw [Bool.eq_iff_iff]
  simp only [Function.comp_apply, Block.scope, List.all_reverse, walkOn, scan.depth, next,
    Bool.and_eq_true, decide_eq_true_iff, Bool.not_eq_true', ← Bool.not_eq_true]
  tauto

/-- Above a line, the definition of each closed block ends on the line of the matching brace. -/
def EndsClosed (language : Language) (input : ScanInput) (index : Nat) : Prop :=
  ∀ block ∈ blocksAbove language input index, ¬ block.IsOpen (codeLines language input) index →
    ∃ last, block.ClosesOn (codeLines language input) last ∧
      ∃ definition,
        (aboveLine language input index).findings.definitions[block.definition]? =
          some definition ∧
        definition.endLine = input.firstLine + last

theorem EndsClosed.step (ends : EndsClosed language input index)
    (isLine : input.lines[index]? = some line) : EndsClosed language input (index + 1) := by
  have inFile := Nat.le_of_lt (List.getElem?_eq_some_iff.mp isLine).1
  have isCode := getElem?_codeLines_of_line language isLine
  have scan := follows closes inFile
  have own := owns language inFile
  intro block member closed
  have above : block ∈ blocksAbove language input index := by
    refine (mem_blocksAbove_succ.mp member).resolve_left fun opened => closed ?_
    rw [← line_of_blockOn? opened, Block.IsOpen, Block.inside_line]
    exact (lies_of_mem_blocksAbove member).within
  have lies := lies_of_mem_blocksAbove above
  rw [(takes_aboveLine isLine).kept _ (own.inside block above) (own.settled block above),
    getElem?_closedOn closes isLine]
  by_cases isOpen : block.IsOpen (codeLines language input) index
  · -- The brace that matches is on this line, and ends the definition.
    have outside := closed
    rw [Block.IsOpen, Block.inside_succ lies.above isCode] at outside
    rcases exists_closing isOpen outside with ⟨inner, outer, code, balanced⟩
    have found := Array.getElem?_eq_getElem (own.inside block above)
    have starts := ((nested_aboveLine language inFile).findings.lines _ _ found).2
    refine ⟨index, ⟨lies.above, inner, outer, by rw [isCode, code], balanced⟩, ?_⟩
    refine ⟨_, by rw [found, Option.map_some], ?_⟩
    rw [blocksClosedOn, own.ended_eq above, if_pos (by simp [isOpen, closed])]
    simp only
    omega
  · -- What has ended stays: no other block has the definition.
    rcases ends block above isOpen with ⟨last, closesOn, definition, found, ended⟩
    refine ⟨last, closesOn, definition, ?_, ended⟩
    rw [found, Option.map_some, blocksClosedOn, own.ended_eq above, if_neg (by simp [isOpen])]

theorem endsClosed (inFile : index ≤ input.lines.length) : EndsClosed language input index :=
  ScanInput.induction_lines nofun (fun _ _ isLine above => above.step closes isLine) inFile

end Closing

/-! ## Origins -/

section View

variable {View : Type} {view : Definition → View} (passes : Findings.PassesOverEnds view)
include passes

theorem shown_aboveLine_succ (isLine : input.lines[index]? = some line) :
    (aboveLine language input (index + 1)).findings.shown view =
      (aboveLine language input index).findings.shown view ++
        (((aboveLine language input index).pickOn? language input line).map
          (view ·.definition)).toList := by
  rw [aboveLine_succ isLine]
  exact shown_take passes line

theorem grows_aboveLine (language : Language) (input : ScanInput) :
    Findings.Grows input.lines.length
      (fun index => (aboveLine language input index).findings.shown view)
      (fun index => input.lines[index]?.bind fun line =>
        ((aboveLine language input index).pickOn? language input line).map (view ·.definition)) where
  start := rfl
  next index inFile := by
    have isLine := List.getElem?_eq_getElem inFile
    rw [isLine, Option.bind_some]
    exact shown_aboveLine_succ passes isLine

theorem shown_aboveLine_prefix (language : Language) {index later : Nat} (order : index ≤ later)
    (inFile : later ≤ input.lines.length) :
    (aboveLine language input index).findings.shown view <+:
      (aboveLine language input later).findings.shown view :=
  (grows_aboveLine passes language input).isPrefix order inFile

/-- What has been found was picked on some line, and its place is the number of what had been found
above that line. -/
theorem exists_pick (inFile : index ≤ input.lines.length) {place : Nat} {seen : View}
    (found : ((aboveLine language input index).findings.shown view)[place]? = some seen) :
    ∃ earlier line pick, input.lines[earlier]? = some line ∧
      (aboveLine language input earlier).pickOn? language input line = some pick ∧
      (aboveLine language input earlier).findings.definitions.size = place ∧
      view pick.definition = seen := by
  rcases (grows_aboveLine passes language input).exists_new inFile found with
    ⟨earlier, -, isNew, isPlace⟩
  rcases Option.bind_eq_some_iff.mp isNew with ⟨line, isLine, isNew⟩
  rcases Option.map_eq_some_iff.mp isNew with ⟨pick, picked, same⟩
  exact ⟨earlier, line, pick, isLine, picked, by simpa [Findings.shown] using isPlace, same⟩

omit passes in
theorem scanBraces_eq (language : Language) (input : ScanInput) : scanBraces language input =
    ((aboveLine language input input.lines.length).findings.closeAll
      input.lastLine).definitions.toList := by
  rw [aboveLine, List.take_length]
  rfl

theorem map_scanBraces : (scanBraces language input).map view =
    (aboveLine language input input.lines.length).findings.shown view := by
  rw [scanBraces_eq]
  exact Findings.shown_closeAll _ passes _

end View

/-! ## Parents -/

/-- The definition of the innermost block that is open behind the closing braces of a line, or the
one around the input. -/
def enclosingOn (language : Language) (input : ScanInput) (definitions : List Definition)
    (index : Nat) : Option Definition :=
  match (blocksAbove language input index).find? fun block =>
    block.IsOpen (codeLines language input) (index + 1) with
  | some block => definitions[block.definition]?
  | none => input.outer

theorem enclosing_closedOn (closes : ClosesWithin 0 (codeLines language input).flatten)
    (isLine : input.lines[index]? = some line) :
    ((aboveLine language input index).closedOn language line).findings.enclosing input.outer =
      enclosingOn language input
        ((aboveLine language input index).closedOn language line).findings.definitions.toList
        index := by
  have inFile := Nat.le_of_lt (List.getElem?_eq_some_iff.mp isLine).1
  rw [Findings.enclosing, (follows closes inFile).scopes_closedOn closes isLine, List.head?_map,
    List.head?_filter, enclosingOn]
  cases (blocksAbove language input index).find? _ with
  | none => rfl
  | some block => simp [Block.scope]

theorem id_enclosingOn (closes : ClosesWithin 0 (codeLines language input).flatten)
    (isLine : input.lines[index]? = some line) :
    (enclosingOn language input (scanBraces language input) index).map (·.id) =
      (((aboveLine language input index).closedOn language line).findings.enclosing
        input.outer).map (·.id) := by
  have inFile := Nat.le_of_lt (List.getElem?_eq_some_iff.mp isLine).1
  have passes : Findings.PassesOverEnds Definition.id := fun _ _ => rfl
  have front := shown_aboveLine_prefix passes language inFile (Nat.le_refl _)
  rw [← map_scanBraces passes, ← shown_closedOn passes language line] at front
  rw [enclosing_closedOn closes isLine, enclosingOn, enclosingOn]
  cases found : (blocksAbove language input index).find? _ with
  | none => rfl
  | some block =>
      have inside := (owns language inFile).inside block (List.mem_of_find?_eq_some found)
      rw [← size_closedOn language line] at inside
      rcases front with ⟨rest, whole⟩
      have equal := congrArg (·[block.definition]?) whole
      rw [List.getElem?_append_left (by simpa [Findings.shown] using inside)] at equal
      simpa [Findings.shown] using equal.symm

theorem parentId_of_pickOn? {scan : BraceScan} {pick : Definition.Pick}
    (picked : scan.pickOn? language input line = some pick) :
    pick.definition.startLine = scan.lineNumber ∧
      pick.definition.parentId = if (pick.found.capture? "recv").isSome then none
        else ((scan.closedOn language line).findings.enclosing input.outer).map (·.id) := by
  rw [pickOn?] at picked
  split at picked
  · cases picked
  · exact Definition.parentId_of_pick? picked

end BraceScan

/-- Where a block ends: on the line of the brace that matches its brace or, if there is none, on the
last line. -/
inductive Block.EndsOn (input : ScanInput) (codes : List (List Char)) (block : Block) :
    Nat → Prop
  | closed (last : Nat) : block.ClosesOn codes last →
    block.EndsOn input codes (input.firstLine + last)
  | unclosed : block.IsOpen codes codes.length → block.EndsOn input codes input.lastLine

namespace BraceScan

variable {language : Language} {input : ScanInput}

/-- Blocks that no brace closes end with the last line, when the scopes that are open are closed. -/
theorem endsOn_of_mem_blocksAbove (closes : ClosesWithin 0 (codeLines language input).flatten)
    {block : Block} (member : block ∈ blocksAbove language input input.lines.length) :
    ∃ definition, (scanBraces language input)[block.definition]? = some definition ∧
      block.EndsOn input (codeLines language input) definition.endLine := by
  have scan := follows closes (Nat.le_refl _)
  have own : Owns language input input.lines.length := owns language (Nat.le_refl _)
  rw [scanBraces_eq language input, Array.getElem?_toList, Findings.getElem?_closeAll, scan.scopes]
  by_cases isOpen : block.IsOpen (codeLines language input) input.lines.length
  · have found := Array.getElem?_eq_getElem (own.inside block member)
    have starts := ((nested_aboveLine language (Nat.le_refl _)).findings.lines _ _ found).2
    refine ⟨_, by rw [found, Option.map_some], ?_⟩
    rw [own.ended_eq member, if_pos (by simpa using isOpen)]
    simp only
    rw [Nat.max_eq_left (by rw [ScanInput.lastLine]; omega)]
    exact .unclosed (by rwa [length_codeLines])
  · rcases endsClosed closes (Nat.le_refl _) block member isOpen with
      ⟨last, closesOn, definition, found, ended⟩
    refine ⟨definition, ?_, ended ▸ .closed last closesOn⟩
    rw [found, Option.map_some, own.ended_eq member, if_neg (by simpa using isOpen)]

end BraceScan

/-- In a file that closes no more braces than it has opened, the definition of every block ends where
the block does. And every definition is the one that is picked on some line; its parent is the
definition of the innermost block that is open behind the closing braces of the line, or the one
around the input, unless it names a receiver. -/
theorem scanBraces_follows_braces (language : Language) (input : ScanInput)
    (closes : ClosesWithin 0 (BraceScan.codeLines language input).flatten) :
    (∀ block ∈ BraceScan.blocksAbove language input input.lines.length,
      ∃ definition, (scanBraces language input)[block.definition]? = some definition ∧
        block.EndsOn input (BraceScan.codeLines language input) definition.endLine) ∧
    ∀ place definition, (scanBraces language input)[place]? = some definition →
      ∃ index line pick, input.lines[index]? = some line ∧
        (BraceScan.aboveLine language input index).pickOn? language input line = some pick ∧
        (BraceScan.aboveLine language input index).findings.definitions.size = place ∧
        definition = { pick.definition with endLine := definition.endLine } ∧
        definition.startLine = input.firstLine + index ∧
        definition.parentId = if (pick.found.capture? "recv").isSome then none
          else (BraceScan.enclosingOn language input (scanBraces language input) index).map
            (·.id) := by
  refine ⟨fun block member => BraceScan.endsOn_of_mem_blocksAbove closes member, ?_⟩
  intro place definition found
  have passes : Findings.PassesOverEnds fun definition : Definition =>
    { definition with endLine := 0 } := fun _ _ => rfl
  have seen := congrArg (Option.map fun definition : Definition =>
    { definition with endLine := 0 }) found
  rw [← List.getElem?_map, BraceScan.map_scanBraces passes] at seen
  rcases BraceScan.exists_pick passes (Nat.le_refl _) seen with
    ⟨index, line, pick, isLine, picked, isPlace, same⟩
  have equal : definition = { pick.definition with endLine := definition.endLine } :=
    (congrArg ({ · with endLine := definition.endLine }) same).symm
  have inFile := Nat.le_of_lt (List.getElem?_eq_some_iff.mp isLine).1
  rcases BraceScan.parentId_of_pickOn? picked with ⟨starts, parent⟩
  refine ⟨index, line, pick, isLine, picked, isPlace, equal, ?_, ?_⟩
  · rw [equal, ← BraceScan.lineNumber_aboveLine language inFile]
    exact starts
  · rw [BraceScan.id_enclosingOn closes isLine, ← parent, equal]

/-- A class whose last line closes the block of its method too, in front of a function whose block
is opened on a line of its own and never closed. -/
theorem scanBraces_follows_braces_of_class :
    let input : ScanInput := ⟨"f", 1, none,
      ["class A \x7b".toList, "  m() \x7b".toList, "  \x7d \x7d".toList, "function f()".toList,
        "\x7b".toList]⟩
    let definitions := scanBraces .javascript input
    let blocks := BraceScan.blocksAbove .javascript input input.lines.length
    (∀ block ∈ blocks, ∃ definition, definitions[block.definition]? = some definition ∧
      block.EndsOn input (BraceScan.codeLines .javascript input) definition.endLine) ∧
    blocks.map (fun block => (block.definition, block.line)) = [(2, 4), (1, 1), (0, 0)] ∧
    definitions.map (fun definition => (definition.startLine, definition.endLine)) =
      [(1, 3), (2, 3), (4, 5)] :=
  ⟨(scanBraces_follows_braces .javascript _ (by decide +kernel)).1, by decide +kernel,
    by decide +kernel⟩

end SourceIndex
