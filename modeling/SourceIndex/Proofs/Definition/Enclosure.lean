import SourceIndex.Proofs.Definition.BlockEnds
import SourceIndex.Proofs.Definition.Extents

/-! Where definitions end compared with their parents, whatever the braces of the text. A parent is
open when a definition is found in it, and what is opened later is closed earlier. Only a definition
that waits for its block may get it from a line that closes its parent first: then it ends below its
parent. -/

namespace SourceIndex

namespace Findings

/-- The places of the definitions whose scopes are open, the innermost one first. -/
def openPlaces (findings : Findings) : List Nat := findings.scopes.map (·.definition)

theorem ended_of_mem {closed : List OpenScope} {place : Nat}
    (member : place ∈ closed.map (·.definition)) (line : Nat) (definition : Definition) :
    ended closed line place definition =
      { definition with endLine := max line definition.startLine } := by
  rcases List.mem_map.mp member with ⟨scope, isClosed, rfl⟩
  exact ended_of_any line definition (List.any_eq_true.mpr ⟨scope, isClosed, by simp⟩)

theorem ended_of_not_mem {closed : List OpenScope} {place : Nat}
    (other : place ∉ closed.map (·.definition)) (line : Nat) (definition : Definition) :
    ended closed line place definition = definition := by
  refine if_neg fun isClosed => other ?_
  rcases List.any_eq_true.mp isClosed with ⟨scope, member, same⟩
  exact List.mem_map.mpr ⟨scope, member, by simpa using same⟩

/-- Closing braces close the innermost scopes, and what they close ends on their line. -/
theorem exists_closed_foldl (depths : List Nat) (line : Nat) (findings : Findings) :
    let changed := depths.foldl (fun findings depth => findings.closeFrom depth line) findings
    ∃ closed, findings.scopes = closed ++ changed.scopes ∧ ∀ place : Nat,
      changed.definitions[place]? = findings.definitions[place]?.map (ended closed line place) := by
  induction depths generalizing findings with
  | nil => exact ⟨[], rfl, fun place => by simp⟩
  | cons depth depths induction =>
      rcases induction (findings.closeFrom depth line) with ⟨later, scopes, definitions⟩
      let first := findings.scopes.takeWhile (depth ≤ ·.depth)
      refine ⟨first ++ later, ?_, fun place => ?_⟩
      · rw [List.append_assoc, List.foldl_cons, ← scopes]
        exact List.takeWhile_append_dropWhile.symm
      · rw [List.foldl_cons, definitions, getElem?_closeFrom, Option.map_map]
        congr 1
        funext definition
        exact (ended_append first later line place definition).symm

end Findings

namespace BraceScan

variable {language : Language} {input : ScanInput} {index : Nat} {line : List Char}

theorem exists_closed (scan : BraceScan) (language : Language) (line : List Char) :
    ∃ closed, scan.findings.scopes = closed ++ (scan.closedOn language line).findings.scopes ∧
      ∀ place : Nat, (scan.closedOn language line).findings.definitions[place]? =
        scan.findings.definitions[place]?.map (Findings.ended closed scan.lineNumber place) :=
  Findings.exists_closed_foldl _ scan.lineNumber scan.findings

theorem openPlaces_closedOn_sublist (scan : BraceScan) (language : Language) (line : List Char) :
    (scan.closedOn language line).findings.openPlaces.Sublist scan.findings.openPlaces := by
  rcases scan.exists_closed language line with ⟨closed, scopes, -⟩
  rw [Findings.openPlaces, Findings.openPlaces, scopes, List.map_append]
  exact List.sublist_append_right _ _

theorem endsAbove_aboveLine (language : Language) (inFile : index ≤ input.lines.length) :
    EndsAbove (input.firstLine + index) (aboveLine language input index) := by
  have start : BraceScan.EndsAbove input.firstLine { lineNumber := input.firstLine } :=
    Findings.satisfy_empty _
  have reached := start.takeAll language input (input.lines.take index)
  rwa [List.length_take, Nat.min_eq_left inFile] at reached

/-! ## Open places -/

theorem openPlaces_aboveLine_succ (isLine : input.lines[index]? = some line) :
    (aboveLine language input (index + 1)).findings.openPlaces =
      ((blockOn? language input index).map (·.definition)).toList ++
        ((aboveLine language input index).closedOn language line).findings.openPlaces := by
  rw [Findings.openPlaces, (takes_aboveLine isLine).scopes, List.map_append,
    ← definition_scopeOn? isLine, ← Findings.openPlaces]
  cases (aboveLine language input index).scopeOn? language input line <;> rfl

/-- What is open are definitions of blocks, each of them once. -/
theorem openPlaces_sublist (language : Language) (inFile : index ≤ input.lines.length) :
    (aboveLine language input index).findings.openPlaces.Sublist
      ((blocksAbove language input index).map (·.definition)) := by
  induction index with
  | zero => exact List.Sublist.refl _
  | succ index induction =>
  have above := induction (Nat.le_of_succ_le inFile)
  have isLine := List.getElem?_eq_getElem (Nat.lt_of_succ_le inFile)
  rw [openPlaces_aboveLine_succ isLine, blocksAbove_succ, List.map_append]
  refine List.Sublist.append ?_ ?_
  · cases blockOn? language input index <;> exact List.Sublist.refl _
  · exact (openPlaces_closedOn_sublist _ language _).trans above

/-! ## Definitions that do not change any more -/

/-- Whether the definition at a place is neither open nor pending. -/
structure IsShut (scan : BraceScan) (place : Nat) (definition : Definition) : Prop where
  found : scan.findings.definitions[place]? = some definition
  closed : place ∉ scan.findings.openPlaces
  settled : scan.pending.map (·.definition) ≠ some place

section Line

variable {place : Nat} (isLine : input.lines[index]? = some line)
  (inside : place < (aboveLine language input index).findings.definitions.size)
include isLine inside

theorem lt_size_aboveLine_succ :
    place < (aboveLine language input (index + 1)).findings.definitions.size := by
  have larger := (@takes_aboveLine language input index line isLine).larger
  rw [size_closedOn] at larger
  omega

/-- What waits behind a line has waited above it too, unless the line closes a scope. -/
theorem settled_succ (settled : (aboveLine language input index).pending.map (·.definition) ≠
      some place ∨ ((aboveLine language input index).closedOn language line).findings.scopes ≠
        (aboveLine language input index).findings.scopes) :
    (aboveLine language input (index + 1)).pending.map (·.definition) ≠ some place := by
  intro waits
  rcases Option.map_eq_some_iff.mp waits with ⟨block, isPending, rfl⟩
  rcases ((takes_aboveLine isLine).pending block isPending).2 with new | ⟨waited, same⟩
  · omega
  · exact settled.elim (· waited) (· same)

variable (settled : (aboveLine language input index).pending.map (·.definition) ≠ some place)
include settled

/-- A line opens no block for what it does not find, unless that is pending. -/
theorem definition_ne_of_blockOn? {block : Block}
    (opened : blockOn? language input index = some block) : block.definition ≠ place := by
  rintro rfl
  rcases new_or_pending isLine opened with ⟨new, -⟩ | waited
  · omega
  · exact settled waited

theorem mem_openPlaces_succ_iff :
    place ∈ (aboveLine language input (index + 1)).findings.openPlaces ↔
      place ∈ ((aboveLine language input index).closedOn language line).findings.openPlaces := by
  rw [openPlaces_aboveLine_succ isLine, List.mem_append, Option.mem_toList,
    Option.map_eq_some_iff]
  refine or_iff_right ?_
  rintro ⟨block, opened, same⟩
  exact definition_ne_of_blockOn? isLine inside settled opened same

end Line

theorem IsShut.next {place : Nat} {definition : Definition}
    (shut : (aboveLine language input index).IsShut place definition)
    (isLine : input.lines[index]? = some line) :
    (aboveLine language input (index + 1)).IsShut place definition := by
  have inside := (Array.getElem?_eq_some_iff.mp shut.found).1
  have closed := shut.closed
  rcases (aboveLine language input index).exists_closed language line with
    ⟨ended, scopes, definitions⟩
  rw [Findings.openPlaces, scopes, List.map_append, List.mem_append, not_or] at closed
  refine ⟨?_, ?_, settled_succ isLine inside (.inl shut.settled)⟩
  · rw [(takes_aboveLine isLine).kept place inside shut.settled, definitions, shut.found,
      Option.map_some, Findings.ended_of_not_mem closed.1]
  · rw [mem_openPlaces_succ_iff isLine inside shut.settled]
    exact closed.2

theorem exists_block_of_mem_openPlaces (inFile : index ≤ input.lines.length) {place : Nat}
    (isOpen : place ∈ (aboveLine language input index).findings.openPlaces) :
    ∃ block ∈ blocksAbove language input index, block.definition = place :=
  List.mem_map.mp ((openPlaces_sublist language inFile).subset isOpen)

theorem lt_size_of_mem_openPlaces (inFile : index ≤ input.lines.length) {place : Nat}
    (isOpen : place ∈ (aboveLine language input index).findings.openPlaces) :
    place < (aboveLine language input index).findings.definitions.size := by
  rcases exists_block_of_mem_openPlaces inFile isOpen with ⟨block, above, rfl⟩
  exact (owns language inFile).inside block above

/-- What a line closes ends there. -/
theorem exists_isShut_of_closed (isLine : input.lines[index]? = some line) {place : Nat}
    (wasOpen : place ∈ (aboveLine language input index).findings.openPlaces)
    (closed : place ∉
      ((aboveLine language input index).closedOn language line).findings.openPlaces) :
    ∃ definition, (aboveLine language input (index + 1)).IsShut place definition ∧
      definition.endLine = input.firstLine + index := by
  have inFile := Nat.le_of_lt (List.getElem?_eq_some_iff.mp isLine).1
  have own := owns language inFile
  rcases exists_block_of_mem_openPlaces inFile wasOpen with ⟨block, above, rfl⟩
  have inside := own.inside block above
  have settled := own.settled block above
  have found := Array.getElem?_eq_getElem inside
  have starts := ((nested_aboveLine language inFile).findings.lines _ _ found).2
  rcases (aboveLine language input index).exists_closed language line with
    ⟨ended, scopes, definitions⟩
  rw [Findings.openPlaces, scopes, List.map_append, List.mem_append] at wasOpen
  have next := (takes_aboveLine isLine).kept block.definition inside settled
  rw [definitions, found, Option.map_some, Findings.ended_of_mem (wasOpen.resolve_right closed),
    lineNumber_aboveLine language inFile] at next
  refine ⟨_, ⟨next, ?_, settled_succ isLine inside (.inl settled)⟩, ?_⟩
  · rwa [mem_openPlaces_succ_iff isLine inside settled]
  · simp only
    omega

/-! ## Definitions and their parents -/

/-- How the definition at `place` stands above a line to its parent, which is at another place. -/
inductive Stands (language : Language) (input : ScanInput) (index parentPlace place : Nat) : Prop
  /-- The parent is open, and the definition is not around it. -/
  | inside :
    parentPlace ∈ (aboveLine language input index).findings.openPlaces →
    ¬ [parentPlace, place].Sublist (aboveLine language input index).findings.openPlaces →
    Stands language input index parentPlace place
  /-- Both have ended, the definition not below its parent. -/
  | apart (parent definition : Definition) :
    (aboveLine language input index).IsShut parentPlace parent →
    (aboveLine language input index).IsShut place definition →
    definition.endLine ≤ parent.endLine →
    (∀ block ∈ blocksAbove language input index, block.definition = place →
      input.firstLine + block.line ≠ parent.endLine) →
    Stands language input index parentPlace place
  /-- The parent has ended on the line that opened the block of the definition. -/
  | astray (parent : Definition) (block : Block) :
    (aboveLine language input index).IsShut parentPlace parent →
    block ∈ blocksAbove language input index → block.definition = place →
    input.firstLine + block.line = parent.endLine →
    (place ∈ (aboveLine language input index).findings.openPlaces ∨
      ∃ definition, (aboveLine language input index).IsShut place definition ∧
        parent.endLine < definition.endLine) →
    Stands language input index parentPlace place

section Line

variable {parentPlace place : Nat} (isLine : input.lines[index]? = some line)
include isLine

/-- A definition stands inside the scopes that a line leaves open, if it is around none of them. -/
theorem Stands.of_mem_openPlaces_closedOn
    (isOpen : parentPlace ∈
      ((aboveLine language input index).closedOn language line).findings.openPlaces)
    (order : ¬ [parentPlace, place].Sublist
      ((aboveLine language input index).closedOn language line).findings.openPlaces) :
    Stands language input (index + 1) parentPlace place := by
  have inFile := Nat.le_of_lt (List.getElem?_eq_some_iff.mp isLine).1
  have own := owns language inFile
  have wasOpen := (openPlaces_closedOn_sublist _ language line).subset isOpen
  rcases exists_block_of_mem_openPlaces inFile wasOpen with ⟨block, above, rfl⟩
  have inside := own.inside block above
  have settled := own.settled block above
  refine .inside ((mem_openPlaces_succ_iff isLine inside settled).mpr isOpen) ?_
  rw [openPlaces_aboveLine_succ isLine]
  cases opened : blockOn? language input index with
  | none => exact order
  | some new =>
      intro around
      rcases List.sublist_cons_iff.mp around with behind | ⟨rest, same, -⟩
      · exact order behind
      · exact definition_ne_of_blockOn? isLine inside settled opened (List.cons.inj same).1.symm

/-- When a line closes a scope, what stands in it has ended too, unless its block is opened only
there. -/
theorem Stands.of_closed (found : place < (aboveLine language input index).findings.definitions.size)
    (wasOpen : parentPlace ∈ (aboveLine language input index).findings.openPlaces)
    (closed : parentPlace ∉
      ((aboveLine language input index).closedOn language line).findings.openPlaces)
    (order : ¬ [parentPlace, place].Sublist
      (aboveLine language input index).findings.openPlaces) :
    Stands language input (index + 1) parentPlace place := by
  have inLines := (List.getElem?_eq_some_iff.mp isLine).1
  rcases exists_isShut_of_closed isLine wasOpen closed with ⟨parent, shut, ends⟩
  rcases (aboveLine language input index).exists_closed language line with ⟨ended, scopes, -⟩
  have openPlaces : (aboveLine language input index).findings.openPlaces =
      ended.map (·.definition) ++
        ((aboveLine language input index).closedOn language line).findings.openPlaces := by
    rw [Findings.openPlaces, scopes, List.map_append, Findings.openPlaces]
  rw [openPlaces] at wasOpen order
  have isEnded := (List.mem_append.mp wasOpen).resolve_right closed
  have endedToo : place ∉
      ((aboveLine language input index).closedOn language line).findings.openPlaces :=
    fun isLeft => order
      ((List.singleton_sublist.mpr isEnded).append (List.singleton_sublist.mpr isLeft))
  have settled : (aboveLine language input (index + 1)).pending.map (·.definition) ≠
      some place := by
    refine settled_succ isLine found (.inr fun same => ?_)
    rw [same, eq_comm, List.append_left_eq_self] at scopes
    rw [scopes] at isEnded
    exact List.not_mem_nil isEnded
  by_cases opened : (blockOn? language input index).map (·.definition) = some place
  · rcases Option.map_eq_some_iff.mp opened with ⟨block, isBlock, same⟩
    refine .astray parent block shut (mem_blocksAbove_succ.mpr (.inl isBlock)) same ?_ (.inl ?_)
    · rw [line_of_blockOn? isBlock, ends]
    · rw [openPlaces_aboveLine_succ isLine, opened]
      exact List.mem_cons_self
  · have next := Array.getElem?_eq_getElem (@lt_size_aboveLine_succ language _ _ _ _ isLine found)
    have below := (endsAbove_aboveLine language (Nat.succ_le_of_lt inLines) _ _ next).above
    refine .apart parent _ shut ⟨next, ?_, settled⟩ (by omega) ?_
    · rw [openPlaces_aboveLine_succ isLine, List.mem_append, Option.mem_toList, not_or]
      exact ⟨opened, endedToo⟩
    · intro block member same
      rcases mem_blocksAbove_succ.mp member with isBlock | above
      · exact absurd (by rw [isBlock, Option.map_some, same]) opened
      · have := (lies_of_mem_blocksAbove above).above
        omega

end Line

theorem Stands.next {parentPlace place : Nat}
    (stands : Stands language input index parentPlace place)
    (found : place < (aboveLine language input index).findings.definitions.size)
    (isLine : input.lines[index]? = some line) :
    Stands language input (index + 1) parentPlace place := by
  have inFile := Nat.le_of_lt (List.getElem?_eq_some_iff.mp isLine).1
  cases stands with
  | inside isOpen order =>
      by_cases isLeft : parentPlace ∈
          ((aboveLine language input index).closedOn language line).findings.openPlaces
      · exact .of_mem_openPlaces_closedOn isLine isLeft fun around =>
          order (around.trans (openPlaces_closedOn_sublist _ language line))
      · exact .of_closed isLine found isOpen isLeft order
  | apart parent definition parentShut shut ends elsewhere =>
      refine .apart parent definition (parentShut.next isLine) (shut.next isLine) ends ?_
      intro block member same
      refine elsewhere block ((mem_blocksAbove_succ.mp member).resolve_left fun opened => ?_) same
      exact definition_ne_of_blockOn? isLine found shut.settled opened same
  | astray parent block parentShut above same here late =>
      refine .astray parent block (parentShut.next isLine) (mem_blocksAbove_succ.mpr (.inr above))
        same here ?_
      have settled := (owns language inFile).settled block above
      rw [same] at settled
      rcases late with isOpen | ⟨definition, shut, below⟩
      · by_cases isLeft : place ∈
            ((aboveLine language input index).closedOn language line).findings.openPlaces
        · exact .inl ((mem_openPlaces_succ_iff isLine found settled).mpr isLeft)
        · rcases exists_isShut_of_closed isLine isOpen isLeft with ⟨definition, shut, ends⟩
          have := (lies_of_mem_blocksAbove above).above
          exact .inr ⟨definition, shut, by omega⟩
      · exact .inr ⟨definition, shut.next isLine, below⟩

theorem Stands.reach {parentPlace place later : Nat}
    (stands : Stands language input index parentPlace place)
    (found : place < (aboveLine language input index).findings.definitions.size)
    (order : index ≤ later) (inFile : later ≤ input.lines.length) :
    Stands language input later parentPlace place ∧
      place < (aboveLine language input later).findings.definitions.size := by
  induction order with
  | refl => exact ⟨stands, found⟩
  | step _ induction =>
      have isLine := List.getElem?_eq_getElem (Nat.lt_of_succ_le inFile)
      rcases induction (Nat.le_of_succ_le inFile) with ⟨stands, found⟩
      exact ⟨stands.next found isLine, lt_size_aboveLine_succ isLine found⟩

/-- A new definition stands inside its parent, unless the parent is around the input. -/
theorem Stands.of_pickOn? (isLine : input.lines[index]? = some line) {pick : Definition.Pick}
    (picked : (aboveLine language input index).pickOn? language input line = some pick)
    {id : String} (named : pick.definition.parentId = some id) :
    (∃ parentPlace < (aboveLine language input index).findings.definitions.size,
      ((aboveLine language input index).findings.shown Definition.id)[parentPlace]? = some id ∧
        Stands language input (index + 1) parentPlace
          (aboveLine language input index).findings.definitions.size) ∨
      input.outer.map (·.id) = some id := by
  have inFile := Nat.le_of_lt (List.getElem?_eq_some_iff.mp isLine).1
  have parent := (parentId_of_pickOn? picked).2
  rw [named] at parent
  split at parent
  · cases parent
  · rw [Findings.enclosing] at parent
    split at parent
    · next scope isHead =>
        have isOpen : scope.definition ∈
            ((aboveLine language input index).closedOn language line).findings.openPlaces :=
          List.mem_map_of_mem (List.mem_of_mem_head? isHead)
        have wasOpen := (openPlaces_closedOn_sublist _ language line).subset isOpen
        refine .inl ⟨scope.definition, lt_size_of_mem_openPlaces inFile wasOpen, ?_,
          .of_mem_openPlaces_closedOn isLine isOpen fun around => ?_⟩
        · have passes : Findings.PassesOverEnds Definition.id := fun _ _ => rfl
          rw [← shown_closedOn passes language line, Findings.shown, List.getElem?_map,
            Array.getElem?_toList]
          exact parent.symm
        · have late := around.subset (List.mem_cons_of_mem _ (List.mem_singleton_self _))
          exact absurd (lt_size_of_mem_openPlaces inFile
            ((openPlaces_closedOn_sublist _ language line).subset late)) (Nat.lt_irrefl _)
    · exact .inr parent.symm

theorem shown_scanBraces {View : Type} {view : Definition → View}
    (passes : Findings.PassesOverEnds view) (place : Nat) :
    (scanBraces language input)[place]?.map view =
      ((aboveLine language input input.lines.length).findings.shown view)[place]? := by
  rw [← List.getElem?_map, map_scanBraces passes]

theorem exists_parent {place : Nat} {child : Definition}
    (found : (scanBraces language input)[place]? = some child) {id : String}
    (named : child.parentId = some id) :
    (∃ parentPlace < place, ∃ parent, (scanBraces language input)[parentPlace]? = some parent ∧
      parent.id = id ∧ Stands language input input.lines.length parentPlace place) ∨
      input.outer.map (·.id) = some id := by
  have passes : Findings.PassesOverEnds Definition.parentId := fun _ _ => rfl
  have passesId : Findings.PassesOverEnds Definition.id := fun _ _ => rfl
  have seen := @shown_scanBraces language input _ _ passes place
  rw [found, Option.map_some, named] at seen
  rcases exists_pick passes (Nat.le_refl _) seen.symm with
    ⟨index, line, pick, isLine, picked, isPlace, isParent⟩
  have below := Nat.succ_le_of_lt (List.getElem?_eq_some_iff.mp isLine).1
  rcases Stands.of_pickOn? isLine picked isParent with ⟨parentPlace, inFront, isId, stands⟩ | outer
  · left
    have larger : (aboveLine language input index).findings.definitions.size <
        (aboveLine language input (index + 1)).findings.definitions.size := by
      have isNew := (grows_aboveLine passesId language input).getElem?_of_new
        (Nat.lt_succ_self index) below
        (by rw [isLine, Option.bind_some, picked, Option.map_some])
      simpa [Findings.shown] using (List.getElem?_eq_some_iff.mp isNew).1
    rcases shown_aboveLine_prefix passesId language (Nat.le_of_succ_le below) (Nat.le_refl _) with
      ⟨rest, whole⟩
    have inAll := @shown_scanBraces language input _ _ passesId parentPlace
    rw [← whole, List.getElem?_append_left (by simpa [Findings.shown] using inFront), isId,
      Option.map_eq_some_iff] at inAll
    rcases inAll with ⟨parent, isParent, same⟩
    rw [isPlace] at inFront stands larger
    exact ⟨parentPlace, inFront, parent, isParent, same,
      (stands.reach larger below (Nat.le_refl _)).1⟩
  · exact .inr outer

/-- Whether a definition ends on the line that opens the block of another one, above the last line of
all. -/
def EndsWhereOpens (language : Language) (input : ScanInput) (place : Nat) (parent : Definition) :
    Prop :=
  parent.endLine < input.lastLine ∧ ∃ block ∈ blocksAbove language input input.lines.length,
    block.definition = place ∧ input.firstLine + block.line = parent.endLine

/-- What is open in the end ends with the last line. -/
theorem endLine_of_mem_openPlaces {place : Nat} {definition : Definition}
    (isOpen : place ∈ (aboveLine language input input.lines.length).findings.openPlaces)
    (found : (scanBraces language input)[place]? = some definition) :
    definition.endLine = input.lastLine := by
  rw [scanBraces_eq, Array.getElem?_toList, Findings.getElem?_closeAll,
    Option.map_eq_some_iff] at found
  rcases found with ⟨former, isFormer, rfl⟩
  rw [Findings.ended_of_mem isOpen]
  have starts := ((nested_aboveLine language (Nat.le_refl _)).findings.lines _ _ isFormer).2
  simp only [ScanInput.lastLine]
  omega

/-- What has ended stays as it is. -/
theorem IsShut.eq_of_found {place : Nat} {shut definition : Definition}
    (isShut : (aboveLine language input input.lines.length).IsShut place shut)
    (found : (scanBraces language input)[place]? = some definition) : definition = shut := by
  rw [scanBraces_eq, Array.getElem?_toList, Findings.getElem?_closeAll, isShut.found,
    Option.map_some, Findings.ended_of_not_mem isShut.closed, Option.some.injEq] at found
  exact found.symm

theorem endLine_le_lastLine {place : Nat} {definition : Definition}
    (found : (scanBraces language input)[place]? = some definition) :
    definition.endLine ≤ input.lastLine := by
  have above := (endsAbove_scanBraces language input definition (List.mem_of_getElem? found)).above
  rw [ScanInput.lastLine]
  omega

theorem Stands.ends_inside_iff {parentPlace place : Nat} {parent child : Definition}
    (stands : Stands language input input.lines.length parentPlace place)
    (isParent : (scanBraces language input)[parentPlace]? = some parent)
    (found : (scanBraces language input)[place]? = some child) :
    child.endLine ≤ parent.endLine ↔ ¬ EndsWhereOpens language input place parent := by
  have low := endLine_le_lastLine found
  cases stands with
  | inside isOpen order =>
      have ends := endLine_of_mem_openPlaces isOpen isParent
      exact iff_of_true (by omega) fun astray => by have := astray.1; omega
  | apart _ _ parentShut shut order elsewhere =>
      obtain rfl := parentShut.eq_of_found isParent
      obtain rfl := shut.eq_of_found found
      exact iff_of_true order fun ⟨_, block, above, same, here⟩ => elsewhere block above same here
  | astray _ block parentShut above same here late =>
      obtain rfl := parentShut.eq_of_found isParent
      have inFile := (lies_of_mem_blocksAbove above).above
      have reached : parent.endLine < child.endLine ↔ parent.endLine < input.lastLine := by
        rcases late with isOpen | ⟨_, shut, below⟩
        · rw [endLine_of_mem_openPlaces isOpen found]
        · obtain rfl := shut.eq_of_found found
          exact iff_of_true below (by omega)
      rw [← Nat.not_lt, reached]
      exact not_congr ⟨fun ends => ⟨ends, block, above, same, here⟩, fun astray => astray.1⟩

end BraceScan

/-- A definition whose parent is another one ends inside its parent, unless its parent ends on the
line that opens its block and that line is not the last one: then it does not. -/
theorem ends_inside_parent_iff (language : Language) (input : ScanInput) {place : Nat}
    {child : Definition} (found : (scanBraces language input)[place]? = some child) {id : String}
    (named : child.parentId = some id) :
    (∃ parent ∈ (scanBraces language input).take place, parent.id = id ∧
      (child.endLine ≤ parent.endLine ↔
        ¬ BraceScan.EndsWhereOpens language input place parent)) ∨
      input.outer.map (·.id) = some id := by
  rcases BraceScan.exists_parent found named with
    ⟨parentPlace, inFront, parent, isParent, same, stands⟩ | outer
  · refine .inl ⟨parent, ?_, same, stands.ends_inside_iff isParent found⟩
    exact List.mem_of_getElem? ((List.getElem?_take_of_lt inFront).trans isParent)
  · exact .inr outer

/-- A method whose own block opens and closes on a line that closes its class too, and then leaves
another brace open. -/
theorem ends_inside_parent_iff_of_class :
    let input : ScanInput := ⟨"f", 1, none,
      ["class A \x7b".toList, "  f()".toList, "  \x7b \x7d \x7d \x7b".toList, "  \x7d".toList]⟩
    let definitions := scanBraces .typescript input
    definitions.map (fun definition => (definition.startLine, definition.endLine)) =
      [(1, 3), (2, 4)] ∧
    ∃ child id, definitions[1]? = some child ∧ child.parentId = some id ∧
      ∃ parent ∈ definitions.take 1, parent.id = id ∧
        (child.endLine ≤ parent.endLine ↔
          ¬ BraceScan.EndsWhereOpens .typescript input 1 parent) := by
  intro input definitions
  have hasParent : (definitions[1]?.bind (·.parentId)).isSome := by decide +kernel
  rcases Option.isSome_iff_exists.mp hasParent with ⟨id, isParent⟩
  rcases Option.bind_eq_some_iff.mp isParent with ⟨child, found, named⟩
  exact ⟨by decide +kernel, child, id, found, named,
    (ends_inside_parent_iff .typescript input found named).resolve_right nofun⟩

end SourceIndex
