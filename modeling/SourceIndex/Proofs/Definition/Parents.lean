import SourceIndex.Proofs.Definition.Nesting
import SourceIndex.Proofs.Markup.Regions

/-! Every scan keeps the nesting of definitions, line by line, and so do the scripts of documents,
whose parents of last resort are the sections around them. -/

namespace SourceIndex

/-- What a scan of scopes yields: nested definitions that start on the lines scanned. -/
structure NestedWithin (input : ScanInput) (definitions : List Definition) : Prop where
  parents : ParentsContainWithin input.outer definitions
  lines : ∀ definition ∈ definitions, input.firstLine ≤ definition.startLine ∧
    definition.startLine < input.firstLine + input.lines.length

theorem Findings.Nested.nestedWithin {input : ScanInput} {findings : Findings}
    (nested : findings.Nested input.outer input.firstLine (input.firstLine + input.lines.length))
    (closed : findings.scopes = []) : NestedWithin input findings.definitions.toList :=
  ⟨nested.parentsContainWithin closed, fun _ member => nested.lines_toList member⟩

/-! ## Scopes that end with a brace -/

namespace BraceScan

/-- What holds of a scan whose findings reach up to the line in front of `next`. -/
structure Nested (input : ScanInput) (next : Nat) (scan : BraceScan) : Prop where
  findings : scan.findings.Nested input.outer input.firstLine next
  pending : ∀ block, scan.pending = some block →
    block.definition < scan.findings.definitions.size

variable {input : ScanInput} {next : Nat} {scan : BraceScan}

theorem Nested.closeScopes (nested : Nested input scan.lineNumber scan) (walk : BraceWalk) :
    Nested input scan.lineNumber (scan.closeScopes walk) := by
  unfold BraceScan.closeScopes
  generalize walk.closeDepths.reverse = depths
  -- Closing a scope neither adds nor removes a definition, so the pending one stays in place.
  have closed : ∀ (findings : Findings),
      findings.Nested input.outer input.firstLine scan.lineNumber →
      findings.definitions.size = scan.findings.definitions.size →
      (depths.foldl (fun findings depth => findings.closeFrom depth scan.lineNumber)
        findings).Nested input.outer input.firstLine scan.lineNumber ∧
      (depths.foldl (fun findings depth => findings.closeFrom depth scan.lineNumber)
        findings).definitions.size = scan.findings.definitions.size := by
    induction depths with
    | nil => exact fun findings holds same => ⟨holds, same⟩
    | cons depth depths induction =>
        intro findings holds same
        apply induction
        · exact holds.closeFrom depth (Nat.le_succ _)
        · rw [Findings.size_closeFrom, same]
  rcases closed scan.findings nested.findings rfl with ⟨holds, same⟩
  exact ⟨holds, fun block pending => same ▸ nested.pending block pending⟩

theorem Nested.takeContinuation (nested : Nested input next scan) (low : next ≤ scan.lineNumber + 1)
    {pending : PendingBlock} (isPending : scan.pending = some pending) (code : List Char)
    (walk : BraceWalk) : Nested input next (scan.takeContinuation pending code walk) := by
  have inside := nested.pending pending isPending
  unfold BraceScan.takeContinuation
  simp only
  split
  · split
    · next depth _ => exact ⟨nested.findings.openScope inside depth, nofun⟩
    · exact ⟨nested.findings.endAt pending.definition low, nofun⟩
  · split
    · exact ⟨nested.findings, nofun⟩
    · refine ⟨nested.findings, fun block isBlock => ?_⟩
      cases isBlock
      exact inside

theorem Nested.takeDefinition (nested : Nested input scan.lineNumber scan)
    (reached : input.firstLine ≤ scan.lineNumber) {definition : Definition}
    (starts : definition.startLine = scan.lineNumber)
    (parent : definition.parentId = none ∨
      definition.parentId = (scan.findings.enclosing input.outer).map (·.id))
    (opensBlock : Bool) (code : List Char) (walk : BraceWalk) :
    Nested input (scan.lineNumber + 1) (scan.takeDefinition definition opensBlock code walk) := by
  have added := nested.findings.add reached starts parent
  have inside : scan.findings.definitions.size <
      (scan.findings.add definition).definitions.size := by
    rw [Findings.add, Array.size_push]
    exact Nat.lt_succ_self _
  -- As long as no block is pending, only what has been found matters.
  have settled : ∀ {later : BraceScan}, later.findings.Nested input.outer input.firstLine
      (scan.lineNumber + 1) → later.pending = none → Nested input (scan.lineNumber + 1) later := by
    intro later found none
    refine ⟨found, fun block isBlock => ?_⟩
    rw [none] at isBlock
    cases isBlock
  unfold BraceScan.takeDefinition
  simp only
  split
  · split
    · next depth _ => exact settled (added.openScope inside depth) rfl
    · split
      · exact settled (added.endAt _ (Nat.le_refl _)) rfl
      · split
        · exact settled added rfl
        · refine ⟨added, fun block isBlock => ?_⟩
          cases isBlock
          exact inside
  · exact settled added rfl

theorem Nested.takeOther (nested : Nested input next scan) (code : List Char) :
    Nested input next (scan.takeOther code) :=
  ⟨nested.findings, nofun⟩

theorem Nested.takeCode (nested : Nested input scan.lineNumber scan)
    (reached : input.firstLine ≤ scan.lineNumber) (language : Language) (line code : List Char)
    (walk : BraceWalk) :
    Nested input (scan.lineNumber + 1) (scan.takeCode language input line code walk) := by
  have later : Nested input (scan.lineNumber + 1) scan :=
    ⟨nested.findings.mono (Nat.le_succ _), nested.pending⟩
  unfold BraceScan.takeCode
  simp only
  split
  · next definition opensBlock recognized =>
      exact nested.takeDefinition reached (Definition.startLine_of_recognize? recognized)
        (Definition.parentId_of_recognize? recognized) opensBlock code walk
  · next pending _ isPending =>
      split
      · exact later.takeContinuation (Nat.le_refl _) isPending code walk
      · exact later.takeOther code
  · exact later.takeOther code

@[simp] theorem lineNumber_takeCode (scan : BraceScan) (language : Language) (input : ScanInput)
    (line code : List Char) (walk : BraceWalk) :
    (scan.takeCode language input line code walk).lineNumber = scan.lineNumber := by
  unfold BraceScan.takeCode BraceScan.takeDefinition BraceScan.takeContinuation
    BraceScan.takeOther
  simp only
  repeat' split
  all_goals rfl

@[simp] theorem lineNumber_take (scan : BraceScan) (language : Language) (input : ScanInput)
    (line : List Char) : (scan.take language input line).lineNumber = scan.lineNumber + 1 := by
  unfold BraceScan.take
  simp only
  split
  · rfl
  · rw [lineNumber_takeCode]
    rfl

theorem Nested.take (nested : Nested input scan.lineNumber scan)
    (reached : input.firstLine ≤ scan.lineNumber) (language : Language) (line : List Char) :
    Nested input (scan.lineNumber + 1) (scan.take language input line) := by
  let stripped := language.lexicon.strip scan.mode line
  let walk := BraceWalk.ofLine scan.depth stripped.code
  let before : BraceScan := { scan with mode := stripped.mode }
  have kept : Nested input before.lineNumber before := ⟨nested.findings, nested.pending⟩
  have holds : Nested input (before.closeScopes walk).lineNumber (before.closeScopes walk) :=
    kept.closeScopes walk
  unfold BraceScan.take
  simp only
  split
  · exact ⟨holds.findings.mono (Nat.le_succ _), holds.pending⟩
  · have taken := holds.takeCode reached language line (Text.trim stripped.code) walk
    exact ⟨taken.findings, taken.pending⟩

theorem Nested.takeAll (language : Language) (lines : List (List Char)) {scan : BraceScan}
    (nested : Nested input scan.lineNumber scan) (reached : input.firstLine ≤ scan.lineNumber) :
    Nested input (scan.lineNumber + lines.length)
      (lines.foldl (BraceScan.take language input) scan) := by
  induction lines generalizing scan with
  | nil => exact nested
  | cons line lines induction =>
      have step := nested.take reached language line
      rw [← lineNumber_take scan language input line] at step
      have rest := induction step (by rw [lineNumber_take]; omega)
      rw [lineNumber_take] at rest
      rw [List.foldl_cons, List.length_cons, Nat.add_comm lines.length, ← Nat.add_assoc]
      exact rest

end BraceScan

theorem nestedWithin_scanBraces (language : Language) (input : ScanInput) :
    NestedWithin input (scanBraces language input) := by
  let initial : BraceScan := { lineNumber := input.firstLine }
  have start : initial.Nested input initial.lineNumber := ⟨Findings.nested_empty _ _ _, nofun⟩
  have final := start.takeAll language input.lines (Nat.le_refl _)
  refine (final.findings.closeAll ?_).nestedWithin rfl
  show input.firstLine + input.lines.length ≤ input.lastLine + 1
  unfold ScanInput.lastLine
  omega

/-! ## Scopes that end with the indentation -/

namespace IndentScan

/-- All definitions start above the line at hand, and not below the last line of code. -/
def Nested (input : ScanInput) (scan : IndentScan) : Prop :=
  scan.findings.Nested input.outer input.firstLine (min (scan.lastCodeLine + 1) scan.lineNumber)

variable {input : ScanInput} {scan : IndentScan}

theorem Nested.takeStatement (nested : Nested input scan)
    (reached : input.firstLine ≤ scan.lineNumber) (language : Language) (line code : List Char) :
    (scan.takeStatement language input line code).findings.Nested input.outer input.firstLine
      (scan.lineNumber + 1) := by
  have closed := nested.closeFrom (indentWidth line) (Nat.min_le_left _ _)
  have above := closed.mono (Nat.min_le_right _ _)
  unfold IndentScan.takeStatement
  simp only
  split
  · exact above.mono (Nat.le_succ _)
  · split
    · next definition opensBlock recognized =>
        have added := above.add reached (Definition.startLine_of_recognize? recognized)
          (Definition.parentId_of_recognize? recognized)
        split
        · exact added.openScope (by simp [Findings.add]) _
        · exact added
    · exact above.mono (Nat.le_succ _)

@[simp] theorem lines_takeStatement (scan : IndentScan) (language : Language) (input : ScanInput)
    (line code : List Char) :
    (scan.takeStatement language input line code).lineNumber = scan.lineNumber ∧
      (scan.takeStatement language input line code).lastCodeLine = scan.lineNumber := by
  unfold IndentScan.takeStatement
  simp only
  split
  · exact ⟨rfl, rfl⟩
  · split <;> exact ⟨rfl, rfl⟩

@[simp] theorem lineNumber_take (scan : IndentScan) (language : Language) (input : ScanInput)
    (line : List Char) : (scan.take language input line).lineNumber = scan.lineNumber + 1 := by
  unfold IndentScan.take
  simp only
  split
  · rfl
  · split
    · rfl
    · rw [(lines_takeStatement _ language input line _).1]

theorem Nested.take (nested : Nested input scan) (reached : input.firstLine ≤ scan.lineNumber)
    (language : Language) (line : List Char) : Nested input (scan.take language input line) := by
  unfold Nested
  rw [lineNumber_take]
  unfold IndentScan.take
  simp only
  split
  · exact nested.mono (by simp only; omega)
  · split
    · exact nested.mono (by simp only; omega)
    · let stripped := language.lexicon.strip scan.mode line
      let before : IndentScan := { scan with
        mode := stripped.mode
        brackets := ((scan.brackets : Int) + allBracketBalance stripped.code).toNat }
      have kept : Nested input before := nested
      refine (kept.takeStatement reached language line (Text.trim stripped.code)).mono ?_
      rw [(lines_takeStatement _ language input line _).2]
      exact Nat.le_min.mpr ⟨Nat.le_refl _, Nat.le_refl _⟩

theorem Nested.takeAll (language : Language) (lines : List (List Char)) {scan : IndentScan}
    (nested : Nested input scan) (reached : input.firstLine ≤ scan.lineNumber) :
    Nested input (lines.foldl (IndentScan.take language input) scan) ∧
      (lines.foldl (IndentScan.take language input) scan).lineNumber =
        scan.lineNumber + lines.length := by
  induction lines generalizing scan with
  | nil => exact ⟨nested, rfl⟩
  | cons line lines induction =>
      have rest := induction (nested.take reached language line)
        (by rw [lineNumber_take]; omega)
      rw [lineNumber_take] at rest
      rw [List.foldl_cons, List.length_cons, Nat.add_comm lines.length, ← Nat.add_assoc]
      exact rest

end IndentScan

theorem nestedWithin_scanIndentation (language : Language) (input : ScanInput) :
    NestedWithin input (scanIndentation language input) := by
  have start : IndentScan.Nested input
      { lineNumber := input.firstLine, lastCodeLine := input.firstLine } :=
    Findings.nested_empty _ _ _
  rcases start.takeAll language input.lines (Nat.le_refl _) with ⟨final, reached⟩
  have closed := final.closeAll (Nat.min_le_left _ _)
  rw [reached] at closed
  exact (closed.mono (Nat.min_le_right _ _)).nestedWithin rfl

/-! ## Lines that are each taken alone -/

/-- No line has a parent where every line is taken alone. -/
theorem parentId_of_mem_scanPlain {language : Language} {input : ScanInput}
    {definition : Definition} (member : definition ∈ scanPlain language input) :
    definition.parentId = none := by
  unfold scanPlain at member
  rcases List.mem_filterMap.mp member with ⟨⟨⟨line, stripped⟩, number⟩, -, made⟩
  simp only at made
  split at made
  · cases made
  · rcases Option.map_eq_some_iff.mp made with ⟨⟨recognized, opensBlock⟩, found, rfl⟩
    rcases Definition.parentId_of_recognize? found with none | outside
    · exact none
    · exact outside

/-! ## Documents -/

theorem ParentsContainWithin.section {sectionOf : Definition} {nested : List Definition}
    (within : ParentsContainWithin (some sectionOf) nested)
    (contains : ∀ child ∈ nested, sectionOf.Contains child) (top : sectionOf.parentId = none) :
    ParentsContain (sectionOf :: nested) := by
  intro place child id found names
  cases place with
  | zero =>
      cases found
      rw [top] at names
      cases names
  | succ place =>
      rw [List.getElem?_cons_succ] at found
      rcases within place child id found names with ⟨parent, member, holds⟩ | outside
      · exact ⟨parent, by simp [member], holds⟩
      · exact ⟨sectionOf, by simp, Option.some.inj outside,
          contains child (List.mem_of_getElem? found)⟩

theorem ParentsContain.append {front back : List Definition} (frontHolds : ParentsContain front)
    (backHolds : ParentsContain back) : ParentsContain (front ++ back) := by
  intro place child id found names
  rw [List.getElem?_append] at found
  split at found
  · next inFront =>
      rcases frontHolds place child id found names with ⟨parent, member, holds⟩
      refine ⟨parent, ?_, holds⟩
      rw [List.take_append_of_le_length (Nat.le_of_lt inFront)]
      exact member
  · next behind =>
      rcases backHolds _ child id found names with ⟨parent, member, holds⟩
      refine ⟨parent, ?_, holds⟩
      rw [List.take_append]
      exact List.mem_append_right _ member

theorem parentsContain_flatMap {α : Type} (items : List α) (definitionsOf : α → List Definition)
    (holds : ∀ item ∈ items, ParentsContain (definitionsOf item)) :
    ParentsContain (items.flatMap definitionsOf) := by
  induction items with
  | nil => exact fun place child id found => by cases found
  | cons item items induction =>
      rw [List.flatMap_cons]
      exact (holds item (by simp)).append
        (induction fun other member => holds other (List.mem_cons_of_mem _ member))

/-- The lines of a script lie strictly between the tags of its section. -/
theorem sectionDefinition_contains (language : Language) (fileId : String) {region : Region}
    (openingLine : List Char) {first last : Nat} (inner : region.innerLines? = some (first, last))
    {child : Definition} (low : first + 1 ≤ child.startLine) (high : child.startLine ≤ last + 1) :
    (sectionDefinition language fileId region openingLine).Contains child := by
  rw [Region.innerLines?_eq_some_iff] at inner
  constructor
  · show region.start + 1 < child.startLine
    omega
  · show child.startLine ≤ region.stop + 1
    omega

/-- The scan for scopes that a language asks for. -/
def scanScopes (script : Language) (input : ScanInput) : List Definition :=
  match script.scopeStyle with
  | .indentation => scanIndentation script input
  | _ => scanBraces script input

theorem nestedWithin_scanScopes (script : Language) (input : ScanInput) :
    NestedWithin input (scanScopes script input) := by
  unfold scanScopes
  split
  · exact nestedWithin_scanIndentation script input
  · exact nestedWithin_scanBraces script input

theorem parentsContain_regionDefinitions (language : Language) (fileId : String)
    (lines : List (List Char)) (region : Region) :
    ParentsContain (regionDefinitions language fileId lines region) := by
  unfold regionDefinitions
  generalize (lines[region.start]?).getD [] = openingLine
  simp only
  split
  · next script first last _ inner =>
      generalize input_eq : (⟨fileId, first + 1, some (sectionDefinition language fileId region
        openingLine), (lines.drop first).take (last - first + 1)⟩ : ScanInput) = input
      have nested := nestedWithin_scanScopes script input
      subst input_eq
      refine nested.parents.section (fun child member => ?_) rfl
      have inside := nested.lines child member
      simp only [List.length_take] at inside
      have order : first ≤ last := (Region.innerLines?_eq_some_iff.mp inner).2.1
      exact sectionDefinition_contains language fileId openingLine inner inside.1 (by omega)
  · have none : ParentsContainWithin
        (some (sectionDefinition language fileId region openingLine)) [] :=
      fun place child id found => by cases found
    exact none.section (fun child member => by cases member) rfl

/-! ## Files -/

/-- Parents contain their children in every language and every text. -/
theorem parentsContain_extractDefinitions (language : Language) (fileId content : String) :
    ParentsContain (extractDefinitions language fileId content) := by
  have alone : ∀ {definitions}, ParentsContainWithin none definitions →
      ParentsContain definitions := fun within place child id found names =>
    (within place child id found names).resolve_right nofun
  unfold extractDefinitions
  simp only
  split
  · exact alone (nestedWithin_scanBraces language _).parents
  · exact alone (nestedWithin_scanIndentation language _).parents
  · intro place child id found names
    rw [parentId_of_mem_scanPlain (List.mem_of_getElem? found)] at names
    cases names
  · exact parentsContain_flatMap _ _ fun region _ =>
      parentsContain_regionDefinitions language fileId _ region

/-- A block that opens on a line of its own and is never closed holds what follows. -/
example : (extractDefinitions .rust "f" "impl A\n\x7b\n fn m() \x7b\n").map
    (fun definition => (definition.startLine, definition.endLine, definition.parentId.isSome)) =
      [(1, 3, false), (3, 3, true)] := by decide +kernel

end SourceIndex
