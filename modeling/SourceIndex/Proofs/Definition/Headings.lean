import SourceIndex.Proofs.Definition.Order
import SourceIndex.Proofs.Lexicon.Inside

/-! The outline of a file: the name, the kind and the first line of each definition. How a scan goes
on depends on the outline of what it has found and on nothing else that the definitions say, so that
two scans with one outline make out the same headings on the lines below. -/

namespace SourceIndex

/-- What the outline of a file tells of a definition. -/
structure Heading where
  name : String
  kind : DefinitionKind
  startLine : Nat
  deriving DecidableEq, Repr

def Definition.heading (definition : Definition) : Heading :=
  ⟨definition.name, definition.kind, definition.startLine⟩

/-! ## Recognition -/

/-- Whether two sites are on lines of one number, in scopes of one kind and in definitions of one
name. -/
structure Site.Alike (site other : Site) : Prop where
  lineNumber : site.lineNumber = other.lineNumber
  scope : site.scope = other.scope
  parentName : site.parent.map (·.name) = other.parent.map (·.name)

namespace Definition

/-- The heading of the definition on a line, and whether it may open a scope. -/
def outline? (language : Language) (site : Site) (line : List Char) : Option (Heading × Bool) :=
  (recognize? language site line).map fun (definition, opensBlock) =>
    (definition.heading, opensBlock)

variable {language : Language} {site other : Site} {line : List Char}

theorem kindOf_congr (alike : site.Alike other) (rule : DefinitionRule) (found : Pattern.Match)
    (written : WrittenName) :
    kindOf language rule site found written line =
      kindOf language rule other found written line := by
  have callable : ∀ kind, callableKind language site kind written.name =
      callableKind language other kind written.name := by
    intro kind
    simp only [callableKind, alike.scope]
  simp only [kindOf, callable]

theorem isRefused_congr (alike : site.Alike other) (rule : DefinitionRule) (found : Pattern.Match)
    (fullName : List Char) :
    isRefused language rule site found fullName = isRefused language rule other found fullName := by
  simp only [isRefused, isForeignConstructor, alike.parentName]

theorem heading_ofCapture (site : Site) (rule : DefinitionRule) (found : Pattern.Match)
    (capture : Pattern.Capture) :
    (ofCapture language rule site line found capture).heading =
      let written := WrittenName.of language (Text.trim capture.text)
      ⟨written.name, kindOf language rule site found written line, site.lineNumber⟩ := rfl

theorem map_heading_ofMatch? (alike : site.Alike other) (rule : DefinitionRule)
    (found : Pattern.Match) :
    (ofMatch? language rule site line found).map heading =
      (ofMatch? language rule other line found).map heading := by
  simp only [ofMatch?, Option.bind_eq_bind, isRefused_congr alike]
  cases found.capture? "name" with
  | none => simp only [Option.bind_none]
  | some capture =>
      simp only [Option.bind_some]
      split
      · rfl
      · simp only [Option.map_some, heading_ofCapture, kindOf_congr alike, alike.lineNumber]

/-- Alike sites make out one heading. -/
theorem outline?_congr (alike : site.Alike other) :
    outline? language site line = outline? language other line := by
  simp only [outline?, recognize?, pick?, List.map_findSome?, alike.scope]
  apply congrArg (List.findSome? · _)
  funext rule
  cases matched : rule.pattern.find? line with
  | none => simp [matched]
  | some found =>
      have same := @map_heading_ofMatch? language site other line alike rule found
      cases first : ofMatch? language rule site line found <;>
        cases second : ofMatch? language rule other line found <;>
        simp_all

end Definition

/-! ## Findings -/

namespace Findings

/-- The headings of the definitions found so far, in order. -/
def headings (findings : Findings) : List Heading := findings.shown Definition.heading

theorem passesOverEnds_heading : PassesOverEnds Definition.heading := fun _ _ => rfl

/-- Whether the definitions found have one outline and the same scopes are open. -/
structure Alike (findings other : Findings) : Prop where
  headings : findings.headings = other.headings
  scopes : findings.scopes = other.scopes

variable {findings other : Findings}

theorem Alike.refl (findings : Findings) : findings.Alike findings := ⟨rfl, rfl⟩

theorem Alike.size (alike : findings.Alike other) :
    findings.definitions.size = other.definitions.size := by
  have lengths := congrArg List.length alike.headings
  simpa only [Findings.headings, shown, List.length_map, Array.length_toList] using lengths

theorem Alike.endAt (alike : findings.Alike other) (definition line : Nat) :
    (findings.endAt definition line).Alike (other.endAt definition line) where
  headings := by
    rw [Findings.headings, Findings.headings, shown_endAt _ passesOverEnds_heading,
      shown_endAt _ passesOverEnds_heading]
    exact alike.headings
  scopes := alike.scopes

theorem Alike.closeFrom (alike : findings.Alike other) (depth line : Nat) :
    (findings.closeFrom depth line).Alike (other.closeFrom depth line) where
  headings := by
    rw [Findings.headings, Findings.headings, shown_closeFrom _ passesOverEnds_heading,
      shown_closeFrom _ passesOverEnds_heading]
    exact alike.headings
  scopes := congrArg (List.dropWhile _) alike.scopes

theorem Alike.openScope (alike : findings.Alike other) (definition depth : Nat) :
    (findings.openScope definition depth).Alike (other.openScope definition depth) where
  headings := alike.headings
  scopes := congrArg (List.cons _) alike.scopes

theorem Alike.add (alike : findings.Alike other) {definition changed : Definition}
    (same : definition.heading = changed.heading) :
    (findings.add definition).Alike (other.add changed) where
  headings := by
    rw [Findings.headings, Findings.headings, shown_add, shown_add, same]
    exact congrArg (· ++ _) alike.headings
  scopes := alike.scopes

theorem Alike.heading_enclosing (alike : findings.Alike other) (outer : Option Definition) :
    (findings.enclosing outer).map (·.heading) = (other.enclosing outer).map (·.heading) := by
  simp only [enclosing, alike.scopes]
  cases other.scopes.head? with
  | none => rfl
  | some scope =>
      have same := congrArg (·[scope.definition]?) alike.headings
      simpa only [Findings.headings, shown, List.getElem?_map, Array.getElem?_toList] using same

/-- The line behind two findings of one outline has alike sites. -/
theorem Alike.site (alike : findings.Alike other) (fileId : String) (lineNumber : Nat)
    (outer : Option Definition) (decorators others : List String) :
    (findings.site fileId lineNumber outer decorators).Alike
      (other.site fileId lineNumber outer others) where
  lineNumber := rfl
  scope := by
    have same := congrArg (Option.map Heading.kind) (alike.heading_enclosing outer)
    rw [Option.map_map, Option.map_map] at same
    exact congrArg ScopeContext.of same
  parentName := by
    have same := congrArg (Option.map Heading.name) (alike.heading_enclosing outer)
    rwa [Option.map_map, Option.map_map] at same

end Findings

/-! ## Scans -/

namespace BraceScan

/-- Whether two scans have come to lines of one number with one outline. Decorators may differ: a
definition has them, but its heading does not. -/
structure Alike (scan other : BraceScan) : Prop where
  lineNumber : scan.lineNumber = other.lineNumber
  depth : scan.depth = other.depth
  mode : scan.mode = other.mode
  pending : scan.pending = other.pending
  findings : scan.findings.Alike other.findings

variable {scan other : BraceScan} {language : Language} {input : ScanInput}

theorem Alike.refl (scan : BraceScan) : scan.Alike scan := ⟨rfl, rfl, rfl, rfl, .refl _⟩

theorem Alike.closeScopes (alike : scan.Alike other) (walk : BraceWalk) :
    (scan.closeScopes walk).Alike (other.closeScopes walk) where
  lineNumber := alike.lineNumber
  depth := by simp only [BraceScan.closeScopes, alike.depth]
  mode := alike.mode
  pending := alike.pending
  findings := by
    simp only [BraceScan.closeScopes, alike.lineNumber]
    have same := alike.findings
    generalize walk.closeDepths.reverse = depths
    generalize scan.findings = findings at same
    generalize other.findings = others at same
    induction depths generalizing findings others with
    | nil => exact same
    | cons depth depths induction => exact induction _ _ (same.closeFrom depth other.lineNumber)

theorem Alike.takeContinuation (alike : scan.Alike other) (pending : PendingBlock)
    (code : List Char) (walk : BraceWalk) :
    (scan.takeContinuation pending code walk).Alike (other.takeContinuation pending code walk) := by
  rcases alike with ⟨lineNumber, depth, mode, waits, findings⟩
  simp only [BraceScan.takeContinuation]
  split
  · split
    · exact ⟨lineNumber, depth, mode, rfl, findings.openScope _ _⟩
    · exact ⟨lineNumber, depth, mode, rfl, lineNumber ▸ findings.endAt _ _⟩
  · split
    · exact ⟨lineNumber, depth, mode, rfl, findings⟩
    · exact ⟨lineNumber, depth, mode, rfl, findings⟩

theorem Alike.takeDefinition (alike : scan.Alike other) {definition changed : Definition}
    (same : definition.heading = changed.heading) (opensBlock : Bool) (code : List Char)
    (walk : BraceWalk) :
    (scan.takeDefinition definition opensBlock code walk).Alike
      (other.takeDefinition changed opensBlock code walk) := by
  rcases alike with ⟨lineNumber, depth, mode, -, findings⟩
  have added := findings.add same
  simp only [BraceScan.takeDefinition, findings.size]
  split
  · split
    · exact ⟨lineNumber, depth, mode, rfl, added.openScope _ _⟩
    · split
      · exact ⟨lineNumber, depth, mode, rfl, lineNumber ▸ added.endAt _ _⟩
      · split
        · exact ⟨lineNumber, depth, mode, rfl, added⟩
        · exact ⟨lineNumber, depth, mode, rfl, added⟩
  · exact ⟨lineNumber, depth, mode, rfl, added⟩

theorem Alike.takeOther (alike : scan.Alike other) (code : List Char) :
    (scan.takeOther code).Alike (other.takeOther code) :=
  ⟨alike.lineNumber, alike.depth, alike.mode, rfl, alike.findings⟩

/-- The site on which a scan takes the code of a line. -/
def site (scan : BraceScan) (input : ScanInput) : Site :=
  scan.findings.site input.fileId scan.lineNumber input.outer scan.decorators

theorem Alike.site (alike : scan.Alike other) (input : ScanInput) :
    (scan.site input).Alike (other.site input) := by
  simp only [BraceScan.site, alike.lineNumber]
  exact alike.findings.site _ _ _ _ _

/-- Lines of one heading and one code lead from alike scans to alike ones. -/
theorem Alike.takeCode (alike : scan.Alike other) {line changed : List Char}
    (same : Definition.outline? language (scan.site input) line =
      Definition.outline? language (other.site input) changed)
    (code : List Char) (walk : BraceWalk) :
    (scan.takeCode language input line code walk).Alike
      (other.takeCode language input changed code walk) := by
  simp only [BraceScan.takeCode]
  rw [← BraceScan.site, ← BraceScan.site]
  simp only [Definition.outline?] at same
  cases found : Definition.recognize? language (scan.site input) line with
  | none =>
      rw [found, Option.map_none, eq_comm, Option.map_eq_none_iff] at same
      rw [same, alike.pending]
      cases other.pending with
      | none => exact alike.takeOther code
      | some pending =>
          simp only
          split
          · exact alike.takeContinuation pending code walk
          · exact alike.takeOther code
  | some recognized =>
      rcases recognized with ⟨definition, opensBlock⟩
      rw [found, Option.map_some, eq_comm, Option.map_eq_some_iff] at same
      rcases same with ⟨⟨changedDefinition, opens⟩, foundChanged, equal⟩
      rcases Prod.mk.injEq _ _ _ _ ▸ equal with ⟨heading, rfl⟩
      rw [foundChanged]
      exact alike.takeDefinition heading.symm _ code walk

/-- The scan behind what the closing braces of a line close; it takes the code of the line. -/
def closedOn (language : Language) (scan : BraceScan) (line : List Char) : BraceScan :=
  let stripped := language.lexicon.strip scan.mode line
  { scan with mode := stripped.mode }.closeScopes (BraceWalk.ofLine scan.depth stripped.code)

/-- The heading that a scan makes out on a line, and whether its definition may open a scope. There
is none on a line whose code is blank. -/
def outline? (language : Language) (input : ScanInput) (scan : BraceScan) (line : List Char) :
    Option (Heading × Bool) :=
  if (Text.trim (language.lexicon.strip scan.mode line).code).isEmpty then none
  else Definition.outline? language ((scan.closedOn language line).site input) line

theorem Alike.closedOn (alike : scan.Alike other) {line changed : List Char}
    (strips : language.lexicon.StripsAlike scan.mode line changed) :
    (scan.closedOn language line).Alike (other.closedOn language changed) := by
  simp only [BraceScan.closedOn, alike.depth, ← alike.mode, strips.code, strips.mode]
  apply Alike.closeScopes
  exact ⟨alike.lineNumber, rfl, rfl, alike.pending, alike.findings⟩

/-- Lines of one code on which alike scans make out the same lead to alike scans. -/
theorem Alike.take (alike : scan.Alike other) {line changed : List Char}
    (strips : language.lexicon.StripsAlike scan.mode line changed)
    (same : scan.outline? language input line = other.outline? language input changed) :
    (scan.take language input line).Alike (other.take language input changed) := by
  have closed := alike.closedOn strips
  have advance : ∀ {scan other : BraceScan}, scan.Alike other →
      Alike { scan with lineNumber := scan.lineNumber + 1 }
        { other with lineNumber := other.lineNumber + 1 } := fun alike =>
    ⟨congrArg (· + 1) alike.lineNumber, alike.depth, alike.mode, alike.pending, alike.findings⟩
  simp only [BraceScan.take]
  rw [← BraceScan.closedOn, ← BraceScan.closedOn, ← alike.mode, strips.code, alike.depth]
  rw [BraceScan.outline?, BraceScan.outline?, ← alike.mode, strips.code] at same
  split
  · exact advance closed
  · next visible =>
      rw [if_neg visible, if_neg visible] at same
      exact advance (closed.takeCode same _ _)

/-- Alike scans make out the same on every line. -/
theorem Alike.outline? (alike : scan.Alike other) (line : List Char) :
    scan.outline? language input line = other.outline? language input line := by
  have closed : (scan.closedOn language line).Alike (other.closedOn language line) :=
    alike.closedOn ⟨rfl, rfl⟩
  simp only [BraceScan.outline?, alike.mode]
  rw [Definition.outline?_congr (closed.site input)]

theorem Alike.takeAll (alike : scan.Alike other) (lines : List (List Char)) :
    (lines.foldl (BraceScan.take language input) scan).Alike
      (lines.foldl (BraceScan.take language input) other) := by
  induction lines generalizing scan other with
  | nil => exact alike
  | cons line lines induction =>
      apply induction
      exact alike.take ⟨rfl, rfl⟩ (alike.outline? line)

/-! ## Headings line by line -/

theorem startLine_of_outline? {line : List Char} {heading : Heading} {opensBlock : Bool}
    (found : scan.outline? language input line = some (heading, opensBlock)) :
    heading.startLine = scan.lineNumber := by
  simp only [outline?, Definition.outline?] at found
  split at found
  · cases found
  · rcases Option.map_eq_some_iff.mp found with ⟨⟨definition, opens⟩, recognized, equal⟩
    cases equal
    exact Definition.startLine_of_recognize? recognized

/-- What a scan picks on a line: nothing on a line whose code is blank. -/
def pickOn? (language : Language) (input : ScanInput) (scan : BraceScan) (line : List Char) :
    Option Definition.Pick :=
  if (Text.trim (language.lexicon.strip scan.mode line).code).isEmpty then none
  else Definition.pick? language ((scan.closedOn language line).site input) line

theorem outline?_eq (line : List Char) : scan.outline? language input line =
    (scan.pickOn? language input line).map fun pick =>
      (pick.definition.heading, pick.rule.opensBlock) := by
  simp only [outline?, pickOn?, Definition.outline?, Definition.recognize?]
  split
  · rfl
  · rw [Option.map_map]
    rfl

/-- Closing braces change nothing but ends. -/
theorem shown_closedOn {View : Type} {view : Definition → View}
    (passes : Findings.PassesOverEnds view) (language : Language) {scan : BraceScan}
    (line : List Char) : (scan.closedOn language line).findings.shown view =
      scan.findings.shown view :=
  shown_closeScopes _ passes _

/-- A line adds the definition that is picked on it, if there is one. -/
theorem shown_take {View : Type} {view : Definition → View} (passes : Findings.PassesOverEnds view)
    (line : List Char) : (scan.take language input line).findings.shown view =
      scan.findings.shown view ++
        ((scan.pickOn? language input line).map (view ·.definition)).toList := by
  have closed := @shown_closedOn _ _ passes language scan line
  simp only [take, pickOn?]
  rw [← closedOn]
  split
  · simpa using closed
  · rw [takeCode, ← site, Definition.recognize?, ← closed]
    cases Definition.pick? language ((scan.closedOn language line).site input) line with
    | some pick => exact shown_takeDefinition _ passes pick.definition pick.rule.opensBlock _ _
    | none =>
        rw [Option.map_none, Option.map_none, Option.toList_none, List.append_nil]
        cases (scan.closedOn language line).pending with
        | none => rfl
        | some pending =>
            simp only
            split
            · exact shown_takeContinuation _ passes pending _ _
            · rfl

/-- A line adds the heading that is made out on it, if there is one. -/
theorem headings_take (line : List Char) :
    (scan.take language input line).findings.headings =
      scan.findings.headings ++ ((scan.outline? language input line).map (·.1)).toList := by
  rw [outline?_eq, Option.map_map]
  exact shown_take Findings.passesOverEnds_heading line

/-- Lines add headings that start on them. -/
theorem headings_foldl (language : Language) (input : ScanInput) (lines : List (List Char))
    (scan : BraceScan) :
    ∃ added, (lines.foldl (BraceScan.take language input) scan).findings.headings =
        scan.findings.headings ++ added ∧
      ∀ heading ∈ added, scan.lineNumber ≤ heading.startLine ∧
        heading.startLine < scan.lineNumber + lines.length := by
  induction lines generalizing scan with
  | nil => exact ⟨[], by simp, nofun⟩
  | cons line lines induction =>
      rcases induction (scan.take language input line) with ⟨added, headings, bounds⟩
      refine ⟨((scan.outline? language input line).map (·.1)).toList ++ added, ?_, ?_⟩
      · rw [List.foldl_cons, headings, headings_take, List.append_assoc]
      · intro heading member
        rw [List.length_cons]
        rcases List.mem_append.mp member with here | later
        · rw [Option.mem_toList, Option.map_eq_some_iff] at here
          rcases here with ⟨⟨found, opensBlock⟩, isFound, rfl⟩
          have := startLine_of_outline? isFound
          simp only
          omega
        · have := bounds heading later
          rw [lineNumber_take] at this
          omega

end BraceScan

end SourceIndex
