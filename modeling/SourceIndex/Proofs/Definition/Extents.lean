import SourceIndex.Proofs.Definition.Order
import SourceIndex.Proofs.Definition.Origins

/-! Every definition ends on a line of the text, and not above the line on which it starts. -/

namespace SourceIndex

/-- Whether a definition ends above a line, and not above the line on which it starts. -/
structure Definition.EndsAbove (next : Nat) (definition : Definition) : Prop where
  order : definition.startLine ≤ definition.endLine
  above : definition.endLine < next

theorem Definition.EndsAbove.mono {next later : Nat} {definition : Definition}
    (ends : definition.EndsAbove next) (le : next ≤ later) : definition.EndsAbove later :=
  ⟨ends.order, Nat.lt_of_lt_of_le ends.above le⟩

/-- A definition that has just been recognized ends where it starts. -/
theorem Definition.endsAbove_of_recognize? {language : Language} {site : Site} {line : List Char}
    {definition : Definition} {opensBlock : Bool}
    (recognized : recognize? language site line = some (definition, opensBlock)) :
    definition.EndsAbove (site.lineNumber + 1) := by
  rcases recognize?_eq_some recognized with ⟨pick, sound, rfl, -⟩
  rcases sound.made with ⟨capture, -, -, made⟩
  rw [← made]
  exact ⟨Nat.le_refl _, Nat.lt_succ_self _⟩

/-! ## Findings -/

namespace Findings.Satisfy

variable {findings : Findings} {next line : Nat}

theorem endsAbove_mono {later : Nat} (ends : findings.Satisfy (Definition.EndsAbove next))
    (le : next ≤ later) : findings.Satisfy (Definition.EndsAbove later) :=
  fun place definition found => (ends place definition found).mono le

theorem endsAbove_endAt (ends : findings.Satisfy (Definition.EndsAbove (line + 1)))
    (definition : Nat) :
    (findings.endAt definition line).Satisfy (Definition.EndsAbove (line + 1)) := by
  intro place found isFound
  rw [getElem?_endAt] at isFound
  split at isFound
  · rcases Option.map_eq_some_iff.mp isFound with ⟨former, formerFound, rfl⟩
    have formerEnds := ends place former formerFound
    exact ⟨Nat.le_of_lt_succ (Nat.lt_of_le_of_lt formerEnds.order formerEnds.above),
      Nat.lt_succ_self line⟩
  · exact ends place found isFound

theorem endsAbove_endAllAt (ends : findings.Satisfy (Definition.EndsAbove next))
    (closed : List OpenScope) (low : line < next) :
    (findings.endAllAt closed line).Satisfy (Definition.EndsAbove next) := by
  intro place found isFound
  rw [getElem?_endAllAt] at isFound
  rcases Option.map_eq_some_iff.mp isFound with ⟨former, formerFound, rfl⟩
  have formerEnds := ends place former formerFound
  rw [ended]
  split
  · exact ⟨Nat.le_max_right _ _,
      Nat.max_lt.mpr ⟨low, Nat.lt_of_le_of_lt formerEnds.order formerEnds.above⟩⟩
  · exact formerEnds

theorem endsAbove_closeFrom (ends : findings.Satisfy (Definition.EndsAbove next)) (depth : Nat)
    (low : line < next) : (findings.closeFrom depth line).Satisfy (Definition.EndsAbove next) :=
  endsAbove_endAllAt ends _ low

theorem endsAbove_closeAll (ends : findings.Satisfy (Definition.EndsAbove next))
    (low : line < next) : (findings.closeAll line).Satisfy (Definition.EndsAbove next) :=
  endsAbove_endAllAt ends _ low

end Findings.Satisfy

theorem Findings.isKeptOn_endsAbove (language : Language) (input : ScanInput) (line : List Char)
    {lineNumber last next : Nat} (here : lineNumber < next) (low : last < next) :
    IsKeptOn language input line lineNumber last (Satisfy (Definition.EndsAbove next)) where
  closeFrom _ depth ends := ends.endsAbove_closeFrom depth low
  openScope _ _ _ ends := ends
  add _ _ _ _ recognized ends :=
    ends.add ((Definition.endsAbove_of_recognize? recognized).mono here)

/-! ## Scopes with braces -/

namespace BraceScan

/-- Whether all that a scan has found ends above a line. -/
def EndsAbove (next : Nat) (scan : BraceScan) : Prop :=
  scan.findings.Satisfy (Definition.EndsAbove next)

variable {scan : BraceScan} {next : Nat}

theorem EndsAbove.take (ends : scan.EndsAbove scan.lineNumber) (language : Language)
    (input : ScanInput) (line : List Char) :
    (scan.take language input line).EndsAbove (scan.lineNumber + 1) :=
  holds_take
    (Findings.isKeptOn_endsAbove language input line (Nat.lt_succ_self _) (Nat.lt_succ_self _))
    (fun _ definition ends => ends.endsAbove_endAt definition)
    (ends.endsAbove_mono (Nat.le_succ _))

theorem EndsAbove.takeAll (language : Language) (input : ScanInput) (lines : List (List Char))
    {scan : BraceScan} (ends : scan.EndsAbove scan.lineNumber) :
    (lines.foldl (BraceScan.take language input) scan).EndsAbove
      (scan.lineNumber + lines.length) := by
  induction lines generalizing scan with
  | nil => exact ends
  | cons line lines induction =>
      have taken := ends.take language input line
      rw [← lineNumber_take scan language input line] at taken
      have rest := induction taken
      rw [lineNumber_take] at rest
      rw [List.foldl_cons, List.length_cons, Nat.add_comm lines.length, ← Nat.add_assoc]
      exact rest

end BraceScan

theorem endsAbove_scanBraces (language : Language) (input : ScanInput) :
    ∀ definition ∈ scanBraces language input,
      definition.EndsAbove (input.firstLine + input.lines.length) := by
  intro definition member
  have start : BraceScan.EndsAbove input.firstLine { lineNumber := input.firstLine } :=
    Findings.satisfy_empty _
  have final := start.takeAll language input input.lines
  -- Some line has been scanned, since the definition starts on one.
  have lines := (nestedWithin_scanBraces language input).lines definition member
  have last : input.lastLine < input.firstLine + input.lines.length := by
    rw [ScanInput.lastLine]
    omega
  exact (final.endsAbove_closeAll last).toList definition member

/-! ## Scopes with indentation -/

namespace IndentScan

/-- Whether all that a scan has found ends above the line at hand, as does the last line of code
unless the line at hand is the first one. -/
structure EndsAbove (first : Nat) (scan : IndentScan) : Prop where
  findings : scan.findings.Satisfy (Definition.EndsAbove scan.lineNumber)
  reached : first ≤ scan.lineNumber
  code : scan.lastCodeLine ≤ max first (scan.lineNumber - 1)

variable {first : Nat} {scan : IndentScan}

theorem lastCodeLine_take {language : Language} {input : ScanInput} (line : List Char) :
    (scan.take language input line).lastCodeLine = scan.lastCodeLine ∨
      (scan.take language input line).lastCodeLine = scan.lineNumber := by
  simp only [take]
  split
  · exact .inl rfl
  · split
    · exact .inr rfl
    · exact .inr (lines_takeStatement _ language input line _).2

theorem EndsAbove.take (ends : scan.EndsAbove first) (language : Language) (input : ScanInput)
    (line : List Char) : (scan.take language input line).EndsAbove first := by
  have reached := ends.reached
  have code := ends.code
  have findings : (scan.take language input line).findings.Satisfy
      (Definition.EndsAbove (scan.lineNumber + 1)) :=
    holds_take
      (Findings.isKeptOn_endsAbove language input line (Nat.lt_succ_self _) (by omega))
      (ends.findings.endsAbove_mono (Nat.le_succ _))
  have later := @lastCodeLine_take scan language input line
  rw [← lineNumber_take scan language input line] at findings
  refine ⟨findings, ?_, ?_⟩
  · rw [lineNumber_take]
    exact Nat.le_succ_of_le reached
  · rw [lineNumber_take]
    omega

theorem EndsAbove.takeAll (language : Language) (input : ScanInput) (lines : List (List Char))
    {scan : IndentScan} (ends : scan.EndsAbove first) :
    (lines.foldl (IndentScan.take language input) scan).EndsAbove first ∧
      (lines.foldl (IndentScan.take language input) scan).lineNumber =
        scan.lineNumber + lines.length := by
  induction lines generalizing scan with
  | nil => exact ⟨ends, rfl⟩
  | cons line lines induction =>
      have rest := induction (ends.take language input line)
      rw [lineNumber_take] at rest
      rw [List.foldl_cons, List.length_cons, Nat.add_comm lines.length, ← Nat.add_assoc]
      exact rest

end IndentScan

theorem endsAbove_scanIndentation (language : Language) (input : ScanInput) :
    ∀ definition ∈ scanIndentation language input,
      definition.EndsAbove (input.firstLine + input.lines.length) := by
  intro definition member
  have start : IndentScan.EndsAbove input.firstLine
      { lineNumber := input.firstLine, lastCodeLine := input.firstLine } :=
    ⟨Findings.satisfy_empty _, Nat.le_refl _, Nat.le_max_left _ _⟩
  rcases start.takeAll language input input.lines with ⟨final, reached⟩
  -- Some line has been scanned, since the definition starts on one.
  have lines := (nestedWithin_scanIndentation language input).lines definition member
  have code := final.code
  have findings := final.findings
  rw [reached] at code findings
  have last : (input.lines.foldl (IndentScan.take language input)
      { lineNumber := input.firstLine, lastCodeLine := input.firstLine }).lastCodeLine <
        input.firstLine + input.lines.length := by
    simp only at code
    omega
  exact (findings.endsAbove_closeAll last).toList definition member

/-! ## Whole files -/

/-- Whether a definition lies on lines from one up to another, which counts no longer. -/
structure Definition.LiesWithin (first next : Nat) (definition : Definition) : Prop
    extends definition.EndsAbove next where
  below : first ≤ definition.startLine

theorem liesWithin_scanScopes (script : Language) (input : ScanInput) :
    ∀ definition ∈ scanScopes script input,
      definition.LiesWithin input.firstLine (input.firstLine + input.lines.length) := by
  intro definition member
  have lines := (nestedWithin_scanScopes script input).lines definition member
  unfold scanScopes at member
  split at member
  · exact ⟨endsAbove_scanIndentation script input definition member, lines.1⟩
  · exact ⟨endsAbove_scanBraces script input definition member, lines.1⟩

theorem liesWithin_scanPlain (language : Language) (input : ScanInput) :
    ∀ definition ∈ scanPlain language input,
      definition.LiesWithin input.firstLine (input.firstLine + input.lines.length) := by
  intro definition member
  unfold scanPlain at member
  rcases List.mem_filterMap.mp member with ⟨⟨⟨line, stripped⟩, number⟩, numbered, made⟩
  have place := List.mem_zipIdx numbered
  rw [List.length_zip] at place
  simp only at made
  split at made
  · cases made
  · rcases Option.map_eq_some_iff.mp made with ⟨⟨recognized, opensBlock⟩, found, rfl⟩
    have starts := Definition.startLine_of_recognize? found
    have ends := Definition.endsAbove_of_recognize? found
    refine ⟨ends.mono ?_, ?_⟩
    · simp only
      omega
    · rw [starts]
      exact place.1

theorem Definition.LiesWithin.mono {first next lower later : Nat} {definition : Definition}
    (lies : definition.LiesWithin first next) (low : lower ≤ first) (high : next ≤ later) :
    definition.LiesWithin lower later :=
  ⟨lies.toEndsAbove.mono high, Nat.le_trans low lies.below⟩

/-- What is found in a region lies on its lines. -/
theorem liesWithin_regionDefinitions (language : Language) (fileId : String)
    (lines : List (List Char)) {region : Region} (order : region.start ≤ region.stop) :
    ∀ definition ∈ regionDefinitions language fileId lines region,
      definition.LiesWithin (region.start + 1) (region.stop + 2) := by
  intro definition member
  rcases List.mem_cons.mp member with rfl | nested
  · exact ⟨⟨Nat.succ_le_succ order, Nat.lt_succ_self _⟩, Nat.le_refl _⟩
  · split at nested
    · next script first last _ inner =>
        have few := List.length_take_le (last - first + 1) (lines.drop first)
        have lies := liesWithin_scanScopes script _ definition nested
        rw [Region.innerLines?_eq_some_iff] at inner
        exact lies.mono (by simp only; omega) (by simp only; omega)
    · exact absurd nested List.not_mem_nil

theorem liesWithin_scanMarkup (language : Language) (fileId : String) (lines : List (List Char)) :
    ∀ definition ∈ scanMarkup language fileId lines,
      definition.LiesWithin 1 (lines.length + 1) := by
  intro definition member
  rcases List.mem_flatMap.mp member with ⟨region, isRegion, inside⟩
  have within := (Region.inOrder_findAll lines).within region isRegion
  exact (liesWithin_regionDefinitions language fileId lines within.2.1 definition inside).mono
    (Nat.succ_le_succ (Nat.zero_le _)) (Nat.succ_le_succ within.2.2)

/-- Every definition of a file starts and ends on lines of the file, and does not end above the line
on which it starts. -/
theorem liesWithin_extractDefinitions (language : Language) (fileId content : String) :
    ∀ definition ∈ extractDefinitions language fileId content,
      definition.LiesWithin 1 ((Text.lines content.toList).length + 1) := by
  intro definition member
  rw [Nat.add_comm]
  unfold extractDefinitions at member
  simp only at member
  split at member
  · next braces =>
      apply liesWithin_scanScopes language ⟨fileId, 1, none, Text.lines content.toList⟩
      rw [scanScopes, braces]
      exact member
  · next indentation =>
      apply liesWithin_scanScopes language ⟨fileId, 1, none, Text.lines content.toList⟩
      rw [scanScopes, indentation]
      exact member
  · exact liesWithin_scanPlain language _ definition member
  · rw [Nat.add_comm]
    exact liesWithin_scanMarkup language fileId _ definition member

end SourceIndex
