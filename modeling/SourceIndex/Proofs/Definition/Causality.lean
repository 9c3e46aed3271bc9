import Mathlib.Data.List.Forall2
import SourceIndex.Proofs.Definition.CommentText
import SourceIndex.Proofs.Definition.Extents
import SourceIndex.Proofs.Lexicon.Inside
import SourceIndex.Proofs.Definition.Operations

/-! Scans are causal: what is found in the first lines of a text is found first in the whole text.
Further lines may let a definition end on a later line, and may add definitions below. -/

namespace SourceIndex

/-- Whether a definition differs from a former one at most in ending on a later line. -/
structure Definition.Prolongs (former later : Definition) : Prop where
  same : later = { former with endLine := later.endLine }
  ends : former.endLine ≤ later.endLine

/-- Whether a scan of more lines finds all that a scan of the first ones finds, and finds the rest
below these lines. -/
def IsCausal (scan : ScanInput → List Definition) : Prop :=
  ∀ (input : ScanInput) (above below : List (List Char)),
    let first := scan { input with lines := above }
    let whole := scan { input with lines := above ++ below }
    List.Forall₂ Definition.Prolongs first (whole.take first.length) ∧
      ∀ definition ∈ whole.drop first.length,
        input.firstLine + above.length ≤ definition.startLine

theorem Definition.Prolongs.refl (definition : Definition) : definition.Prolongs definition :=
  ⟨rfl, Nat.le_refl _⟩

theorem Definition.Prolongs.startLine {former later : Definition}
    (prolongs : former.Prolongs later) : later.startLine = former.startLine := by
  rw [prolongs.same]

/-- Definitions that are prolonged place by place are prolonged by the first ones of a list. -/
theorem forall₂_prolongs_take {first whole : List Definition}
    (kept : ∀ (place : Nat) former, first[place]? = some former →
      ∃ later, whole[place]? = some later ∧ former.Prolongs later) :
    List.Forall₂ Definition.Prolongs first (whole.take first.length) := by
  induction first generalizing whole with
  | nil => exact .nil
  | cons former first induction =>
      rcases kept 0 former rfl with ⟨later, isFirst, prolongs⟩
      cases whole with
      | nil => cases isFirst
      | cons head whole =>
          cases isFirst
          exact .cons prolongs (induction fun place => kept (place + 1))

namespace Findings

/-- Whether findings go on from former ones, all of which end above `next`: definitions that have
been added start on the line `next` or below, and what was open has been ended on the line `last` or
below, unless it is still open. -/
structure GoesOn (last next : Nat) (former findings : Findings) : Prop where
  kept : ∀ (place : Nat) definition, former.definitions[place]? = some definition →
    ∃ later, findings.definitions[place]? = some later ∧ definition.Prolongs later ∧
      ∀ scope ∈ former.scopes, scope.definition = place →
        scope ∈ findings.scopes ∨ last ≤ later.endLine
  added : ∀ (place : Nat) definition, former.definitions.size ≤ place →
    findings.definitions[place]? = some definition → next ≤ definition.startLine

variable {last next line : Nat} {former findings : Findings}

theorem GoesOn.refl (last next : Nat) (former : Findings) : GoesOn last next former former where
  kept _ definition found :=
    ⟨definition, found, .refl definition, fun _ member _ => .inl member⟩
  added _ _ behind found :=
    absurd (Array.getElem?_eq_some_iff.mp found).1 (Nat.not_lt.mpr behind)

/-- What is changed ends on the line `last` or below, so that it does not end earlier than before. -/
theorem GoesOn.change (goesOn : GoesOn last next former findings)
    (low : former.Satisfy (Definition.EndsAbove (last + 1))) {changed : Findings}
    (ends : ∀ (place : Nat) definition, findings.definitions[place]? = some definition →
      ∃ later, changed.definitions[place]? = some later ∧
        later = { definition with endLine := later.endLine } ∧
        (later = definition ∨ last ≤ later.endLine) ∧
        ∀ scope ∈ findings.scopes, scope.definition = place →
          scope ∈ changed.scopes ∨ last ≤ later.endLine)
    (size : changed.definitions.size = findings.definitions.size) :
    GoesOn last next former changed where
  kept place definition found := by
    rcases goesOn.kept place definition found with ⟨middle, isMiddle, prolongs, wasOpen⟩
    rcases ends place middle isMiddle with ⟨later, isLater, same, unchanged, isOpen⟩
    refine ⟨later, isLater, ⟨?_, ?_⟩, fun scope member isPlace => ?_⟩
    · rw [same, prolongs.same]
    · have := (low place definition found).above
      have := prolongs.ends
      rcases unchanged with rfl | ended
      · exact prolongs.ends
      · omega
    · rcases wasOpen scope member isPlace with still | ended
      · exact isOpen scope still isPlace
      · right
        rcases unchanged with rfl | later
        · exact ended
        · exact later
  added place definition behind found := by
    have inside := size ▸ (Array.getElem?_eq_some_iff.mp found).1
    rcases ends place _ (Array.getElem?_eq_getElem inside) with ⟨later, isLater, same, -, -⟩
    rw [found] at isLater
    cases isLater
    have starts := goesOn.added place _ behind (Array.getElem?_eq_getElem inside)
    rw [same]
    exact starts

theorem GoesOn.endAt (goesOn : GoesOn last next former findings)
    (low : former.Satisfy (Definition.EndsAbove (last + 1))) (reached : last ≤ line)
    (definition : Nat) : GoesOn last next former (findings.endAt definition line) := by
  refine goesOn.change low (fun place found isFound => ?_) (findings.size_endAt definition line)
  rw [getElem?_endAt, isFound]
  split
  · exact ⟨_, rfl, rfl, .inr reached, fun scope member _ => .inl member⟩
  · exact ⟨_, rfl, rfl, .inl rfl, fun scope member _ => .inl member⟩

theorem GoesOn.closeFrom (goesOn : GoesOn last next former findings)
    (low : former.Satisfy (Definition.EndsAbove (last + 1))) (reached : last ≤ line)
    (depth : Nat) : GoesOn last next former (findings.closeFrom depth line) := by
  refine goesOn.change low (fun place found isFound => ?_) (findings.size_closeFrom depth line)
  rw [getElem?_closeFrom, isFound, Option.map_some]
  refine ⟨_, rfl, ?_, ?_, ?_⟩
  · unfold ended
    split <;> rfl
  · unfold ended
    split
    · exact .inr (Nat.le_trans reached (Nat.le_max_left _ _))
    · exact .inl rfl
  · rintro scope member rfl
    rw [← List.takeWhile_append_dropWhile (p := (depth ≤ ·.depth)) (l := findings.scopes)] at member
    rcases List.mem_append.mp member with closed | stays
    · right
      rw [ended_of_any _ _ (List.any_eq_true.mpr ⟨scope, closed, by simp⟩)]
      exact Nat.le_trans reached (Nat.le_max_left _ _)
    · exact .inl stays

theorem GoesOn.openScope (goesOn : GoesOn last next former findings) (definition depth : Nat) :
    GoesOn last next former (findings.openScope definition depth) where
  kept place found isFound := by
    rcases goesOn.kept place found isFound with ⟨later, isLater, prolongs, isOpen⟩
    exact ⟨later, isLater, prolongs, fun scope member isPlace =>
      (isOpen scope member isPlace).imp_left (List.mem_cons_of_mem _)⟩
  added := goesOn.added

theorem GoesOn.add (goesOn : GoesOn last next former findings) {definition : Definition}
    (starts : next ≤ definition.startLine) :
    GoesOn last next former (findings.add definition) where
  kept place found isFound := by
    rcases goesOn.kept place found isFound with ⟨later, isLater, rest⟩
    have inside := (Array.getElem?_eq_some_iff.mp isLater).1
    refine ⟨later, ?_, rest⟩
    rw [getElem?_add, if_neg (Nat.ne_of_lt inside), isLater]
  added place found behind isFound := by
    rw [getElem?_add] at isFound
    split at isFound
    · cases isFound
      exact starts
    · exact goesOn.added place found behind isFound

/-- A line that ends nothing above the line `last`, and lies on the line `next` or below, goes on. -/
theorem isKeptOn_goesOn (low : former.Satisfy (Definition.EndsAbove (last + 1)))
    {language : Language} {input : ScanInput} {text : List Char} {lineNumber : Nat}
    (reached : last ≤ line) (below : next ≤ lineNumber) :
    IsKeptOn language input text lineNumber line (GoesOn last next former) where
  closeFrom _ depth goesOn := goesOn.closeFrom low reached depth
  openScope _ definition depth goesOn := goesOn.openScope definition depth
  add _ _ _ _ recognized goesOn := by
    apply goesOn.add
    rw [Definition.startLine_of_recognize? recognized]
    exact below

/-- When all scopes have been closed, the former ones on the line `last`, what was found prolongs
what had been found, and stands in front of all that starts on the line `next` or below. -/
theorem GoesOn.isCausal (goesOn : GoesOn last next former findings)
    (low : former.Satisfy (Definition.EndsAbove (last + 1))) (reached : last ≤ line) :
    let first := (former.closeAll last).definitions.toList
    let whole := (findings.closeAll line).definitions.toList
    List.Forall₂ Definition.Prolongs first (whole.take first.length) ∧
      ∀ definition ∈ whole.drop first.length, next ≤ definition.startLine := by
  intro first whole
  have size : first.length = former.definitions.size := by
    simp [first, closeAll]
  constructor
  · apply forall₂_prolongs_take
    intro place definition found
    rw [Array.getElem?_toList, getElem?_closeAll] at found
    rcases Option.map_eq_some_iff.mp found with ⟨inner, isInner, rfl⟩
    rcases goesOn.kept place inner isInner with ⟨later, isLater, prolongs, isOpen⟩
    have order := (low place inner isInner).order
    have above := (low place inner isInner).above
    have starts := prolongs.startLine
    have ends := prolongs.ends
    refine ⟨ended findings.scopes line place later, ?_, ?_, ?_⟩
    · rw [Array.getElem?_toList, getElem?_closeAll, isLater, Option.map_some]
    · rw [prolongs.same]
      unfold ended
      split <;> split <;> rfl
    · have low : (ended former.scopes last place inner).endLine ≤ last := by
        unfold ended
        split
        · simp only
          omega
        · omega
      by_cases still : findings.scopes.any (·.definition == place) = true
      · rw [ended_of_any line later still]
        simp only
        omega
      · rw [show ended findings.scopes line place later = later from if_neg still]
        by_cases was : former.scopes.any (·.definition == place) = true
        · rcases List.any_eq_true.mp was with ⟨scope, member, isPlace⟩
          rcases isOpen scope member (by simpa using isPlace) with stays | closed
          · exact absurd (List.any_eq_true.mpr ⟨scope, stays, isPlace⟩) still
          · omega
        · rw [show ended former.scopes last place inner = inner from if_neg was]
          exact ends
  · intro definition member
    rcases List.mem_iff_getElem?.mp member with ⟨place, found⟩
    rw [List.getElem?_drop, size, Array.getElem?_toList, getElem?_closeAll] at found
    rcases Option.map_eq_some_iff.mp found with ⟨inner, isInner, rfl⟩
    rw [startLine_ended]
    exact goesOn.added _ inner (Nat.le_add_right _ _) isInner

end Findings

variable {language : Language} {input : ScanInput} {last next : Nat} {former : Findings}

/-! ## Scopes with braces -/

theorem BraceScan.goesOn_takeAll (low : former.Satisfy (Definition.EndsAbove (last + 1)))
    (lines : List (List Char)) {scan : BraceScan}
    (goesOn : Findings.GoesOn last next former scan.findings) (reached : last ≤ scan.lineNumber)
    (below : next ≤ scan.lineNumber) :
    Findings.GoesOn last next former (lines.foldl (take language input) scan).findings := by
  induction lines generalizing scan with
  | nil => exact goesOn
  | cons line lines induction =>
      have taken : Findings.GoesOn last next former (scan.take language input line).findings :=
        holds_take (Findings.isKeptOn_goesOn low reached below)
          (fun _ definition goesOn => goesOn.endAt low reached definition) goesOn
      apply induction taken
      · rw [lineNumber_take]
        exact Nat.le_succ_of_le reached
      · rw [lineNumber_take]
        exact Nat.le_succ_of_le below

theorem isCausal_scanBraces (language : Language) : IsCausal (scanBraces language) := by
  intro input above below
  let scan := above.foldl (BraceScan.take language input) { lineNumber := input.firstLine }
  have ends : scan.EndsAbove (input.firstLine + above.length) :=
    BraceScan.EndsAbove.takeAll language input above (Findings.satisfy_empty _)
  have lineNumber : scan.lineNumber = input.firstLine + above.length :=
    BraceScan.lineNumber_behind above
  have low : scan.findings.Satisfy
      (Definition.EndsAbove (input.firstLine + (above.length - 1) + 1)) :=
    ends.endsAbove_mono (by omega)
  have goesOn : Findings.GoesOn _ scan.lineNumber scan.findings
      (below.foldl (BraceScan.take language input) scan).findings :=
    BraceScan.goesOn_takeAll low below (.refl _ _ _) (by omega) (Nat.le_refl _)
  have reached : input.firstLine + (above.length - 1) ≤
      input.firstLine + ((above ++ below).length - 1) := by
    rw [List.length_append]
    omega
  have causal := goesOn.isCausal low reached
  rw [lineNumber, ← List.foldl_append] at causal
  exact causal

/-! ## Scopes with indentation -/

namespace IndentScan

variable {scan : IndentScan}

/-- Whether all that a scan has found ends on its last line of code or above. -/
structure EndsWithCode (scan : IndentScan) : Prop where
  findings : scan.findings.Satisfy (Definition.EndsAbove (scan.lastCodeLine + 1))
  above : scan.lastCodeLine ≤ scan.lineNumber

theorem EndsWithCode.take (ends : scan.EndsWithCode) (language : Language) (input : ScanInput)
    (line : List Char) : (scan.take language input line).EndsWithCode := by
  have above := ends.above
  have later : scan.findings.Satisfy (Definition.EndsAbove (scan.lineNumber + 1)) :=
    ends.findings.endsAbove_mono (Nat.succ_le_succ above)
  simp only [IndentScan.take]
  split
  · exact ⟨ends.findings, Nat.le_succ_of_le above⟩
  · split
    · exact ⟨later, Nat.le_succ _⟩
    · let stripped := language.lexicon.strip scan.mode line
      let before : IndentScan := { scan with
        mode := stripped.mode
        brackets := ((scan.brackets : Int) + allBracketBalance stripped.code).toNat }
      have lines := lines_takeStatement before language input line (Text.trim stripped.code)
      have kept := Findings.isKeptOn_endsAbove language input line (Nat.lt_succ_self scan.lineNumber)
        (Nat.lt_succ_of_le above)
      have taken : (before.takeStatement language input line (Text.trim stripped.code)).findings.Satisfy
          (Definition.EndsAbove (scan.lineNumber + 1)) :=
        @holds_takeStatement _ _ _ _ before kept _ later
      refine ⟨?_, ?_⟩
      · rw [lines.2]
        exact taken
      · rw [lines.1, lines.2]
        exact Nat.le_succ _

theorem EndsWithCode.takeAll (ends : scan.EndsWithCode) (language : Language) (input : ScanInput)
    (lines : List (List Char)) :
    (lines.foldl (IndentScan.take language input) scan).EndsWithCode := by
  induction lines generalizing scan with
  | nil => exact ends
  | cons line lines induction => exact induction (ends.take language input line)

/-- While all ends with the code, further lines go on, and the last line of code does not go up. -/
theorem goesOn_takeAll (low : former.Satisfy (Definition.EndsAbove (last + 1)))
    (lines : List (List Char)) (goesOn : Findings.GoesOn last next former scan.findings)
    (reached : last ≤ scan.lastCodeLine) (below : next ≤ scan.lineNumber)
    (above : scan.lastCodeLine ≤ scan.lineNumber) :
    Findings.GoesOn last next former (lines.foldl (take language input) scan).findings ∧
      last ≤ (lines.foldl (take language input) scan).lastCodeLine := by
  induction lines generalizing scan with
  | nil => exact ⟨goesOn, reached⟩
  | cons line lines induction =>
      have taken : Findings.GoesOn last next former (scan.take language input line).findings :=
        holds_take (Findings.isKeptOn_goesOn low reached below) goesOn
      have later := @lastCodeLine_take scan language input line
      have advances := lineNumber_take scan language input line
      exact induction taken (by omega) (by omega) (by omega)

end IndentScan

theorem isCausal_scanIndentation (language : Language) : IsCausal (scanIndentation language) := by
  intro input above below
  let start : IndentScan := { lineNumber := input.firstLine, lastCodeLine := input.firstLine }
  let scan := above.foldl (IndentScan.take language input) start
  have ends : scan.EndsWithCode :=
    IndentScan.EndsWithCode.takeAll ⟨Findings.satisfy_empty _, Nat.le_refl _⟩ language input above
  have bounds : IndentScan.EndsAbove input.firstLine start :=
    ⟨Findings.satisfy_empty _, Nat.le_refl _, Nat.le_max_left _ _⟩
  have lineNumber : scan.lineNumber = input.firstLine + above.length :=
    (bounds.takeAll language input above).2
  have goesOn := @IndentScan.goesOn_takeAll language input scan.lastCodeLine scan.lineNumber _ _
    ends.findings below (.refl _ _ _) (Nat.le_refl _) (Nat.le_refl _) ends.above
  have causal := goesOn.1.isCausal ends.findings goesOn.2
  rw [lineNumber, ← List.foldl_append] at causal
  exact causal

/-! ## Lines that are each taken alone -/

theorem isCausal_scanPlain (language : Language) : IsCausal (scanPlain language) := by
  intro input above below
  have long : above.length = (language.lexicon.stripLines .code above).length :=
    (language.lexicon.length_stripLines .code above).symm
  simp only [scanPlain, Lexicon.stripLines_append, List.zip_append long, List.zipIdx_append,
    List.filterMap_append, List.take_left, List.drop_left]
  refine ⟨List.forall₂_same.mpr fun definition _ => .refl definition, ?_⟩
  intro definition member
  rcases List.mem_filterMap.mp member with ⟨⟨⟨line, stripped⟩, number⟩, numbered, made⟩
  have place := (List.mem_zipIdx numbered).1
  rw [List.length_zip, ← long, Nat.min_self] at place
  simp only at made
  split at made
  · cases made
  · rcases Option.map_eq_some_iff.mp made with ⟨⟨recognized, opensBlock⟩, found, rfl⟩
    rw [Definition.startLine_of_recognize? found]
    exact place

/-- Scans are causal, however scopes are delimited. -/
theorem isCausal_scans (language : Language) :
    IsCausal (scanBraces language) ∧ IsCausal (scanIndentation language) ∧
      IsCausal (scanPlain language) :=
  ⟨isCausal_scanBraces language, isCausal_scanIndentation language, isCausal_scanPlain language⟩

end SourceIndex
