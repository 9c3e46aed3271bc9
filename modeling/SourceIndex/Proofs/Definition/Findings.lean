import SourceIndex.Definition.Scanning

/-! What the steps of a scan do to the definitions found so far: they add one at the end, or they
change nothing but the lines on which some of them end. -/

namespace SourceIndex.Findings

/-- A definition at a place, after the scopes in `closed` have been ended on a line. -/
def ended (closed : List OpenScope) (line place : Nat) (definition : Definition) : Definition :=
  if closed.any (·.definition == place) then
    { definition with endLine := max line definition.startLine }
  else definition

theorem ended_of_any {closed : List OpenScope} {place : Nat} (line : Nat) (definition : Definition)
    (isClosed : closed.any (·.definition == place) = true) :
    ended closed line place definition =
      { definition with endLine := max line definition.startLine } := by
  rw [ended, if_pos isClosed]

@[simp] theorem ended_nil (line place : Nat) : ended [] line place = id := rfl

theorem ended_cons_of_ne {scope : OpenScope} {place : Nat} (closed : List OpenScope) (line : Nat)
    (different : scope.definition ≠ place) :
    ended (scope :: closed) line place = ended closed line place := by
  funext definition
  simp [ended, different]

/-- A definition that is ended twice on a line ends there once. -/
theorem ended_cons_of_eq {scope : OpenScope} {place : Nat} (closed : List OpenScope) (line : Nat)
    (same : scope.definition = place) (definition : Definition) :
    ended (scope :: closed) line place definition =
      ended closed line place { definition with endLine := max line definition.startLine } := by
  cases later : closed.any (·.definition == place) <;> simp [ended, same, later]

section Ended

variable (closed : List OpenScope) (line place : Nat) (definition : Definition)

@[simp] theorem id_ended : (ended closed line place definition).id = definition.id := by
  unfold ended; split <;> rfl

@[simp] theorem startLine_ended :
    (ended closed line place definition).startLine = definition.startLine := by
  unfold ended; split <;> rfl

@[simp] theorem parentId_ended :
    (ended closed line place definition).parentId = definition.parentId := by
  unfold ended; split <;> rfl

/-- A definition that is not ended on a line keeps its last line. -/
theorem endLine_ended_or {next : Nat} (low : next ≤ line + 1) :
    (ended closed line place definition).endLine = definition.endLine ∨
      next ≤ (ended closed line place definition).endLine + 1 := by
  unfold ended
  split
  · right
    simp only
    omega
  · exact .inl rfl

end Ended

theorem le_endLine_ended {closed : List OpenScope} {next line : Nat} (low : next ≤ line + 1)
    {scope : OpenScope} (member : scope ∈ closed) (definition : Definition) :
    next ≤ (ended closed line scope.definition definition).endLine + 1 := by
  rw [ended_of_any line definition (List.any_eq_true.mpr ⟨scope, member, by simp⟩)]
  simp only
  omega

/-! ## Definitions behind each step -/

theorem getElem?_endAt (findings : Findings) (definition line place : Nat) :
    (findings.endAt definition line).definitions[place]? =
      if definition = place then
        findings.definitions[place]?.map ({ · with endLine := line })
      else findings.definitions[place]? := by
  simp only [endAt, Array.getElem?_modify]

@[simp] theorem scopes_endAt (findings : Findings) (definition line : Nat) :
    (findings.endAt definition line).scopes = findings.scopes := rfl

@[simp] theorem size_endAt (findings : Findings) (definition line : Nat) :
    (findings.endAt definition line).definitions.size = findings.definitions.size := by
  simp [endAt]

@[simp] theorem size_endAllAt (findings : Findings) (closed : List OpenScope) (line : Nat) :
    (findings.endAllAt closed line).definitions.size = findings.definitions.size := by
  induction closed generalizing findings with
  | nil => rfl
  | cons scope closed induction =>
      rw [endAllAt, List.foldl_cons, ← endAllAt, induction]
      simp

theorem getElem?_endAllAt (findings : Findings) (closed : List OpenScope) (line place : Nat) :
    (findings.endAllAt closed line).definitions[place]? =
      findings.definitions[place]?.map (ended closed line place) := by
  induction closed generalizing findings with
  | nil => simp [endAllAt]
  | cons scope closed induction =>
      rw [endAllAt, List.foldl_cons, ← endAllAt, induction, Array.getElem?_modify]
      by_cases same : scope.definition = place
      · rw [if_pos same, Option.map_map]
        congr 1
        funext definition
        exact (ended_cons_of_eq closed line same definition).symm
      · rw [if_neg same, ended_cons_of_ne closed line same]

theorem getElem?_closeFrom (findings : Findings) (depth line place : Nat) :
    (findings.closeFrom depth line).definitions[place]? =
      findings.definitions[place]?.map
        (ended (findings.scopes.takeWhile (depth ≤ ·.depth)) line place) :=
  findings.getElem?_endAllAt _ line place

theorem getElem?_closeAll (findings : Findings) (line place : Nat) :
    (findings.closeAll line).definitions[place]? =
      findings.definitions[place]?.map (ended findings.scopes line place) :=
  findings.getElem?_endAllAt _ line place

@[simp] theorem size_closeFrom (findings : Findings) (depth line : Nat) :
    (findings.closeFrom depth line).definitions.size = findings.definitions.size :=
  findings.size_endAllAt _ line

theorem getElem?_add (findings : Findings) (definition : Definition) (place : Nat) :
    (findings.add definition).definitions[place]? =
      if place = findings.definitions.size then some definition
      else findings.definitions[place]? :=
  Array.getElem?_push

/-! ## Views that pass over the lines on which definitions end -/

section View

variable {View : Type} {view : Definition → View}

/-- What a view shows of the definitions found so far, in order. -/
def shown (findings : Findings) (view : Definition → View) : List View :=
  findings.definitions.toList.map view

/-- Whether a view does not tell on which line a definition ends. -/
def PassesOverEnds (view : Definition → View) : Prop :=
  ∀ (definition : Definition) (line : Nat),
    view { definition with endLine := line } = view definition

variable (findings : Findings)

theorem shown_add (definition : Definition) :
    (findings.add definition).shown view = findings.shown view ++ [view definition] := by
  rw [shown, add, Array.toList_push, List.map_append]
  rfl

/-- A change that the view does not tell at any place changes nothing of what it shows. -/
theorem shown_of_change {findings changed : Findings} {change : Nat → Definition → Definition}
    (definitions : ∀ place : Nat,
      changed.definitions[place]? = findings.definitions[place]?.map (change place))
    (same : ∀ place definition, view (change place definition) = view definition) :
    changed.shown view = findings.shown view := by
  apply List.ext_getElem?
  intro place
  rw [shown, shown, List.getElem?_map, List.getElem?_map, Array.getElem?_toList,
    Array.getElem?_toList, definitions, Option.map_map]
  congr 1
  funext definition
  exact same place definition

theorem shown_endAt (passes : PassesOverEnds view) (definition line : Nat) :
    (findings.endAt definition line).shown view = findings.shown view := by
  apply @shown_of_change _ view findings _ fun place former =>
    if definition = place then { former with endLine := line } else former
  · intro place
    rw [getElem?_endAt]
    split
    · rfl
    · exact Option.map_id'.symm
  · intro place former
    split
    · exact passes former line
    · rfl

theorem shown_endAllAt (passes : PassesOverEnds view) (closed : List OpenScope) (line : Nat) :
    (findings.endAllAt closed line).shown view = findings.shown view := by
  apply shown_of_change (findings.getElem?_endAllAt closed line)
  intro place former
  rw [ended]
  split
  · exact passes former _
  · rfl

theorem shown_closeFrom (passes : PassesOverEnds view) (depth line : Nat) :
    (findings.closeFrom depth line).shown view = findings.shown view :=
  findings.shown_endAllAt passes _ line

theorem shown_closeAll (passes : PassesOverEnds view) (line : Nat) :
    (findings.closeAll line).shown view = findings.shown view :=
  findings.shown_endAllAt passes _ line

/-! ## Findings that grow line by line -/

/-- Whether what is shown above each line is what is shown above the line before and what is new on
that line. -/
structure Grows (lines : Nat) (shown : Nat → List View) (new : Nat → Option View) : Prop where
  start : shown 0 = []
  next : ∀ index < lines, shown (index + 1) = shown index ++ (new index).toList

variable {lines : Nat} {shown : Nat → List View} {new : Nat → Option View}

theorem Grows.isPrefix (grows : Grows lines shown new) {index later : Nat} (order : index ≤ later)
    (inFile : later ≤ lines) : shown index <+: shown later := by
  induction order with
  | refl => exact List.prefix_refl _
  | step _ induction =>
      rw [grows.next _ (Nat.lt_of_succ_le inFile)]
      exact (induction (Nat.le_of_succ_le inFile)).trans (List.prefix_append _ _)

/-- What is new on a line comes behind all that is shown above the line. -/
theorem Grows.getElem?_of_new (grows : Grows lines shown new) {index later : Nat}
    (order : index < later) (inFile : later ≤ lines) {seen : View} (isNew : new index = some seen) :
    (shown later)[(shown index).length]? = some seen := by
  have next := grows.next index (Nat.lt_of_lt_of_le order inFile)
  rw [isNew, Option.toList_some] at next
  rcases grows.isPrefix (show index + 1 ≤ later from order) inFile with ⟨rest, whole⟩
  rw [← whole, next]
  simp

/-- What is shown was new on some line, and its place is the number of what was shown above that
line. -/
theorem Grows.exists_new (grows : Grows lines shown new) {index : Nat} (inFile : index ≤ lines)
    {place : Nat} {seen : View} (found : (shown index)[place]? = some seen) :
    ∃ earlier < index, new earlier = some seen ∧ (shown earlier).length = place := by
  induction index with
  | zero => exact absurd found (by simp [grows.start])
  | succ index induction =>
      rw [grows.next index (Nat.lt_of_succ_le inFile), List.getElem?_append] at found
      split at found
      · rcases induction (Nat.le_of_succ_le inFile) found with ⟨earlier, above, isNew⟩
        exact ⟨earlier, Nat.lt_succ_of_lt above, isNew⟩
      · next behind =>
          have short := (List.getElem?_eq_some_iff.mp found).1
          have isNew := Option.mem_toList.mp (List.mem_of_getElem? found)
          rw [isNew, Option.toList_some, List.length_singleton] at short
          exact ⟨index, Nat.lt_succ_self _, isNew, by omega⟩

end View

end SourceIndex.Findings
