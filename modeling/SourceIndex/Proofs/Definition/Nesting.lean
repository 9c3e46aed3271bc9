import SourceIndex.Definition.Extraction
import SourceIndex.Proofs.Definition.Findings
import SourceIndex.Proofs.Definition.Recognition

/-! Parents contain their children: a definition that names a parent stands behind it in the list,
starts below the line on which the parent starts and not below the one on which it ends. No text
is too badly nested for that. While a scope is open its definition has no last line yet, so the
invariant of a scan asks of a parent that it either ends low enough or is still open. -/

namespace SourceIndex

/-- Whether the first line of `child` lies below the first line of `parent` and not below its
last. -/
def Definition.Contains (parent child : Definition) : Prop :=
  parent.startLine < child.startLine ∧ child.startLine ≤ parent.endLine

/-- Every definition that names a parent is contained in an earlier definition of that name, or
names the definition that encloses the whole list. -/
def ParentsContainWithin (outer : Option Definition) (definitions : List Definition) : Prop :=
  ∀ (place : Nat) (child : Definition) (id : String),
    definitions[place]? = some child → child.parentId = some id →
      (∃ parent ∈ definitions.take place, parent.id = id ∧ parent.Contains child) ∨
        outer.map (·.id) = some id

/-- Every definition that names a parent is contained in an earlier definition of that name. -/
def ParentsContain (definitions : List Definition) : Prop :=
  ∀ (place : Nat) (child : Definition) (id : String),
    definitions[place]? = some child → child.parentId = some id →
      ∃ parent ∈ definitions.take place, parent.id = id ∧ parent.Contains child

namespace Findings

/-! ## The invariant -/

/-- The parent that the definition at a place names: an earlier one that starts above it and that
either ends low enough or is still open. -/
def HasParent (findings : Findings) (place : Nat) (child : Definition) (id : String) : Prop :=
  ∃ (earlier : Nat) (parent : Definition), earlier < place ∧
    findings.definitions[earlier]? = some parent ∧ parent.id = id ∧
    parent.startLine < child.startLine ∧
    (child.startLine ≤ parent.endLine ∨ ∃ scope ∈ findings.scopes, scope.definition = earlier)

/-- What holds when all lines from `first` up to the one in front of `next` have been scanned. -/
structure Nested (outer : Option Definition) (first next : Nat) (findings : Findings) : Prop where
  lines : ∀ (place : Nat) (definition : Definition),
    findings.definitions[place]? = some definition →
      first ≤ definition.startLine ∧ definition.startLine < next
  scopes : ∀ scope ∈ findings.scopes, scope.definition < findings.definitions.size
  parents : ∀ (place : Nat) (child : Definition) (id : String),
    findings.definitions[place]? = some child → child.parentId = some id →
      findings.HasParent place child id ∨ outer.map (·.id) = some id

variable {outer : Option Definition} {first next : Nat} {findings : Findings}

theorem nested_empty (outer : Option Definition) (first next : Nat) :
    Nested outer first next {} where
  lines place definition found := by simp at found
  scopes scope member := by cases member
  parents place child id found := by simp at found

theorem Nested.mono (nested : Nested outer first next findings) {later : Nat} (le : next ≤ later) :
    Nested outer first later findings where
  lines place definition found :=
    ⟨(nested.lines place definition found).1,
      Nat.lt_of_lt_of_le (nested.lines place definition found).2 le⟩
  scopes := nested.scopes
  parents := nested.parents

/-! ## Steps that end definitions -/

/-- Ending definitions below everything found so far keeps the invariant, as long as every scope
that is closed has its definition ended. -/
theorem Nested.change (nested : Nested outer first next findings) {changed : Findings}
    (change : Nat → Definition → Definition)
    (definitions : ∀ place,
      changed.definitions[place]? = findings.definitions[place]?.map (change place))
    (id : ∀ place definition, (change place definition).id = definition.id)
    (startLine : ∀ place definition, (change place definition).startLine = definition.startLine)
    (parentId : ∀ place definition, (change place definition).parentId = definition.parentId)
    (ends : ∀ place definition, (change place definition).endLine = definition.endLine ∨
      next ≤ (change place definition).endLine + 1)
    (fewer : ∀ scope ∈ changed.scopes, scope ∈ findings.scopes)
    (closed : ∀ scope ∈ findings.scopes, scope ∈ changed.scopes ∨
      ∀ definition, next ≤ (change scope.definition definition).endLine + 1) :
    Nested outer first next changed := by
  have before : ∀ {place definition}, changed.definitions[place]? = some definition →
      ∃ former, findings.definitions[place]? = some former ∧ change place former = definition := by
    intro place definition found
    rw [definitions] at found
    exact Option.map_eq_some_iff.mp found
  constructor
  · intro place definition found
    rcases before found with ⟨former, formerFound, rfl⟩
    rw [startLine]
    exact nested.lines place former formerFound
  · intro scope member
    have found := Array.getElem?_eq_getElem (nested.scopes scope (fewer scope member))
    have kept := definitions scope.definition
    rw [found, Option.map_some] at kept
    exact (Array.getElem?_eq_some_iff.mp kept).1
  · intro place child parent found names
    rcases before found with ⟨former, formerFound, rfl⟩
    rw [parentId] at names
    refine (nested.parents place former parent formerFound names).imp_left ?_
    rintro ⟨earlier, above, order, aboveFound, sameId, starts, open_⟩
    have below := (nested.lines place former formerFound).2
    refine ⟨earlier, change earlier above, order, ?_, ?_, ?_, ?_⟩
    · rw [definitions, aboveFound, Option.map_some]
    · rw [id, sameId]
    · rwa [startLine, startLine]
    · rw [startLine]
      rcases open_ with ends_ | ⟨scope, member, rfl⟩
      · left
        rcases ends earlier above with same | low
        · rwa [same]
        · omega
      · rcases closed scope member with stays | low
        · exact .inr ⟨scope, stays, rfl⟩
        · left
          have := low above
          omega

theorem Nested.endAt (nested : Nested outer first next findings) (definition : Nat) {line : Nat}
    (low : next ≤ line + 1) : Nested outer first next (findings.endAt definition line) := by
  refine nested.change
    (fun place former => if definition = place then { former with endLine := line } else former)
    ?_ ?_ ?_ ?_ ?_ (fun scope member => member) (fun scope member => .inl member)
  · intro place
    rw [getElem?_endAt]
    split <;> simp
  all_goals intro place former; split <;> simp [low]

theorem Nested.closeFrom (nested : Nested outer first next findings) (depth : Nat) {line : Nat}
    (low : next ≤ line + 1) : Nested outer first next (findings.closeFrom depth line) := by
  refine nested.change _ (findings.getElem?_closeFrom depth line) ?_ ?_ ?_ ?_ ?_ ?_
  · exact fun place former => id_ended _ line place former
  · exact fun place former => startLine_ended _ line place former
  · exact fun place former => parentId_ended _ line place former
  · exact fun place former => endLine_ended_or _ line place former low
  · exact fun scope member => (List.dropWhile_sublist _).subset member
  · intro scope member
    have parts := List.takeWhile_append_dropWhile
      (p := fun scope : OpenScope => depth ≤ scope.depth) (l := findings.scopes)
    rw [← parts] at member
    rcases List.mem_append.mp member with ended | stays
    · exact .inr fun former => le_endLine_ended low ended former
    · exact .inl stays

theorem Nested.closeAll (nested : Nested outer first next findings) {line : Nat}
    (low : next ≤ line + 1) : Nested outer first next (findings.closeAll line) := by
  refine nested.change _ (findings.getElem?_closeAll line) ?_ ?_ ?_ ?_ ?_ ?_
  · exact fun place former => id_ended _ line place former
  · exact fun place former => startLine_ended _ line place former
  · exact fun place former => parentId_ended _ line place former
  · exact fun place former => endLine_ended_or _ line place former low
  · exact fun scope member => nomatch member
  · exact fun scope member => .inr fun former => le_endLine_ended low member former

/-! ## Steps that open scopes and add definitions -/

theorem Nested.openScope (nested : Nested outer first next findings) {definition : Nat}
    (found : definition < findings.definitions.size) (depth : Nat) :
    Nested outer first next (findings.openScope definition depth) where
  lines := nested.lines
  scopes scope member := by
    rcases List.mem_cons.mp member with rfl | member
    · exact found
    · exact nested.scopes scope member
  parents place child id childFound names := by
    refine (nested.parents place child id childFound names).imp_left ?_
    rintro ⟨earlier, parent, order, parentFound, sameId, starts, ends⟩
    refine ⟨earlier, parent, order, parentFound, sameId, starts, ends.imp_right ?_⟩
    rintro ⟨scope, member, same⟩
    exact ⟨scope, List.mem_cons_of_mem _ member, same⟩

/-- What encloses a line is the outer definition or one that is still open. -/
theorem Nested.enclosing_eq (nested : Nested outer first next findings) :
    findings.enclosing outer = outer ∨
      ∃ scope ∈ findings.scopes, ∃ parent, findings.enclosing outer = some parent ∧
        findings.definitions[scope.definition]? = some parent := by
  unfold enclosing
  cases open_ : findings.scopes.head? with
  | none => exact .inl rfl
  | some scope =>
      have member := List.mem_of_mem_head? open_
      have found := Array.getElem?_eq_getElem (nested.scopes scope member)
      exact .inr ⟨scope, member, _, found, found⟩

/-- The definition of the line behind all that has been found, whose parent is what encloses the
line. -/
theorem Nested.add (nested : Nested outer first next findings) (le : first ≤ next)
    {definition : Definition} (starts : definition.startLine = next)
    (parent : definition.parentId = none ∨
      definition.parentId = (findings.enclosing outer).map (·.id)) :
    Nested outer first (next + 1) (findings.add definition) where
  lines place found atPlace := by
    rw [getElem?_add] at atPlace
    split at atPlace
    · cases atPlace
      omega
    · have := nested.lines place found atPlace
      omega
  scopes scope member := by
    have := nested.scopes scope member
    simp only [Findings.add, Array.size_push]
    omega
  parents place child id atPlace names := by
    rw [getElem?_add] at atPlace
    split at atPlace
    · next last =>
      cases atPlace
      rw [names] at parent
      have enclosed := parent.resolve_left (Option.some_ne_none id)
      rcases nested.enclosing_eq with outside | ⟨scope, member, above, inside, found⟩
      · rw [outside] at enclosed
        exact .inr enclosed.symm
      · rw [inside] at enclosed
        left
        refine ⟨scope.definition, above, last ▸ nested.scopes scope member, ?_,
          (Option.some.inj enclosed).symm, ?_, .inr ⟨scope, member, rfl⟩⟩
        · rw [getElem?_add, if_neg (Nat.ne_of_lt (nested.scopes scope member)), found]
        · rw [starts]
          exact (nested.lines _ above found).2
    · refine (nested.parents place child id atPlace names).imp_left ?_
      rintro ⟨earlier, above, order, found, rest⟩
      refine ⟨earlier, above, order, ?_, rest⟩
      have inside := (Array.getElem?_eq_some_iff.mp found).1
      rw [getElem?_add, if_neg (Nat.ne_of_lt inside), found]

/-! ## The end of a scan -/

/-- When all scopes are closed, every parent contains its children. -/
theorem Nested.parentsContainWithin (nested : Nested outer first next findings)
    (closed : findings.scopes = []) :
    ParentsContainWithin outer findings.definitions.toList := by
  intro place child id found names
  rw [Array.getElem?_toList] at found
  refine (nested.parents place child id found names).imp_left ?_
  rintro ⟨earlier, parent, order, parentFound, sameId, starts, ends⟩
  refine ⟨parent, ?_, sameId, starts, ?_⟩
  · apply List.mem_of_getElem? (i := earlier)
    rw [List.getElem?_take_of_lt order, Array.getElem?_toList, parentFound]
  · rcases ends with ends | ⟨scope, member, -⟩
    · exact ends
    · rw [closed] at member
      cases member

theorem Nested.lines_toList (nested : Nested outer first next findings) {definition : Definition}
    (member : definition ∈ findings.definitions.toList) :
    first ≤ definition.startLine ∧ definition.startLine < next := by
  rcases List.mem_iff_getElem?.mp member with ⟨place, found⟩
  rw [Array.getElem?_toList] at found
  exact nested.lines place definition found

end Findings

end SourceIndex
