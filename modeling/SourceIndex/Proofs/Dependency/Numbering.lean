import SourceIndex.Proofs.Analysis.Identity

/-! What tells the dependencies of a file apart: no two of them have both the line on which their
statement starts and their place in the statement in common. The places are not stored, but the
identifiers are made of them. -/

namespace SourceIndex.Dependency

/-- Dependencies with the places from which their identifiers are made, those of lines further down
or of the same line and later places behind the others. -/
structure Numbers (numbered : List (Dependency × Nat)) (dependencies : List Dependency) : Prop where
  all : numbered.map (·.1) = dependencies
  named : ∀ entry ∈ numbered, entry.1.id = stableId (entry.1.identity entry.2)
  goUp : numbered.Pairwise fun entry later =>
    entry.1.line < later.1.line ∨ entry.1.line = later.1.line ∧ entry.2 < later.2

theorem numbers_nil : Numbers [] [] where
  all := rfl
  named _ member := absurd member List.not_mem_nil
  goUp := .nil

/-- Dependencies of lines further down go behind the others. -/
theorem Numbers.append {front back : List (Dependency × Nat)} {dependencies later : List Dependency}
    (numbers : Numbers front dependencies) (laterNumbers : Numbers back later)
    (above : ∀ entry ∈ front, ∀ other ∈ back, entry.1.line < other.1.line) :
    Numbers (front ++ back) (dependencies ++ later) where
  all := by rw [List.map_append, numbers.all, laterNumbers.all]
  named entry member := (List.mem_append.mp member).elim (numbers.named entry)
    (laterNumbers.named entry)
  goUp := List.pairwise_append.mpr ⟨numbers.goUp, laterNumbers.goUp,
    fun entry member other otherMember => .inl (above entry member other otherMember)⟩

variable {language : Language} {fileId : String}

/-! ## One statement -/

/-- Whether dependencies are those of one line and can be numbered. -/
def NumberedOn (line : Nat) (dependencies : List Dependency) : Prop :=
  ∃ numbered, Numbers numbered dependencies ∧ ∀ entry ∈ numbered, entry.1.line = line

theorem numberedOn_nil (line : Nat) : NumberedOn line [] :=
  ⟨[], numbers_nil, fun _ member => absurd member List.not_mem_nil⟩

theorem numberedOn_ofMatch? (kind : ImportKind) (isLocal bindsModule : Bool)
    (statement : Statement) (found : Pattern.Match) :
    NumberedOn statement.line
      (ofMatch? language fileId kind isLocal bindsModule statement found).toList := by
  cases made : ofMatch? language fileId kind isLocal bindsModule statement found with
  | none => exact numberedOn_nil _
  | some dependency =>
      have shape : dependency.id = stableId (dependency.identity 0) ∧
          dependency.line = statement.line := by
        unfold ofMatch? at made
        rw [Option.bind_eq_bind, Option.bind_eq_some_iff] at made
        rcases made with ⟨target, -, made⟩
        simp only at made
        split at made
        · cases made
        · cases made
          exact ⟨rfl, rfl⟩
      refine ⟨[(dependency, 0)], ⟨rfl, ?_, List.pairwise_singleton _ _⟩, ?_⟩
      · intro entry member
        rw [List.mem_singleton.mp member]
        exact shape.1
      · intro entry member
        rw [List.mem_singleton.mp member]
        exact shape.2

/-- The dependency that an entry of a list of targets makes at its place in the list. -/
def ofListed? (language : Language) (fileId : String) (rule : ImportRule) (statement : Statement)
    (entry : List Char × Nat) : Option Dependency :=
  let (target, other) := splitAlias entry.1
  if target.isEmpty then none
  else
    let flags := { language.imports.classify target rule.isLocal with
      isNamespace := rule.bindsModule }
    some (make language fileId rule.kind statement entry.2 target [importedName target other] flags)

theorem of_ofListed?_eq_some {rule : ImportRule} {statement : Statement} {entry : List Char × Nat}
    {dependency : Dependency}
    (made : ofListed? language fileId rule statement entry = some dependency) :
    dependency.id = stableId (dependency.identity entry.2) ∧ dependency.line = statement.line := by
  unfold ofListed? at made
  simp only at made
  split at made
  · cases made
  · cases made
    exact ⟨rfl, rfl⟩

theorem numberedOn_ofList (rule : ImportRule) (statement : Statement) (list : List Char) :
    NumberedOn statement.line (ofList language fileId rule statement list) := by
  have listed : ofList language fileId rule statement list =
      (splitList list).zipIdx.filterMap (ofListed? language fileId rule statement) := rfl
  have places : (splitList list).zipIdx.Pairwise fun entry later => entry.2 < later.2 := by
    rw [← List.pairwise_map, List.zipIdx_map_snd]
    exact List.pairwise_lt_range'
  rw [listed]
  refine ⟨(splitList list).zipIdx.filterMap fun entry =>
    (ofListed? language fileId rule statement entry).map (·, entry.2), ⟨?_, ?_, ?_⟩, ?_⟩
  · rw [List.map_filterMap]
    apply congrArg (List.filterMap · _)
    funext entry
    rw [Option.map_map]
    exact Option.map_id'
  · intro numbered member
    rcases List.mem_filterMap.mp member with ⟨entry, -, isMade⟩
    rcases Option.map_eq_some_iff.mp isMade with ⟨dependency, made, rfl⟩
    exact (of_ofListed?_eq_some made).1
  · rw [List.pairwise_filterMap]
    apply places.imp
    intro entry later before numbered isMade other otherIsMade
    rcases Option.map_eq_some_iff.mp isMade with ⟨dependency, made, rfl⟩
    rcases Option.map_eq_some_iff.mp otherIsMade with ⟨otherDependency, otherMade, rfl⟩
    refine .inr ⟨?_, before⟩
    rw [(of_ofListed?_eq_some made).2, (of_ofListed?_eq_some otherMade).2]
  · intro numbered member
    rcases List.mem_filterMap.mp member with ⟨entry, -, isMade⟩
    rcases Option.map_eq_some_iff.mp isMade with ⟨dependency, made, rfl⟩
    exact (of_ofListed?_eq_some made).2

theorem numberedOn_ofStatement (statement : Statement) :
    NumberedOn statement.line (ofStatement language fileId statement) := by
  unfold ofStatement
  simp only
  split
  · exact numberedOn_nil _
  · split
    · exact numberedOn_ofList _ statement _
    · exact numberedOn_ofMatch? _ _ _ statement _

/-! ## All statements -/

namespace Scan

variable {scan : Scan}

/-- Whether what a scan has found can be numbered and lies above a line. -/
def NumberedAbove (line : Nat) (scan : Scan) : Prop :=
  ∃ numbered, Numbers numbered scan.found.reverse.flatten ∧
    ∀ entry ∈ numbered, entry.1.line < line

theorem NumberedAbove.mono {line later : Nat} (above : scan.NumberedAbove line)
    (le : line ≤ later) : scan.NumberedAbove later := by
  rcases above with ⟨numbered, numbers, bound⟩
  exact ⟨numbered, numbers, fun entry member => Nat.lt_of_lt_of_le (bound entry member) le⟩

theorem NumberedAbove.add {line : Nat} (above : scan.NumberedAbove line)
    {dependencies : List Dependency} (new : NumberedOn line dependencies) :
    (scan.add dependencies).NumberedAbove (line + 1) := by
  rcases above with ⟨numbered, numbers, bound⟩
  rcases new with ⟨newNumbered, newNumbers, here⟩
  have found : (scan.add dependencies).found.reverse.flatten =
      scan.found.reverse.flatten ++ dependencies := by
    rw [Scan.add, List.reverse_cons, List.flatten_append, List.flatten_singleton]
  refine ⟨numbered ++ newNumbered, ?_, ?_⟩
  · rw [found]
    apply numbers.append newNumbers
    intro entry member other otherMember
    rw [here other otherMember]
    exact bound entry member
  · intro entry member
    rcases List.mem_append.mp member with member | member
    · exact Nat.lt_succ_of_lt (bound entry member)
    · rw [here entry member]
      exact Nat.lt_succ_self line

/-- What holds between two lines: what has been found lies above the statement that is pending,
which lies above the line at hand. -/
structure IsNumbered (scan : Scan) : Prop where
  found : scan.NumberedAbove ((scan.pending.map (·.line)).getD scan.lineNumber)
  pending : ∀ statement, scan.pending = some statement → statement.line < scan.lineNumber

theorem isNumbered_start : IsNumbered {} where
  found := ⟨[], numbers_nil, fun _ member => absurd member List.not_mem_nil⟩
  pending _ isPending := nomatch isPending

theorem isNumbered_of_free (free : scan.pending = none)
    (above : scan.NumberedAbove scan.lineNumber) : scan.IsNumbered where
  found := by rwa [free]
  pending statement isPending := by rw [free] at isPending; cases isPending

theorem isNumbered_of_pending {statement : Statement} (isPending : scan.pending = some statement)
    (above : scan.NumberedAbove statement.line) (line : statement.line < scan.lineNumber) :
    scan.IsNumbered where
  found := by rwa [isPending]
  pending other isOther := by
    rw [isPending] at isOther
    cases isOther
    exact line

/-- A line that continues a statement either ends it, so that its dependencies go below all that has
been found, or leaves it pending. -/
theorem IsNumbered.takePending (numbered : scan.IsNumbered) {statement : Statement}
    (isPending : scan.pending = some statement) (line : List Char) :
    let taken := scan.takePending language fileId statement line
    IsNumbered { taken with lineNumber := taken.lineNumber + 1 } := by
  have above : scan.NumberedAbove statement.line := by
    have found := numbered.found
    rwa [isPending] at found
  have before := numbered.pending statement isPending
  unfold Scan.takePending
  simp only
  split
  · refine isNumbered_of_free rfl ?_
    have free : NumberedAbove statement.line { scan with pending := none } := above
    exact NumberedAbove.mono (free.add (numberedOn_ofStatement _)) (Nat.le_succ_of_le before)
  · exact isNumbered_of_pending rfl above (Nat.lt_succ_of_lt before)

theorem IsNumbered.takeFreeLine (above : scan.NumberedAbove scan.lineNumber)
    (free : scan.pending = none) (line : List Char) :
    let taken := scan.takeFreeLine language fileId line
    IsNumbered { taken with lineNumber := taken.lineNumber + 1 } := by
  have unchanged : ∀ inBlock, IsNumbered
      { scan with inBlock := inBlock, lineNumber := scan.lineNumber + 1 } :=
    fun inBlock => isNumbered_of_free free (NumberedAbove.mono above (Nat.le_succ _))
  have added : ∀ dependencies, NumberedOn scan.lineNumber dependencies →
      IsNumbered { scan.add dependencies with lineNumber := scan.lineNumber + 1 } :=
    fun dependencies new => isNumbered_of_free free (above.add new)
  unfold Scan.takeFreeLine
  simp only
  split
  · exact unchanged scan.inBlock
  · split
    · unfold Scan.takeBlockLine
      split
      · exact unchanged false
      · split
        · exact added _ (numberedOn_ofMatch? _ _ _ ⟨line, scan.lineNumber⟩ _)
        · exact unchanged scan.inBlock
    · unfold Scan.takeStatementLine
      split
      · exact unchanged true
      · split
        · exact isNumbered_of_pending rfl above (Nat.lt_succ_self _)
        · exact added _ (numberedOn_ofStatement ⟨line, scan.lineNumber⟩)

theorem IsNumbered.take (numbered : scan.IsNumbered) (line : List Char) :
    (scan.take language fileId line).IsNumbered := by
  unfold Scan.take
  simp only
  split
  · next statement isPending => exact numbered.takePending isPending line
  · next free =>
      have above := numbered.found
      rw [free] at above
      exact IsNumbered.takeFreeLine above free line

theorem IsNumbered.takeAll (lines : List (List Char)) (numbered : scan.IsNumbered) :
    (lines.foldl (Scan.take language fileId) scan).IsNumbered := by
  induction lines generalizing scan with
  | nil => exact numbered
  | cons line lines induction => exact induction (numbered.take line)

theorem IsNumbered.finish (numbered : scan.IsNumbered) :
    ∃ entries, Numbers entries (scan.finish language fileId) := by
  unfold Scan.finish
  simp only
  split
  · next statement isPending =>
      have above := numbered.found
      rw [isPending] at above
      rcases above.add (numberedOn_ofStatement statement) with ⟨entries, numbers, -⟩
      exact ⟨entries, numbers⟩
  · rcases numbered.found with ⟨entries, numbers, -⟩
    exact ⟨entries, numbers⟩

end Scan

/-- The dependencies of a file can be numbered. -/
theorem exists_numbers (language : Language) (fileId content : String) :
    ∃ numbered, Numbers numbered (extractDependencies language fileId content) :=
  (Scan.isNumbered_start.takeAll (Text.lines content.toList)).finish

end SourceIndex.Dependency
