import SourceIndex.Proofs.Dependency.Numbering

/-! The dependencies whose statements start on one line of a file. They are read off the line as it
stands, joined with the lines below where its statement goes on there. Of comments only those are
left out that take a line from its start on: block comments, documentation blocks and strings are
not looked at. -/

namespace SourceIndex.Dependency

variable {language : Language} {fileId : String}

theorem NumberedOn.line_eq {line : Nat} {dependencies : List Dependency}
    (numbered : NumberedOn line dependencies) {dependency : Dependency}
    (member : dependency ∈ dependencies) : dependency.line = line := by
  rcases numbered with ⟨entries, numbers, here⟩
  rw [← numbers.all] at member
  rcases List.mem_map.mp member with ⟨entry, isEntry, rfl⟩
  exact here entry isEntry

/-- A statement joined with the lines below, up to the one that ends it. -/
def Statement.joined (language : Language) (statement : Statement) : List (List Char) → Statement
  | [] => statement
  | line :: lines =>
    let longer := { statement with text := statement.text ++ ' ' :: Text.trim line }
    if language.imports.continuation.any (·.closing.occursIn line)
        || Text.byteSize longer.text > Scan.maxPendingSize then longer
    else longer.joined language lines

namespace Scan

/-- The dependencies found so far, in the order of their statements. -/
def dependencies (scan : Scan) : List Dependency := scan.found.reverse.flatten

/-- The dependency of a line in an import block. -/
def ofBlockLine? (language : Language) (fileId : String) (block : ImportBlock) (number : Nat)
    (line : List Char) : Option Dependency :=
  if block.closing.occursIn line then none
  else
    (block.entry.find? line).bind
      (ofMatch? language fileId block.kind false false ⟨line, number⟩)

/-- The dependencies of the statement that a line outside of import blocks starts, if it does not
open one. -/
def ofOpeningLine (language : Language) (fileId : String) (number : Nat) (line : List Char)
    (below : List (List Char)) : List Dependency :=
  if language.imports.block.any (·.opening.occursIn line) then []
  else if language.imports.continuation.any (·.opening.occursIn line) then
    let opening : Statement := ⟨Text.trim line, number⟩
    ofStatement language fileId (opening.joined language below)
  else ofStatement language fileId ⟨line, number⟩

/-- The dependencies of the statement that starts on a line, if one does. -/
def startedBy (language : Language) (fileId : String) (scan : Scan) (line : List Char)
    (below : List (List Char)) : List Dependency :=
  let trimmed := Text.trimStart line
  if scan.pending.isSome || trimmed.isEmpty || isLineComment language trimmed then []
  else
    match scan.inBlock, language.imports.block with
    | true, some block => (ofBlockLine? language fileId block scan.lineNumber line).toList
    | _, _ => ofOpeningLine language fileId scan.lineNumber line below

variable {scan : Scan}

theorem dependencies_add (new : List Dependency) :
    (scan.add new).dependencies = scan.dependencies ++ new := by
  simp only [dependencies, add, List.reverse_cons, List.flatten_append, List.flatten_singleton]

theorem dependencies_finish (scan : Scan) : scan.finish language fileId =
    scan.dependencies ++
      (scan.pending.map (ofStatement language fileId)).getD [] := by
  simp only [finish]
  cases isPending : scan.pending with
  | none => simp [dependencies]
  | some statement => exact dependencies_add _

/-- The line on which the statement at hand starts: the one that is pending, or else the one that
the next line may start. -/
def statementLine (scan : Scan) : Nat := (scan.pending.map (·.line)).getD scan.lineNumber

/-- What a line does to a scan: it may add dependencies of the statement at hand or leave that
statement pending. -/
structure Steps (scan taken : Scan) (added : List Dependency) : Prop where
  lineNumber : taken.lineNumber = scan.lineNumber + 1
  dependencies : taken.dependencies = scan.dependencies ++ added
  added : NumberedOn scan.statementLine added
  pending : ∀ statement, taken.pending = some statement → statement.line = scan.statementLine

theorem exists_steps (language : Language) (fileId : String) (scan : Scan) (line : List Char) :
    ∃ added, scan.Steps (scan.take language fileId line) added := by
  simp only [take]
  cases isPending : scan.pending with
  | some statement =>
      have here : scan.statementLine = statement.line := by
        rw [statementLine, isPending]
        rfl
      simp only [takePending]
      split
      · refine ⟨_, rfl, dependencies_add _, ?_, nofun⟩
        rw [here]
        exact numberedOn_ofStatement _
      · refine ⟨[], rfl, (List.append_nil _).symm, numberedOn_nil _, ?_⟩
        rintro longer ⟨⟩
        exact here.symm
  | none =>
      have here : scan.statementLine = scan.lineNumber := by
        rw [statementLine, isPending]
        rfl
      have nothing : ∀ inBlock, ∃ added,
          scan.Steps { scan with inBlock, lineNumber := scan.lineNumber + 1 } added := by
        refine fun inBlock => ⟨[], rfl, (List.append_nil _).symm, numberedOn_nil _, ?_⟩
        intro statement isStatement
        rw [isPending] at isStatement
        cases isStatement
      have adds : ∀ new, NumberedOn scan.lineNumber new → ∃ added,
          scan.Steps { scan.add new with lineNumber := scan.lineNumber + 1 } added := by
        refine fun new numbered => ⟨new, rfl, dependencies_add _, here ▸ numbered, ?_⟩
        intro statement isStatement
        rw [add, isPending] at isStatement
        cases isStatement
      simp only [takeFreeLine]
      split
      · exact nothing scan.inBlock
      · split
        · simp only [takeBlockLine]
          split
          · exact nothing false
          · split
            · exact adds _ (numberedOn_ofMatch? _ _ _ ⟨line, scan.lineNumber⟩ _)
            · exact nothing scan.inBlock
        · simp only [takeStatementLine]
          split
          · exact nothing true
          · split
            · refine ⟨[], rfl, (List.append_nil _).symm, numberedOn_nil _, ?_⟩
              rintro opening ⟨⟩
              exact here.symm
            · exact adds _ (numberedOn_ofStatement ⟨line, scan.lineNumber⟩)

/-! ## The dependencies of one line -/

/-- Those of some dependencies whose statements start on a line. -/
def onLine (number : Nat) (dependencies : List Dependency) : List Dependency :=
  dependencies.filter (·.line = number)

theorem onLine_append (number : Nat) (front back : List Dependency) :
    onLine number (front ++ back) = onLine number front ++ onLine number back :=
  List.filter_append _ _

theorem onLine_eq_self {number : Nat} {dependencies : List Dependency}
    (numbered : NumberedOn number dependencies) : onLine number dependencies = dependencies :=
  List.filter_eq_self.mpr fun _ member => decide_eq_true (numbered.line_eq member)

theorem onLine_eq_nil {number line : Nat} {dependencies : List Dependency}
    (numbered : NumberedOn line dependencies) (other : line ≠ number) :
    onLine number dependencies = [] := by
  rw [onLine, List.filter_eq_nil_iff]
  intro dependency member
  rw [numbered.line_eq member]
  simpa using other

/-- Whether a scan is past a line: the lines from here on lie below it, and the statement that they
go on with starts elsewhere. -/
structure IsPast (number : Nat) (scan : Scan) : Prop where
  line : number < scan.lineNumber
  pending : ∀ statement, scan.pending = some statement → statement.line ≠ number

theorem IsPast.statementLine_ne {number : Nat} (past : scan.IsPast number) :
    scan.statementLine ≠ number := by
  rw [statementLine]
  cases isPending : scan.pending with
  | none => exact (Nat.ne_of_lt past.line).symm
  | some statement => exact past.pending statement isPending

/-- A scan that is past a line finds nothing more that starts there. -/
theorem IsPast.onLine_finish {number : Nat} (lines : List (List Char)) {scan : Scan}
    (past : scan.IsPast number) :
    onLine number ((lines.foldl (Scan.take language fileId) scan).finish language fileId) =
      onLine number scan.dependencies := by
  induction lines generalizing scan with
  | nil =>
      rw [List.foldl_nil, dependencies_finish, onLine_append]
      cases isPending : scan.pending with
      | none => exact List.append_nil _
      | some statement =>
          have none_ := onLine_eq_nil (@numberedOn_ofStatement language fileId statement)
            (past.pending statement isPending)
          rw [Option.map_some, Option.getD_some, none_, List.append_nil]
  | cons line lines induction =>
      rcases exists_steps language fileId scan line with ⟨added, steps⟩
      have later : (scan.take language fileId line).IsPast number := by
        refine ⟨?_, fun statement isPending => ?_⟩
        · rw [steps.lineNumber]
          exact Nat.lt_succ_of_lt past.line
        · rw [steps.pending statement isPending]
          exact past.statementLine_ne
      rw [List.foldl_cons, induction later, steps.dependencies, onLine_append,
        onLine_eq_nil steps.added past.statementLine_ne, List.append_nil]

/-- A pending statement is joined with the lines below, and its dependencies are those of its first
line. -/
theorem onLine_finish_of_pending (language : Language) (fileId : String)
    (lines : List (List Char)) {scan : Scan} {statement : Statement}
    (isPending : scan.pending = some statement) (above : statement.line < scan.lineNumber) :
    onLine statement.line
        ((lines.foldl (Scan.take language fileId) scan).finish language fileId) =
      onLine statement.line scan.dependencies ++
        ofStatement language fileId (statement.joined language lines) := by
  induction lines generalizing scan statement with
  | nil =>
      rw [List.foldl_nil, dependencies_finish, isPending, onLine_append]
      exact congrArg _ (onLine_eq_self (numberedOn_ofStatement statement))
  | cons line lines induction =>
      let longer : Statement := { statement with text := statement.text ++ ' ' :: Text.trim line }
      rw [List.foldl_cons, Statement.joined]
      simp only [take, isPending, takePending]
      split
      · have past : IsPast statement.line { ({ scan with pending := none } : Scan).add
            (ofStatement language fileId longer) with lineNumber := scan.lineNumber + 1 } :=
          ⟨Nat.lt_succ_of_lt above, fun _ isStatement => nomatch isStatement⟩
        have here := onLine_eq_self (@numberedOn_ofStatement language fileId longer)
        calc onLine statement.line _
          _ = onLine statement.line (dependencies _) := past.onLine_finish lines
          _ = onLine statement.line (scan.dependencies ++ ofStatement language fileId longer) :=
              congrArg _ (dependencies_add _)
          _ = onLine statement.line scan.dependencies ++
              onLine statement.line (ofStatement language fileId longer) := onLine_append _ _ _
          _ = _ := congrArg _ here
      · have waits : ({ scan with pending := some longer, lineNumber := scan.lineNumber + 1 } :
            Scan).pending = some longer := rfl
        exact induction waits (Nat.lt_succ_of_lt above)

/-- Nothing that has been found starts on the next line. -/
theorem IsNumbered.onLine_dependencies (numbered : scan.IsNumbered) :
    onLine scan.lineNumber scan.dependencies = [] := by
  have le : (scan.pending.map (·.line)).getD scan.lineNumber ≤ scan.lineNumber := by
    cases isPending : scan.pending with
    | none => exact Nat.le_refl _
    | some statement => exact Nat.le_of_lt (numbered.pending statement isPending)
  rcases numbered.found.mono le with ⟨entries, numbers, above⟩
  rw [onLine, dependencies, List.filter_eq_nil_iff, ← numbers.all]
  intro dependency member
  rcases List.mem_map.mp member with ⟨entry, isEntry, rfl⟩
  simpa using Nat.ne_of_lt (above entry isEntry)

/-- Where a line is taken as a whole, what it adds is what starts on it. -/
theorem IsNumbered.onLine_finish_of_added (numbered : scan.IsNumbered) (below : List (List Char))
    {taken : Scan} {added : List Dependency} (lineNumber : taken.lineNumber = scan.lineNumber + 1)
    (free : taken.pending = none)
    (dependencies : taken.dependencies = scan.dependencies ++ added)
    (here : NumberedOn scan.lineNumber added) :
    onLine scan.lineNumber
        ((below.foldl (Scan.take language fileId) taken).finish language fileId) = added := by
  have past : taken.IsPast scan.lineNumber := by
    refine ⟨lineNumber ▸ Nat.lt_succ_self _, fun statement isStatement => ?_⟩
    rw [free] at isStatement
    cases isStatement
  rw [past.onLine_finish below, dependencies, onLine_append, numbered.onLine_dependencies,
    onLine_eq_self here, List.nil_append]

/-- A line that goes on with a statement starts none. -/
theorem onLine_finish_take_of_pending (numbered : scan.IsNumbered) {statement : Statement}
    (isPending : scan.pending = some statement) (line : List Char) (below : List (List Char)) :
    onLine scan.lineNumber
        ((below.foldl (Scan.take language fileId) (scan.take language fileId line)).finish
          language fileId) = [] := by
  have elsewhere : scan.statementLine ≠ scan.lineNumber := by
    rw [statementLine, isPending]
    exact Nat.ne_of_lt (numbered.pending statement isPending)
  rcases exists_steps language fileId scan line with ⟨added, steps⟩
  have past : (scan.take language fileId line).IsPast scan.lineNumber := by
    refine ⟨?_, fun longer isLonger => ?_⟩
    · rw [steps.lineNumber]
      exact Nat.lt_succ_self _
    · rwa [steps.pending longer isLonger]
  rw [past.onLine_finish below, steps.dependencies, onLine_append, numbered.onLine_dependencies,
    onLine_eq_nil steps.added elsewhere, List.nil_append]

section Free

variable (numbered : scan.IsNumbered) (free : scan.pending = none)
include numbered free

theorem onLine_finish_takeBlockLine (block : ImportBlock) (line : List Char)
    (below : List (List Char)) :
    let taken := scan.takeBlockLine language fileId block line
    onLine scan.lineNumber ((below.foldl (Scan.take language fileId)
        { taken with lineNumber := taken.lineNumber + 1 }).finish language fileId) =
      (ofBlockLine? language fileId block scan.lineNumber line).toList := by
  simp only [takeBlockLine, ofBlockLine?]
  split
  · exact numbered.onLine_finish_of_added below rfl free (List.append_nil _).symm
      (numberedOn_nil _)
  · cases block.entry.find? line with
    | none =>
        exact numbered.onLine_finish_of_added below rfl free (List.append_nil _).symm
          (numberedOn_nil _)
    | some found =>
        exact numbered.onLine_finish_of_added below rfl free (dependencies_add _)
          (numberedOn_ofMatch? _ _ _ ⟨line, scan.lineNumber⟩ found)

theorem onLine_finish_takeStatementLine (line : List Char) (below : List (List Char)) :
    let taken := scan.takeStatementLine language fileId line
    onLine scan.lineNumber ((below.foldl (Scan.take language fileId)
        { taken with lineNumber := taken.lineNumber + 1 }).finish language fileId) =
      ofOpeningLine language fileId scan.lineNumber line below := by
  simp only [takeStatementLine, ofOpeningLine]
  split
  · exact numbered.onLine_finish_of_added below rfl free (List.append_nil _).symm
      (numberedOn_nil _)
  · split
    · let opening : Statement := ⟨Text.trim line, scan.lineNumber⟩
      let waiting : Scan :=
        { scan with pending := some opening, lineNumber := scan.lineNumber + 1 }
      have waits : waiting.pending = some opening := rfl
      have empty : onLine opening.line waiting.dependencies = [] := numbered.onLine_dependencies
      have joined := onLine_finish_of_pending language fileId below waits (Nat.lt_succ_self _)
      rw [empty, List.nil_append] at joined
      exact joined
    · exact numbered.onLine_finish_of_added below rfl free (dependencies_add _)
        (numberedOn_ofStatement ⟨line, scan.lineNumber⟩)

end Free

/-- What starts on a line is what the line, together with those below, is read as. -/
theorem onLine_finish_take (numbered : scan.IsNumbered) (line : List Char)
    (below : List (List Char)) :
    onLine scan.lineNumber
        ((below.foldl (Scan.take language fileId) (scan.take language fileId line)).finish
          language fileId) =
      scan.startedBy language fileId line below := by
  cases isPending : scan.pending with
  | some statement =>
      rw [onLine_finish_take_of_pending numbered isPending]
      simp [startedBy, isPending]
  | none =>
      simp only [take, isPending, takeFreeLine, startedBy, Option.isSome_none, Bool.false_or]
      split
      · exact numbered.onLine_finish_of_added below rfl isPending (List.append_nil _).symm
          (numberedOn_nil _)
      · cases inBlock : scan.inBlock with
        | false => exact onLine_finish_takeStatementLine numbered isPending line below
        | true =>
            cases language.imports.block with
            | none => exact onLine_finish_takeStatementLine numbered isPending line below
            | some block => exact onLine_finish_takeBlockLine numbered isPending block line below

/-! ## What is not looked at -/

/-- A line is taken alike wherever the same marks start line comments. -/
theorem take_lexicon {lexicon : Lexicon}
    (same : lexicon.lineComments = language.lexicon.lineComments) :
    take { language with lexicon } fileId = take language fileId := by
  have comment : isLineComment { language with lexicon } = isLineComment language := by
    funext trimmed
    rw [isLineComment, isLineComment, same]
  have free : takeFreeLine { language with lexicon } fileId = takeFreeLine language fileId := by
    funext scan line
    rw [takeFreeLine, takeFreeLine, comment]
    rfl
  funext scan line
  rw [take, take, free]
  rfl

theorem lineNumber_foldl (language : Language) (fileId : String) (lines : List (List Char))
    (scan : Scan) :
    (lines.foldl (take language fileId) scan).lineNumber = scan.lineNumber + lines.length := by
  induction lines generalizing scan with
  | nil => rfl
  | cons line lines induction =>
      rcases exists_steps language fileId scan line with ⟨added, steps⟩
      rw [List.foldl_cons, induction, steps.lineNumber, List.length_cons]
      omega

end Scan

/-- On each line of a file start the dependencies that the line is read as, whether it lies in a
block comment, in a documentation block, in a string or in code: the marks of these may be any
others, as long as the same marks start line comments. -/
theorem filter_extractDependencies (language : Language) (fileId content : String)
    (above below : List (List Char)) (line : List Char)
    (isFile : Text.lines content.toList = above ++ line :: below) :
    let scan := above.foldl (Scan.take language fileId) {}
    (extractDependencies language fileId content).filter (·.line = above.length + 1) =
        scan.startedBy language fileId line below ∧
      ∀ lexicon : Lexicon, lexicon.lineComments = language.lexicon.lineComments →
        extractDependencies { language with lexicon } fileId content =
          extractDependencies language fileId content := by
  refine ⟨?_, fun lexicon same => ?_⟩
  · have numbered : (above.foldl (Scan.take language fileId) {}).IsNumbered :=
      Scan.isNumbered_start.takeAll above
    have number := Scan.lineNumber_foldl language fileId above {}
    rw [Nat.add_comm above.length, ← number]
    simp only [extractDependencies, isFile, List.foldl_append, List.foldl_cons]
    exact Scan.onLine_finish_take numbered line below
  · simp only [extractDependencies, Scan.take_lexicon same]
    rfl

/-- An import that is commented out is a dependency. -/
theorem filter_extractDependencies_commentedOut :
    ((extractDependencies .javascript "f" "/*\nimport x from 'y';\n*/\n").filter
      (·.line = 2)).map (·.target) = ["y"] := by
  have starts := (filter_extractDependencies .javascript "f" "/*\nimport x from 'y';\n*/\n"
    ["/*".toList] ["*/".toList] "import x from 'y';".toList (by decide)).1
  refine (congrArg (List.map (·.target)) starts).trans ?_
  decide +kernel

/-! ## Lines of the text

Every dependency bears the number of a line of the text, however far below it its statement ends. -/

namespace Scan

variable {scan : Scan}

/-- Whether all statements that a scan has come upon start on lines of the text, above the line at
hand. -/
structure StartsAbove (scan : Scan) : Prop where
  counted : 1 ≤ scan.lineNumber
  found : ∀ dependency ∈ scan.dependencies,
    1 ≤ dependency.line ∧ dependency.line < scan.lineNumber
  pending : ∀ statement, scan.pending = some statement →
    1 ≤ statement.line ∧ statement.line < scan.lineNumber

theorem startsAbove_start : StartsAbove {} where
  counted := Nat.le_refl _
  found _ member := absurd member List.not_mem_nil
  pending _ isPending := nomatch isPending

/-- The statement at hand starts on the line at hand or above it. -/
theorem StartsAbove.statementLine (starts : scan.StartsAbove) :
    1 ≤ scan.statementLine ∧ scan.statementLine ≤ scan.lineNumber := by
  unfold Scan.statementLine
  cases isPending : scan.pending with
  | none => exact ⟨starts.counted, Nat.le_refl _⟩
  | some statement =>
      have line := starts.pending statement isPending
      exact ⟨line.1, Nat.le_of_lt line.2⟩

theorem StartsAbove.of_steps (starts : scan.StartsAbove) {taken : Scan} {added : List Dependency}
    (steps : scan.Steps taken added) : taken.StartsAbove := by
  have here := starts.statementLine
  constructor
  · rw [steps.lineNumber]
    exact Nat.le_succ_of_le starts.counted
  · intro dependency member
    rw [steps.dependencies] at member
    rw [steps.lineNumber]
    rcases List.mem_append.mp member with member | member
    · have line := starts.found dependency member
      exact ⟨line.1, Nat.lt_succ_of_lt line.2⟩
    · rw [steps.added.line_eq member]
      exact ⟨here.1, Nat.lt_succ_of_le here.2⟩
  · intro statement isPending
    rw [steps.pending statement isPending, steps.lineNumber]
    exact ⟨here.1, Nat.lt_succ_of_le here.2⟩

theorem StartsAbove.takeAll (language : Language) (fileId : String) (lines : List (List Char))
    (starts : scan.StartsAbove) : (lines.foldl (take language fileId) scan).StartsAbove := by
  induction lines generalizing scan with
  | nil => exact starts
  | cons line lines induction =>
      rcases exists_steps language fileId scan line with ⟨added, steps⟩
      exact induction (starts.of_steps steps)

theorem StartsAbove.finish (language : Language) (fileId : String) (starts : scan.StartsAbove) :
    ∀ dependency ∈ scan.finish language fileId,
      1 ≤ dependency.line ∧ dependency.line < scan.lineNumber := by
  intro dependency member
  rw [dependencies_finish] at member
  rcases List.mem_append.mp member with member | member
  · exact starts.found dependency member
  · cases isPending : scan.pending with
    | none =>
        rw [isPending] at member
        exact absurd member List.not_mem_nil
    | some statement =>
        rw [isPending] at member
        rw [(numberedOn_ofStatement statement).line_eq member]
        exact starts.pending statement isPending

end Scan

/-- The statement of a dependency starts on a line of the file. -/
theorem line_of_mem_extractDependencies (language : Language) (fileId content : String) :
    ∀ dependency ∈ extractDependencies language fileId content,
      1 ≤ dependency.line ∧ dependency.line ≤ (Text.lines content.toList).length := by
  intro dependency member
  have final := Scan.startsAbove_start.takeAll language fileId (Text.lines content.toList)
  have line := final.finish language fileId dependency member
  rw [Scan.lineNumber_foldl, Nat.add_comm] at line
  exact ⟨line.1, Nat.le_of_lt_succ line.2⟩

end SourceIndex.Dependency
