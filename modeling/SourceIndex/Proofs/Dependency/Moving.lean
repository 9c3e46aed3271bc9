import SourceIndex.Proofs.Dependency.Starts

/-! The dependencies of lines that stand further down in a file. A scan that stands between two
statements goes on just as one that starts there, but for the numbers of the lines and the
identifiers that are made from them. -/

namespace SourceIndex.Dependency

/-! ## Further down -/

/-- The only dependency of its statement, `count` lines further down. -/
def moved (count : Nat) (dependency : Dependency) : Dependency :=
  let further := { dependency with line := dependency.line + count }
  { further with id := stableId (further.identity 0) }

def Statement.moved (count : Nat) (statement : Statement) : Statement :=
  { statement with line := statement.line + count }

theorem moved_moved (count more : Nat) (dependency : Dependency) :
    (dependency.moved count).moved more = dependency.moved (count + more) := by
  simp only [moved, identity, Nat.add_assoc]

theorem map_moved_moved (count more : Nat) (dependencies : List Dependency) :
    (dependencies.map (moved count)).map (moved more) =
      dependencies.map (moved (count + more)) := by
  rw [List.map_map]
  exact congrArg (List.map · _) (funext (moved_moved count more))

variable {language : Language} {fileId : String}

theorem ofMatch?_moved (count : Nat) (kind : ImportKind) (isLocal bindsModule : Bool)
    (statement : Statement) (found : Pattern.Match) :
    ofMatch? language fileId kind isLocal bindsModule (statement.moved count) found =
      (ofMatch? language fileId kind isLocal bindsModule statement found).map (moved count) := by
  unfold ofMatch?
  cases found.text? "path" with
  | none => rfl
  | some path =>
      simp only [Option.bind_eq_bind, Option.bind_some]
      split <;> rfl

/-! ## Statements with one target -/

/-- The first rule that fits a text, and how it does. -/
def fittingRule? (language : Language) (text : List Char) : Option (ImportRule × Pattern.Match) :=
  language.imports.rules.findSome? fun rule => (rule.pattern.find? text).map (rule, ·)

theorem of_fittingRule?_eq_some {text : List Char} {rule : ImportRule} {found : Pattern.Match}
    (fits : fittingRule? language text = some (rule, found)) :
    rule ∈ language.imports.rules ∧ rule.pattern.find? text = some found := by
  rcases List.exists_of_findSome?_eq_some fits with ⟨other, member, isFitting⟩
  rcases Option.map_eq_some_iff.mp isFitting with ⟨matched, isMatch, same⟩
  cases same
  exact ⟨member, isMatch⟩

/-- The rule that fits a text behind others that do not. -/
theorem fittingRule?_of_append (front back : List ImportRule) {rule : ImportRule}
    {text : List Char} {found : Pattern.Match}
    (rules : language.imports.rules = front ++ rule :: back)
    (others : ∀ other ∈ front, other.pattern.find? text = none)
    (matched : rule.pattern.find? text = some found) :
    fittingRule? language text = some (rule, found) := by
  have passed : front.findSome? (fun other => (other.pattern.find? text).map (other, ·)) = none :=
    List.findSome?_eq_none_iff.mpr fun other member => by rw [others other member]; rfl
  rw [fittingRule?, rules, List.findSome?_append, passed, List.findSome?_cons, matched]
  rfl

theorem fittingRule?_eq_none {text : List Char}
    (unread : ∀ rule ∈ language.imports.rules, rule.pattern.find? text = none) :
    fittingRule? language text = none :=
  List.findSome?_eq_none_iff.mpr fun rule member => by rw [unread rule member]; rfl

theorem ofStatement_of_none {statement : Statement}
    (none : fittingRule? language statement.text = none) :
    ofStatement language fileId statement = [] := by
  unfold fittingRule? at none
  simp only [ofStatement, none]

/-- A rule that does not list targets asks for one at most. -/
theorem ofStatement_of_fits {statement : Statement} {rule : ImportRule} {found : Pattern.Match}
    (fits : fittingRule? language statement.text = some (rule, found))
    (single : rule.splitsTargets = false) :
    ofStatement language fileId statement =
      (ofMatch? language fileId rule.kind rule.isLocal rule.bindsModule statement
        found).toList := by
  unfold fittingRule? at fits
  simp only [ofStatement, fits, single, Bool.false_eq_true, if_false]

/-- Whether no statement of a language lists several targets. -/
def HasSingleTargets (language : Language) : Prop :=
  ∀ rule ∈ language.imports.rules, rule.splitsTargets = false

theorem ofStatement_moved (single : HasSingleTargets language) (count : Nat)
    (statement : Statement) :
    ofStatement language fileId (statement.moved count) =
      (ofStatement language fileId statement).map (moved count) := by
  have sameText : (statement.moved count).text = statement.text := rfl
  cases fits : fittingRule? language statement.text with
  | none =>
      rw [ofStatement_of_none (sameText ▸ fits), ofStatement_of_none fits]
      rfl
  | some fitting =>
      have one := single fitting.1 (of_fittingRule?_eq_some fits).1
      rw [ofStatement_of_fits (sameText ▸ fits) one, ofStatement_of_fits fits one, ofMatch?_moved,
        Option.toList_map]

namespace Scan

variable {scan other : Scan} {earlier : List Dependency} {count : Nat}

/-- Whether a scan is another one `count` lines further down, behind what has been found earlier. -/
structure IsMoved (earlier : List Dependency) (count : Nat) (scan other : Scan) : Prop where
  lineNumber : other.lineNumber = scan.lineNumber + count
  inBlock : other.inBlock = scan.inBlock
  pending : other.pending = scan.pending.map (·.moved count)
  dependencies : other.dependencies = earlier ++ scan.dependencies.map (moved count)

theorem IsMoved.add (isMoved : IsMoved earlier count scan other) (new : List Dependency) :
    IsMoved earlier count (scan.add new) (other.add (new.map (moved count))) where
  lineNumber := isMoved.lineNumber
  inBlock := isMoved.inBlock
  pending := isMoved.pending
  dependencies := by
    rw [dependencies_add, dependencies_add, isMoved.dependencies, List.map_append,
      List.append_assoc]

theorem IsMoved.addStatement (single : HasSingleTargets language)
    (isMoved : IsMoved earlier count scan other) (statement : Statement) :
    IsMoved earlier count (scan.add (ofStatement language fileId statement))
      (other.add (ofStatement language fileId (statement.moved count))) := by
  rw [ofStatement_moved single]
  exact isMoved.add _

theorem IsMoved.takePending (single : HasSingleTargets language)
    (isMoved : IsMoved earlier count scan other) (statement : Statement) (line : List Char) :
    IsMoved earlier count (scan.takePending language fileId statement line)
      (other.takePending language fileId (statement.moved count) line) := by
  have sameText : (statement.moved count).text = statement.text := rfl
  simp only [Scan.takePending, sameText]
  split
  · have free : IsMoved earlier count { scan with pending := none }
        { other with pending := none } := { isMoved with pending := rfl }
    exact free.addStatement single _
  · exact { isMoved with pending := rfl }

theorem IsMoved.takeBlockLine (isMoved : IsMoved earlier count scan other) (block : ImportBlock)
    (line : List Char) :
    IsMoved earlier count (scan.takeBlockLine language fileId block line)
      (other.takeBlockLine language fileId block line) := by
  simp only [Scan.takeBlockLine]
  split
  · exact { isMoved with inBlock := rfl }
  · split
    · next found _ =>
        have further := @ofMatch?_moved language fileId count block.kind false false
          ⟨line, scan.lineNumber⟩ found
        rw [Statement.moved, ← isMoved.lineNumber] at further
        rw [further, Option.toList_map]
        exact isMoved.add _
    · exact isMoved

theorem IsMoved.takeStatementLine (single : HasSingleTargets language)
    (isMoved : IsMoved earlier count scan other) (line : List Char) :
    IsMoved earlier count (scan.takeStatementLine language fileId line)
      (other.takeStatementLine language fileId line) := by
  have here : ∀ text, (⟨text, other.lineNumber⟩ : Statement) =
      (⟨text, scan.lineNumber⟩ : Statement).moved count := by
    intro text
    rw [isMoved.lineNumber]
    rfl
  simp only [Scan.takeStatementLine, here]
  split
  · exact { isMoved with inBlock := rfl }
  · split
    · exact { isMoved with pending := rfl }
    · exact isMoved.addStatement single _

theorem IsMoved.take (single : HasSingleTargets language)
    (isMoved : IsMoved earlier count scan other) (line : List Char) :
    IsMoved earlier count (scan.take language fileId line)
      (other.take language fileId line) := by
  have numbered : ∀ {scan other}, IsMoved earlier count scan other →
      IsMoved earlier count { scan with lineNumber := scan.lineNumber + 1 }
        { other with lineNumber := other.lineNumber + 1 } := by
    intro scan other isMoved
    refine { isMoved with lineNumber := ?_ }
    simp only [isMoved.lineNumber, Nat.add_right_comm]
  simp only [Scan.take, isMoved.pending]
  cases isPending : scan.pending with
  | some statement => exact numbered (isMoved.takePending single statement line)
  | none =>
      refine numbered ?_
      simp only [Option.map_none, takeFreeLine, isMoved.inBlock]
      split
      · exact isMoved
      · split
        · exact isMoved.takeBlockLine _ line
        · exact isMoved.takeStatementLine single line

theorem IsMoved.takeAll (single : HasSingleTargets language) (lines : List (List Char))
    (isMoved : IsMoved earlier count scan other) :
    IsMoved earlier count (lines.foldl (Scan.take language fileId) scan)
      (lines.foldl (Scan.take language fileId) other) := by
  induction lines generalizing scan other with
  | nil => exact isMoved
  | cons line lines induction => exact induction (isMoved.take single line)

theorem IsMoved.finish (single : HasSingleTargets language)
    (isMoved : IsMoved earlier count scan other) :
    other.finish language fileId =
      earlier ++ (scan.finish language fileId).map (moved count) := by
  rw [dependencies_finish, dependencies_finish, isMoved.dependencies, isMoved.pending,
    List.map_append, List.append_assoc]
  cases scan.pending with
  | none => rfl
  | some statement => simp only [Option.map_some, Option.getD_some, ofStatement_moved single]

end Scan

/-! ## Between two statements -/

/-- The dependencies of a file with the given lines. -/
def ofLines (language : Language) (fileId : String) (lines : List (List Char)) :
    List Dependency :=
  (lines.foldl (Scan.take language fileId) {}).finish language fileId

namespace Scan

variable {scan : Scan} {count : Nat} {found : List Dependency}

/-- Whether a scan stands between two statements, below `count` lines. -/
structure IsBetween (count : Nat) (found : List Dependency) (scan : Scan) : Prop where
  lineNumber : scan.lineNumber = count + 1
  inBlock : scan.inBlock = false
  pending : scan.pending = none
  dependencies : scan.dependencies = found

theorem isBetween_start : IsBetween 0 [] {} := ⟨rfl, rfl, rfl, rfl⟩

/-- What lies above does not matter between two statements. -/
theorem IsBetween.finish (single : HasSingleTargets language)
    (between : scan.IsBetween count found) (lines : List (List Char)) :
    (lines.foldl (take language fileId) scan).finish language fileId =
      found ++ (ofLines language fileId lines).map (moved count) := by
  have isMoved : IsMoved found count {} scan := by
    refine ⟨?_, between.inBlock, between.pending, ?_⟩
    · rw [between.lineNumber, Nat.add_comm]
    · exact between.dependencies.trans (List.append_nil _).symm
  exact (isMoved.takeAll single lines).finish single

end Scan

/-! ## Lines that ask for nothing -/

/-- Whether a line neither opens anything nor is a statement. -/
structure IsQuiet (language : Language) (line : List Char) : Prop where
  block : language.imports.block.any (·.opening.occursIn line) = false
  continuation : language.imports.continuation.any (·.opening.occursIn line) = false
  rules : ∀ rule ∈ language.imports.rules, rule.pattern.find? line = none

theorem Scan.IsBetween.take_of_quiet {scan : Scan} {count : Nat} {found : List Dependency}
    (between : scan.IsBetween count found) {line : List Char} (quiet : IsQuiet language line) :
    (scan.take language fileId line).IsBetween (count + 1) found := by
  have nothing : ofStatement language fileId ⟨line, scan.lineNumber⟩ = [] :=
    ofStatement_of_none (fittingRule?_eq_none quiet.rules)
  have free : scan.takeFreeLine language fileId line = scan ∨
      scan.takeFreeLine language fileId line = scan.add [] := by
    simp only [takeFreeLine, between.inBlock, takeStatementLine, quiet.block, quiet.continuation,
      nothing, Bool.false_eq_true, if_false]
    split
    · exact .inl rfl
    · exact .inr rfl
  have number : scan.lineNumber + 1 = count + 1 + 1 := congrArg (· + 1) between.lineNumber
  simp only [take, between.pending]
  rcases free with free | free <;> rw [free]
  · exact ⟨number, between.inBlock, between.pending, between.dependencies⟩
  · exact ⟨number, between.inBlock, between.pending,
      ((dependencies_add []).trans (List.append_nil _)).trans between.dependencies⟩

/-- Lines that ask for nothing only move the lines below. -/
theorem ofLines_append_of_quiet (single : HasSingleTargets language) {quiet : List (List Char)}
    (areQuiet : ∀ line ∈ quiet, IsQuiet language line) (lines : List (List Char)) :
    ofLines language fileId (quiet ++ lines) =
      (ofLines language fileId lines).map (moved quiet.length) := by
  have between : ∀ {scan : Scan} {count : Nat}, scan.IsBetween count [] →
      (quiet.foldl (Scan.take language fileId) scan).IsBetween (count + quiet.length) [] := by
    induction quiet with
    | nil => exact fun between => between
    | cons line quiet induction =>
        intro scan count between
        rw [List.forall_mem_cons] at areQuiet
        rw [List.foldl_cons, List.length_cons, Nat.add_comm quiet.length, ← Nat.add_assoc]
        exact induction areQuiet.2 (between.take_of_quiet areQuiet.1)
  have behind := between Scan.isBetween_start
  rw [Nat.zero_add] at behind
  rw [ofLines, List.foldl_append, behind.finish single lines, List.nil_append]

end SourceIndex.Dependency
