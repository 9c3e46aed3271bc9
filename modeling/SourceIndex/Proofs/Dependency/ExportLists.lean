import Mathlib.Data.Bool.AllAny
import SourceIndex.Proofs.Dependency.Joining

/-! Lists of local names that a script exports, over several lines. Only the name of another file
ends a statement that goes on over several lines, and such a list has none: the list takes the lines
below along, up to the next one that ends with such a name, and what these ask for is lost. -/

namespace SourceIndex.Dependency

open SourceIndex.Language Pattern

/-! ## What reads an export list -/

/-- A statement that starts with a list of names to export. -/
def exportedText (names rest : List Char) : List Char :=
  "export \x7b".toList ++ names ++ '\x7d' :: ';' :: rest

theorem eq_of_append_cons {front other rest otherRest : List Char} {mark : Char}
    (first : ∀ character ∈ front, character ≠ mark)
    (otherFirst : ∀ character ∈ other, character ≠ mark)
    (same : front ++ mark :: rest = other ++ mark :: otherRest) : rest = otherRest := by
  have behind : ∀ {front rest : List Char}, (∀ character ∈ front, character ≠ mark) →
      (front ++ mark :: rest).dropWhile (· ≠ mark) = mark :: rest := by
    intro front rest first
    rw [List.dropWhile_append_of_pos (by simpa using first),
      List.dropWhile_cons_of_neg (by simp)]
  have tails := congrArg (List.dropWhile (· ≠ mark)) same
  rw [behind first, behind otherFirst] at tails
  exact (List.cons.inj tails).2

/-- A list of names between braces ends at the first closing one. -/
theorem rest_of_reads_nameList {cursor reached : Cursor} {names rest : List Char}
    (reads : Ecmascript.nameList.Reads cursor reached)
    (isRest : cursor.rest = '\x7b' :: names ++ '\x7d' :: rest)
    (noBrace : ∀ character ∈ names, character ≠ '\x7d') : reached.rest = rest := by
  rcases reads.seq_inv with ⟨inside, opening, reads⟩
  rcases reads.seq_inv with ⟨behind, list, closing⟩
  rcases list.named_inv with ⟨middle, _, run, -, rfl⟩
  rcases run.run_inv with ⟨stretch, inSet, spans⟩
  have notBrace : ∀ character ∈ stretch, character ≠ '\x7d' := by
    rintro _ member rfl
    exact absurd (inSet _ member) (by decide)
  have parts : '\x7b' :: (names ++ '\x7d' :: rest) =
      '\x7b' :: (stretch ++ '\x7d' :: reached.rest) :=
    calc '\x7b' :: (names ++ '\x7d' :: rest)
      _ = cursor.rest := isRest.symm
      _ = '\x7b' :: inside.rest := opening.text_rest
      _ = '\x7b' :: (stretch ++ middle.rest) := congrArg _ spans.rest
      _ = '\x7b' :: (stretch ++ '\x7d' :: reached.rest) :=
          congrArg (fun rest => '\x7b' :: (stretch ++ rest)) closing.text_rest
  exact (eq_of_append_cons noBrace notBrace (List.cons.inj parts).2).symm

/-- A list of names to export that ends in a semicolon has no source. -/
theorem not_reads_reExport {names rest : List Char} {rule : ImportRule} {reached : Cursor}
    (noBrace : ∀ character ∈ names, character ≠ '\x7d')
    (member : rule ∈ Ecmascript.importRules) (isExport : rule.kind = .reExport) :
    ¬ rule.pattern.Reads (Cursor.start (exportedText names rest)) reached := by
  intro reads
  simp only [Ecmascript.importRules, List.mem_cons, List.not_mem_nil, or_false] at member
  rcases member with rfl | rfl | rfl | rfl | rfl | rfl | rfl | rfl <;> cases isExport
  let list := '\x7b' :: names ++ '\x7d' :: ';' :: rest
  -- Up to the list there is only one way to read.
  rcases reads.seq_inv with ⟨start, isStart, reads⟩
  cases isStart
  rcases reads.seq_inv with ⟨front, isFront, reads⟩
  have atFront : front.rest = "export ".toList ++ list := isFront.run_rest rfl
  rcases reads.seq_inv with ⟨gapEnd, isWord, reads⟩
  rcases isWord.seq_inv with ⟨wordEnd, isExport, isGap⟩
  have behindExport : wordEnd.rest = ' ' :: list :=
    List.append_cancel_left (isExport.text_rest.symm.trans atFront)
  rcases isGap.seq_inv with ⟨gapStart, isBlank, isRun⟩
  rcases isBlank.oneOf_inv with ⟨blank, -, spans⟩
  have behindBlank : gapStart.rest = list :=
    (List.cons.inj (spans.rest.symm.trans behindExport)).2
  have behindGap : gapEnd.rest = list := by
    rw [isRun.run_rest (by rw [behindBlank]; rfl), behindBlank]
  rcases reads.seq_inv with ⟨listStart, isType, reads⟩
  have atList : listStart.rest = list := by
    cases isType with
    | first isType =>
        rcases isType.seq_inv with ⟨typeEnd, isType, -⟩
        have same : 't' = '\x7b' := (List.cons.inj (isType.text_rest.symm.trans behindGap)).1
        exact absurd same (by decide)
    | second isNothing =>
        cases isNothing
        exact behindGap
  rcases reads.seq_inv with ⟨listEnd, isList, reads⟩
  have behindList : listEnd.rest = ';' :: rest := by
    cases isList with
    | first isStar =>
        rcases isStar.seq_inv with ⟨starEnd, isStar, -⟩
        have same : '*' = '\x7b' := (List.cons.inj (isStar.text_rest.symm.trans atList)).1
        exact absurd same (by decide)
    | second isList => exact rest_of_reads_nameList isList atList noBrace
  -- The list ends in front of a semicolon, and no source follows.
  rcases reads.seq_inv with ⟨sourceStart, isRun, reads⟩
  rcases reads.seq_inv with ⟨sourceEnd, isFrom, -⟩
  have atSource : sourceStart.rest = ';' :: rest := by
    rw [isRun.run_rest (by rw [behindList]; rfl), behindList]
  have same : 'f' = ';' := (List.cons.inj (isFrom.text_rest.symm.trans atSource)).1
  exact absurd same (by decide)

/-- What starts with a list of names to export, without a source, is no import: there may only be a
call behind the list. -/
theorem isCall_of_find?_exportedText {names rest : List Char} {rule : ImportRule}
    {found : Pattern.Match} (noBrace : ∀ character ∈ names, character ≠ '\x7d')
    (member : rule ∈ Ecmascript.importRules)
    (matched : rule.pattern.find? (exportedText names rest) = some found) :
    rule.kind = .dynamicCall ∨ rule.kind = .requireCall := by
  have imports : ∀ {pattern}, (Pattern.seq .textStart pattern).find? (exportedText names rest) =
      some found → (Pattern.seq .textStart pattern).matchAt none (exportedText names rest) 0 ≠
        none := by
    intro pattern matched none
    rw [find?_of_textStart, none] at matched
    cases matched
  have isRule := member
  simp only [Ecmascript.importRules, List.mem_cons, List.not_mem_nil, or_false] at member
  rcases member with rfl | rfl | rfl | rfl | rfl | rfl | rfl | rfl
  · exact absurd rfl (imports matched)
  · exact absurd rfl (imports matched)
  · exact absurd rfl (imports matched)
  · exact absurd rfl (imports matched)
  · exact absurd rfl (imports matched)
  · exact .inl rfl
  · rcases exists_reads_of_textStart matched with ⟨reached, reads⟩
    exact absurd reads (not_reads_reExport noBrace isRule rfl)
  · exact .inr rfl

/-! ## Files that start with an export list -/

variable {language : Language} {fileId : String}

theorem kind_of_ofMatch?_eq_some {kind : ImportKind} {isLocal bindsModule : Bool}
    {statement : Statement} {found : Match} {dependency : Dependency}
    (made : ofMatch? language fileId kind isLocal bindsModule statement found = some dependency) :
    dependency.kind = kind := by
  unfold ofMatch? at made
  rw [Option.bind_eq_bind, Option.bind_eq_some_iff] at made
  rcases made with ⟨target, -, made⟩
  simp only at made
  split at made
  · cases made
  · cases made
    rfl

/-- A list that is exported and the lines that are joined with it make one call at most. -/
theorem ofStatement_of_exportedText (script : IsScript language) {statement : Statement}
    {names rest : List Char} (isText : statement.text = exportedText names rest)
    (noBrace : ∀ character ∈ names, character ≠ '\x7d') :
    (ofStatement language fileId statement).length ≤ 1 ∧
      ∀ dependency ∈ ofStatement language fileId statement, dependency.line = statement.line ∧
        (dependency.kind = .dynamicCall ∨ dependency.kind = .requireCall) := by
  have here := @numberedOn_ofStatement language fileId statement
  cases fits : fittingRule? language statement.text with
  | none =>
      rw [ofStatement_of_none fits]
      exact ⟨Nat.zero_le _, List.forall_mem_nil _⟩
  | some fitting =>
      rcases of_fittingRule?_eq_some fits with ⟨member, matched⟩
      rw [ofStatement_of_fits fits (script.hasSingleTargets _ member)] at here ⊢
      rw [script.imports] at member
      rw [isText] at matched
      refine ⟨Option.length_toList_le, fun dependency made => ⟨here.line_eq made, ?_⟩⟩
      rw [kind_of_ofMatch?_eq_some (Option.mem_toList.mp made)]
      exact isCall_of_find?_exportedText noBrace member matched

theorem joinedText_closing : joinedText ["\x7d;".toList] = [' ', '\x7d', ';'] := by decide

section

variable (script : IsScript language) {lines : List (List Char)}
  (noQuotes : ∀ line ∈ lines, ∀ character ∈ line, character ∉ scriptQuotes)
  (rest : List (List Char))
include script noQuotes

def exportOpening : Statement := ⟨"export \x7b".toList, 1⟩

omit noQuotes in
theorem ofLines_exportOpening :
    ofLines language fileId (exportOpening.text :: rest) =
      ofStatement language fileId (exportOpening.joined language rest) ++
        (ofLines language fileId (rest.drop (exportOpening.reach language rest))).map
          (moved (1 + exportOpening.reach language rest)) := by
  have opening : IsOpening language exportOpening.text :=
    script.isOpening (by decide) (by decide) (by decide +kernel)
  have trimmed : (⟨Text.trim exportOpening.text, 1⟩ : Statement) = exportOpening := rfl
  rw [ofLines_of_opening script.hasSingleTargets opening, trimmed]

omit script noQuotes in
theorem text_extend_exported (names : List (List Char)) :
    ((exportOpening.extend (names ++ ["\x7d;".toList])).extend rest).text =
      exportedText (joinedText names ++ [' ']) (joinedText rest) := by
  have parts : ∀ opening : List Char,
      opening ++ (joinedText names ++ [' ', '\x7d', ';']) ++ joinedText rest =
        opening ++ (joinedText names ++ [' ']) ++ '\x7d' :: ';' :: joinedText rest := by simp
  rw [Statement.extend, Statement.extend, joinedText_append, joinedText_closing]
  exact parts _

/-- A list without quotes takes lines below it along. -/
theorem ofLines_export_of_fits (fits : (exportOpening.extend lines).Fits) :
    let list := exportOpening.extend lines
    let reach := list.reach language rest
    ofLines language fileId (exportOpening.text :: (lines ++ rest)) =
      ofStatement language fileId (list.extend (rest.take reach)) ++
        (ofLines language fileId (rest.drop reach)).map (moved (lines.length + 1 + reach)) := by
  have goesOn : ∀ line ∈ lines, closesStatement language line = false :=
    fun line isLine => script.closesStatement_eq_false (noQuotes line isLine)
  rcases Statement.joined_append goesOn fits rest with ⟨joined, reaches⟩
  intro list reach
  rw [ofLines_exportOpening script, joined, reaches, Statement.joined_eq_extend,
    List.drop_length_add_append, ← Nat.add_assoc, Nat.add_comm 1]

/-- A list without quotes that is too large asks for nothing and takes nothing along. -/
theorem ofLines_export_of_large
    (noBrace : ∀ line ∈ lines, ∀ character ∈ line, character ≠ '\x7b')
    (large : ¬ (exportOpening.extend lines).Fits) :
    ofLines language fileId (exportOpening.text :: (lines ++ rest)) =
      (ofLines language fileId rest).map (moved (lines.length + 1)) := by
  have goesOn : ∀ line ∈ lines, closesStatement language line = false :=
    fun line isLine => script.closesStatement_eq_false (noQuotes line isLine)
  rcases Statement.exists_joined_of_not_fits goesOn (by decide) large rest with
    ⟨first, later, rfl, joined, reaches⟩
  have nothing : ofStatement language fileId (exportOpening.extend first) = [] := by
    have inLines : ∀ character ∈ joinedText first, character ∉ scriptQuotes :=
      forall_mem_joinedText (by decide) fun line isLine =>
        noQuotes line (List.mem_append_left _ isLine)
    have opening : ∀ character ∈ exportOpening.text, character ∉ scriptQuotes :=
      List.all_iff_forall_prop.mp (by decide)
    exact script.ofStatement_eq_nil (List.forall_mem_append.mpr ⟨opening, inLines⟩)
  have quiet : ∀ line ∈ later, IsQuiet language line := fun line isLine =>
    script.isQuiet (noQuotes line (List.mem_append_right _ isLine))
      (noBrace line (List.mem_append_right _ isLine))
  rw [ofLines_exportOpening script, joined, reaches, nothing, List.nil_append, List.append_assoc,
    List.drop_left, ofLines_append_of_quiet script.hasSingleTargets quiet, map_moved_moved,
    List.length_append]
  congr 2
  omega

end

/-- A file that starts with a list of names to export has the dependencies of the lines below, but
for those lines that the list takes along: up to the next name of another file, or until the text
has grown too large, nothing is found but a call. Only a list that is too large itself takes
nothing along. -/
theorem extractDependencies_exportList (member : language ∈ [javascript, typescript])
    (fileId content : String) {names rest : List (List Char)}
    (isFile : Text.lines content.toList =
      "export \x7b".toList :: (names ++ "\x7d;".toList :: rest))
    (plain : ∀ name ∈ names, ∀ character ∈ name, character ∉ '\x7b' :: '\x7d' :: scriptQuotes) :
    let list := exportOpening.extend (names ++ ["\x7d;".toList])
    let length := names.length + 2
    if list.Fits then
      let reach := list.reach language rest
      let calls := ofStatement language fileId (list.extend (rest.take reach))
      extractDependencies language fileId content =
          calls ++ (ofLines language fileId (rest.drop reach)).map (moved (length + reach)) ∧
        calls.length ≤ 1 ∧ ∀ dependency ∈ calls, dependency.line = 1 ∧
          (dependency.kind = .dynamicCall ∨ dependency.kind = .requireCall)
    else
      extractDependencies language fileId content =
        (ofLines language fileId rest).map (moved length) := by
  intro list length
  have script := isScript_of_mem member
  have closing : ∀ character ∈ "\x7d;".toList, character ∉ '\x7b' :: scriptQuotes :=
    List.all_iff_forall_prop.mp (by decide)
  have listed : ∀ line ∈ names ++ ["\x7d;".toList],
      ∀ character ∈ line, character ∉ '\x7b' :: scriptQuotes := by
    intro line isLine character inLine
    rcases List.mem_append.mp isLine with isName | isClosing
    · have plain := plain line isName character inLine
      simp only [List.mem_cons, not_or] at plain ⊢
      exact ⟨plain.1, plain.2.2⟩
    · rw [List.mem_singleton.mp isClosing] at inLine
      exact closing character inLine
  have noQuotes : ∀ line ∈ names ++ ["\x7d;".toList], ∀ character ∈ line,
      character ∉ scriptQuotes := fun line isLine character inLine isQuote =>
    listed line isLine character inLine (List.mem_cons_of_mem _ isQuote)
  have isLength : (names ++ ["\x7d;".toList]).length + 1 = length := by
    rw [List.length_append]
    rfl
  have whole : extractDependencies language fileId content =
      ofLines language fileId (exportOpening.text :: (names ++ ["\x7d;".toList] ++ rest)) := by
    rw [← List.append_cons]
    exact congrArg (ofLines language fileId) isFile
  split
  · next fits =>
      let taken := rest.take (list.reach language rest)
      have isText := text_extend_exported taken names
      have noBrace : ∀ character ∈ joinedText names ++ [' '], character ≠ '\x7d' := by
        refine List.forall_mem_append.mpr ⟨forall_mem_joinedText (by decide) ?_,
          List.forall_mem_singleton.mpr (by decide)⟩
        rintro line isLine _ inLine rfl
        exact plain line isLine _ inLine (by simp)
      refine ⟨?_, ofStatement_of_exportedText script isText noBrace⟩
      rw [whole, ← isLength]
      exact ofLines_export_of_fits script noQuotes rest fits
  · next large =>
      have noBrace : ∀ line ∈ names ++ ["\x7d;".toList], ∀ character ∈ line,
          character ≠ '\x7b' := by
        rintro line isLine _ inLine rfl
        exact listed line isLine _ inLine List.mem_cons_self
      rw [whole, ← isLength]
      exact ofLines_export_of_large script noQuotes rest noBrace large

/-- An import below a list of names to export is lost. -/
theorem extractDependencies_exportList_import :
    extractDependencies .javascript "f" "export \x7b\n  a,\n\x7d;\nimport b from 'b';\n" = [] ∧
      (extractDependencies .javascript "f" "import b from 'b';\n").map (·.target) = ["b"] := by
  have isFile : Text.lines "export \x7b\n  a,\n\x7d;\nimport b from 'b';\n".toList =
      "export \x7b".toList ::
        (["  a,".toList] ++ "\x7d;".toList :: ["import b from 'b';".toList]) := by decide
  have plain : ∀ name ∈ ["  a,".toList], ∀ character ∈ name,
      character ∉ '\x7b' :: '\x7d' :: scriptQuotes :=
    List.forall_mem_singleton.mpr (List.all_iff_forall_prop.mp (by decide))
  have whole := @extractDependencies_exportList .javascript List.mem_cons_self "f" _ _ _ isFile plain
  dsimp only at whole
  rw [if_pos (by decide)] at whole
  refine ⟨whole.1.trans ?_, by decide +kernel⟩
  decide +kernel

end SourceIndex.Dependency
