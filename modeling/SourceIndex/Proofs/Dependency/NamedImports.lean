import SourceIndex.Language.Python
import SourceIndex.Proofs.Code.Entries
import SourceIndex.Proofs.Dependency.Joining
import SourceIndex.Proofs.Pattern.Preference

/-! Imports that list names over several lines. Where no brackets stand in a list, its entries are
what stands between the commas, and each entry is read for itself. -/

namespace SourceIndex.Dependency

open SourceIndex.Language Pattern

/-! ## Lists of names -/

/-- An entry without the word that marks a type. -/
def bareEntry (entry : List Char) : List Char :=
  Text.trim ((Text.dropLead? "type ".toList entry).getD entry)

/-- The name that an entry of a list imports, if it is one. -/
def nameOf? (entry : List Char) : Option ImportedName := do
  let entry ← Option.guard (! ·.isEmpty) (Text.trim entry)
  let bare ← Option.guard (· ≠ ['*']) (bareEntry entry)
  let (name, other) ← Option.guard (! ·.1.isEmpty) (splitAlias bare)
  some (importedName name other)

theorem readNames_eq (list : List Char) :
    (readNames list).1 = (splitListFrom 0 list).filterMap nameOf? := by
  rw [readNames, splitList]
  simp only [← List.filterMap_eq_filter, ← List.filterMap_eq_map, List.filterMap_filterMap]
  apply congrArg (List.filterMap · _)
  funext entry
  simp only [Function.comp_apply, Option.bind_some, Option.bind_assoc]
  rfl

/-- Blanks at the end of an entry do not matter. -/
theorem nameOf?_append_blanks {blanks : List Char}
    (blank : ∀ character ∈ blanks, Text.isBlank character = true) (entry : List Char) :
    nameOf? (entry ++ blanks) = nameOf? entry := by
  rw [nameOf?, nameOf?, Text.trim_append_blanks blank]

theorem readNames_of_no_bracket {list : List Char}
    (noBracket : ∀ character ∈ list, character ∉ listBrackets) :
    (readNames list).1 = (Text.splitAll (· == ',') list).filterMap nameOf? := by
  rw [readNames_eq, splitListFrom_of_no_bracket noBracket]

/-! ## Matches -/

/-- Whether a match has a target and a list of names, and nothing else. -/
structure ReadsNames (found : Match) (target list : List Char) : Prop where
  path : found.text? "path" = some target
  names : found.text? "names" = some list
  default : found.text? "default" = none
  whole : found.text? "ns" = none
  other : found.text? "alias" = none

/-- A match with a target that is not blank makes a dependency that imports the names of its
list. -/
theorem ReadsNames.exists_ofMatch? {language : Language} {kind : ImportKind} {found : Match}
    {target list : List Char} (fileId : String) (isLocal bindsModule : Bool)
    (statement : Statement) (reads : ReadsNames found target list)
    (visible : (Text.trim target).isEmpty = false)
    (binds : ∀ target names,
      bindsLastSegment language.imports kind bindsModule target names = false) :
    ∃ dependency, ofMatch? language fileId kind isLocal bindsModule statement found =
        some dependency ∧
      dependency.target = String.ofList (ImportGrammar.dropWildcards (Text.trim target)) ∧
      dependency.kind = kind ∧ dependency.line = statement.line ∧
      dependency.importedNames = (readNames list).1 := by
  simp only [ofMatch?, reads.path, reads.names, reads.default, reads.whole, reads.other, binds,
    Option.bind_eq_bind, Option.bind_some, visible, Bool.and_false, Bool.false_eq_true, if_false]
  exact ⟨_, rfl, rfl, rfl, rfl, by simp [make]⟩

section

variable {list target rest : List Char} {before : Option Char} {offset : Nat}
  {captures : List (String × Capture)}

theorem prefers_nameList (noBrace : ∀ character ∈ list, character ≠ '\x7d') :
    Prefers Ecmascript.nameList ⟨before, '\x7b' :: (list ++ '\x7d' :: rest), offset, captures⟩
      ⟨some '\x7d', rest, offset + 1 + list.length + 1,
        ("names", ⟨offset + 1, list⟩) :: captures⟩ := by
  have inList : ∀ character ∈ list, (outside ['\x7d']).has character = true := by
    intro character member
    refine (CharacterSet.has_characters ['\x7d'] true character).trans ?_
    simpa using noBrace character member
  have names : Prefers (many (outside ['\x7d']))
      ⟨some '\x7b', list ++ '\x7d' :: rest, offset + 1, captures⟩
      ⟨list.getLast?.or (some '\x7b'), '\x7d' :: rest, offset + 1 + list.length, captures⟩ :=
    .run inList (by rintro _ ⟨⟩; decide)
  exact .seq (.oneOf (by decide))
    (.seq (names.named_of_spans ⟨rfl, rfl, rfl⟩) (.oneOf (by decide)))

theorem prefers_quotedPath {quote : Char} (isQuote : quote ∈ scriptQuotes)
    (noQuotes : ∀ character ∈ target, character ∉ scriptQuotes) (some_ : target ≠ []) :
    Prefers Ecmascript.quotedPath ⟨before, quote :: (target ++ quote :: rest), offset, captures⟩
      ⟨some quote, rest, offset + 1 + target.length + 1,
        ("path", ⟨offset + 1, target⟩) :: captures⟩ := by
  have outsideQuotes : ∀ character, (outside ['\'', '\x60', '"']).has character =
      ! decide (character ∈ scriptQuotes) := by
    intro character
    refine (CharacterSet.has_characters ['\'', '\x60', '"'] true character).trans ?_
    simp [scriptQuotes, or_comm]
  have inPath : ∀ character ∈ target, (outside ['\'', '\x60', '"']).has character = true := by
    intro character member
    rw [outsideQuotes, decide_eq_false (noQuotes character member)]
    rfl
  have quoted : quoteSet.has quote = true := (has_quoteSet quote).trans (decide_eq_true isQuote)
  have path : Prefers (several (outside ['\'', '\x60', '"']))
      ⟨some quote, target ++ quote :: rest, offset + 1, captures⟩
      ⟨target.getLast?.or (some quote), quote :: rest, offset + 1 + target.length, captures⟩ := by
    refine .several inPath some_ ?_
    rintro _ ⟨⟩
    rw [outsideQuotes, decide_eq_true isQuote]
    rfl
  exact .seq (.oneOf quoted) (.seq (path.named_of_spans ⟨rfl, rfl, rfl⟩) (.oneOf quoted))

end

/-- The rule for imports of a list of names in scripts. -/
def scriptRule : ImportRule := Ecmascript.importRules[1]

/-- An import statement is read as its target and its list of names. -/
theorem exists_find?_scriptRule {list target : List Char} {quote : Char} (tail : List Char)
    (isQuote : quote ∈ scriptQuotes) (noBrace : ∀ character ∈ list, character ≠ '\x7d')
    (noQuotes : ∀ character ∈ target, character ∉ scriptQuotes) (some_ : target ≠ []) :
    ∃ found, scriptRule.pattern.find? ("import".toList ++ ' ' :: '\x7b' :: (list ++
        '\x7d' :: ' ' :: ("from".toList ++ ' ' :: quote :: (target ++ quote :: tail)))) =
        some found ∧ ReadsNames found target list := by
  have noBlank := isBlank_scriptQuote isQuote
  have reaches : ∃ stop start listStart, Prefers scriptRule.pattern ⟨none, _, 0, []⟩
      ⟨some quote, tail, stop, [("path", ⟨start, target⟩), ("names", ⟨listStart, list⟩)]⟩ :=
    ⟨_, _, _, .seq (.textStart _ _ _)
      (.seq (.run_nil (by rintro _ ⟨⟩; decide))
        (.seq (.word "import" (by rintro _ ⟨⟩; decide))
          (.seq (.second (fun _ => rfl) (.nothing _))
            (.seq (prefers_nameList noBrace)
              (.seq (.blank (by rintro _ ⟨⟩; decide))
                (.seq (.text "from")
                  (.seq (.blank (by rintro _ ⟨⟩; exact noBlank))
                    (prefers_quotedPath isQuote noQuotes some_))))))))⟩
  rcases reaches with ⟨stop, start, listStart, prefers⟩
  exact ⟨_, find?_of_prefers prefers, rfl, rfl, rfl, rfl, rfl⟩

/-! ## Python -/

/-- Whether a text is the name of a module: words and dots, without blanks. -/
structure IsModuleName (name : List Char) : Prop where
  nonempty : name ≠ []
  words : ∀ character ∈ name, character = '.' ∨ Text.isWord character = true
  noBlank : ∀ character ∈ name, Text.isBlank character = false

namespace IsModuleName

variable {name : List Char} (isName : IsModuleName name)
include isName

theorem inSet : ∀ character ∈ name, (among [.word, '.']).has character = true := by
  intro character member
  rcases isName.words character member with rfl | isWord
  · decide
  · simp [among, CharacterSet.has, CharacterItem.has, isWord]

theorem noBlank_head (back : List Char) : ∀ character, (name ++ back).head? = some character →
    Text.isBlank character = false := by
  intro character isFirst
  rcases List.exists_cons_of_ne_nil isName.nonempty with ⟨first, others, rfl⟩
  cases isFirst
  exact isName.noBlank _ List.mem_cons_self

end IsModuleName

/-- The rule for imports of a list of names in Python. -/
def pythonRule : ImportRule := Python.imports.rules[0]

def modulePath : Pattern :=
  anyOf [all [text ".", many (among ['.']), many (among [.word, '.'])],
    several (among [.word, '.'])]

section

variable {name rest : List Char} {before : Option Char} {offset : Nat}
  {captures : List (String × Capture)}

/-- The dots at the start of a name are read apart from what follows them. -/
theorem prefers_relativePath
    (inName : ∀ character ∈ name, (among [.word, '.']).has character = true)
    (ends : ∀ character, rest.head? = some character → (among [.word, '.']).has character = false) :
    Prefers (all [text ".", many (among ['.']), many (among [.word, '.'])])
      ⟨before, '.' :: (name ++ rest), offset, captures⟩
      ⟨('.' :: name).getLast?.or before, rest, offset + ('.' :: name).length, captures⟩ := by
  let dots := name.takeWhile (among ['.']).has
  let words := name.dropWhile (among ['.']).has
  have parts : name = dots ++ words := List.takeWhile_append_dropWhile.symm
  have dotsEnd : ∀ character, (words ++ rest).head? = some character →
      (among ['.']).has character = false := by
    intro character isNext
    cases isWords : words with
    | nil =>
        rw [isWords] at isNext
        have other := ends character isNext
        simp only [among, CharacterSet.has, List.any_cons, Bool.bne_false,
          Bool.or_eq_false_iff] at other ⊢
        exact other.2
    | cons word words =>
        rw [isWords] at isNext
        cases isNext
        have stops := List.head?_dropWhile_not (among ['.']).has name
        rwa [show name.dropWhile _ = _ from isWords] at stops
  have read : Prefers (all [text ".", many (among ['.']), many (among [.word, '.'])])
      ⟨before, '.' :: (dots ++ (words ++ rest)), offset, captures⟩
      ⟨words.getLast?.or (dots.getLast?.or (some '.')), rest,
        offset + 1 + dots.length + words.length, captures⟩ :=
    .seq (.oneOf (by decide))
      (.seq (.run (fun _ member => List.mem_takeWhile_imp member) dotsEnd)
        (.run (fun character member =>
          inName character ((List.dropWhile_sublist _).mem member)) ends))
  have last : words.getLast?.or (dots.getLast?.or (some '.')) =
      ('.' :: (dots ++ words)).getLast?.or before := by
    rw [List.getLast?_cons, List.getLast?_append]
    cases words.getLast? <;> cases dots.getLast? <;> rfl
  have length : offset + 1 + dots.length + words.length =
      offset + ('.' :: (dots ++ words)).length := by
    rw [List.length_cons, List.length_append]
    omega
  rw [last, length] at read
  rw [parts, List.append_assoc]
  exact read

theorem prefers_modulePath (isName : IsModuleName name) :
    Prefers modulePath ⟨before, name ++ ' ' :: rest, offset, captures⟩
      ⟨name.getLast?.or before, ' ' :: rest, offset + name.length, captures⟩ := by
  have inName := isName.inSet
  have ends : ∀ character, (' ' :: rest).head? = some character →
      (among [.word, '.']).has character = false := by
    rintro _ ⟨⟩
    decide
  cases name with
  | nil => exact absurd rfl isName.nonempty
  | cons first name =>
      by_cases isDot : first = '.'
      · subst isDot
        rw [List.forall_mem_cons] at inName
        exact .first (prefers_relativePath inName.2 ends)
      · have noDot : (CharacterSet.single '.').has first = false :=
          Bool.eq_false_iff.mpr fun has => isDot (CharacterSet.eq_of_has_single has)
        exact .second (Refuses.seq (.oneOf noDot) _) (.several inName (List.cons_ne_nil _ _) ends)

end

/-- Behind a list of names, only the bracket that closes it is read. -/
theorem exists_prefers_listEnd {mark : Char} (isMark : mark ∈ [')', '#']) (rest : List Char) :
    ∃ behind : Option Char → Nat → List (String × Capture) → Cursor,
      ∀ before offset captures,
        Prefers (maybe (text ")")) ⟨before, mark :: rest, offset, captures⟩
          (behind before offset captures) ∧
        (behind before offset captures).captures = captures := by
  simp only [List.mem_cons, List.not_mem_nil, or_false] at isMark
  rcases isMark with rfl | rfl
  · exact ⟨fun _ offset captures => ⟨some ')', rest, offset + 1, captures⟩,
      fun _ _ _ => ⟨.first (.oneOf (by decide)), rfl⟩⟩
  · exact ⟨fun before offset captures => ⟨before, '#' :: rest, offset, captures⟩,
      fun _ _ _ => ⟨.second (.oneOf (by decide)) (.nothing _), rfl⟩⟩

theorem exists_find?_pythonRule {list name : List Char} {mark : Char} (rest : List Char)
    (isName : IsModuleName name) (isMark : mark ∈ [')', '#'])
    (inList : ∀ character ∈ list, character ∉ [')', '#']) :
    ∃ found, pythonRule.pattern.find? ("from".toList ++ ' ' :: (name ++
        ' ' :: ("import".toList ++ ' ' :: '(' :: (list ++ mark :: rest)))) = some found ∧
      ReadsNames found name list := by
  have outsideMarks : ∀ character, (outside [')', '#']).has character =
      ! decide (character ∈ [')', '#']) :=
    fun character => (CharacterSet.has_characters [')', '#'] true character).trans (by simp)
  have stretch : ∀ character ∈ list, (outside [')', '#']).has character = true := by
    intro character member
    rw [outsideMarks, decide_eq_false (inList character member)]
    rfl
  have ends : ∀ character, (mark :: rest).head? = some character →
      (outside [')', '#']).has character = false := by
    rintro _ ⟨⟩
    rw [outsideMarks, decide_eq_true isMark]
    rfl
  rcases exists_prefers_listEnd isMark rest with ⟨behind, closes⟩
  have names : ∀ before offset captures, Prefers (.named "names" (many (outside [')', '#'])))
      ⟨before, list ++ mark :: rest, offset, captures⟩
      ⟨list.getLast?.or before, mark :: rest, offset + list.length,
        ("names", ⟨offset, list⟩) :: captures⟩ := fun _ _ _ =>
    (Prefers.run stretch ends).named_of_spans ⟨rfl, rfl, rfl⟩
  have path : ∀ behind before offset captures, Prefers (.named "path" modulePath)
      ⟨before, name ++ ' ' :: behind, offset, captures⟩
      ⟨name.getLast?.or before, ' ' :: behind, offset + name.length,
        ("path", ⟨offset, name⟩) :: captures⟩ := fun _ _ _ _ =>
    (prefers_modulePath isName).named_of_spans ⟨rfl, rfl, rfl⟩
  have reaches : ∃ reached start listStart, Prefers pythonRule.pattern ⟨none, _, 0, []⟩ reached ∧
      reached.captures = [("names", ⟨listStart, list⟩), ("path", ⟨start, name⟩)] :=
    ⟨_, _, _, .seq (.textStart _ _ _)
      (.seq (.run_nil (by rintro _ ⟨⟩; decide))
        (.seq (.word "from" (isName.noBlank_head _))
          (.seq (path ("import".toList ++ ' ' :: '(' :: (list ++ mark :: rest)) _ _ _)
            (.seq (.gap (by rintro _ ⟨⟩; decide))
              (.seq (.word "import" (by rintro _ ⟨⟩; decide))
                (.seq (.first (.oneOf (by decide)))
                  (.seq (names _ _ _) (closes _ _ _).1))))))),
      (closes _ _ _).2⟩
  rcases reaches with ⟨reached, start, listStart, prefers, isRead⟩
  refine ⟨_, find?_of_prefers prefers, ?_⟩
  rw [isRead]
  exact ⟨rfl, rfl, rfl, rfl, rfl⟩

/-- A list of names ends at the first `#`, or else at its closing bracket. -/
theorem exists_listEnd (list tail : List Char) : ∃ mark ∈ [')', '#'], ∃ rest,
    list ++ ')' :: tail = list.takeWhile (· ≠ '#') ++ mark :: rest := by
  have parts : list = list.takeWhile (· ≠ '#') ++ list.dropWhile (· ≠ '#') :=
    List.takeWhile_append_dropWhile.symm
  cases behind : list.dropWhile (· ≠ '#') with
  | nil =>
      rw [behind, List.append_nil] at parts
      exact ⟨')', by decide, tail, by rw [← parts]⟩
  | cons mark rest =>
      have stops := List.head?_dropWhile_not (· ≠ '#') list
      rw [behind] at stops
      have isMark : mark = '#' := by simpa using stops
      refine ⟨'#', by decide, rest ++ ')' :: tail, ?_⟩
      rw [isMark] at behind
      rw [behind] at parts
      rw [← List.cons_append, ← List.append_assoc, ← parts]

/-- The start of an import opens a statement. -/
theorem occursIn_pythonOpening {name : List Char} (isName : IsModuleName name) :
    Python.imports.continuation.any
      (·.opening.occursIn ("from ".toList ++ name ++ " import (".toList)) = true := by
  have text : "from ".toList ++ name ++ " import (".toList =
      "from".toList ++ ' ' :: (name ++ ' ' :: ("import".toList ++ [' ', '('])) := by simp
  rw [text]
  exact occursIn_of_prefers [] _
    (.seq (.textStart _ _ _)
      (.seq (.run_nil (by rintro _ ⟨⟩; decide))
        (.seq (.word "from" (isName.noBlank_head _))
          (.seq (.several isName.inSet isName.nonempty (by rintro _ ⟨⟩; decide))
            (.seq (.gap (by rintro _ ⟨⟩; decide))
              (.seq (.text "import")
                (.seq (.blank (by rintro _ ⟨⟩; decide))
                  (.seq (.oneOf (by decide))
                    (.seq (.run_nil nofun) (.textEnd _ _ _))))))))))

/-! ## Forms -/

/-- How an import that lists names over several lines starts and ends, what starts a comment in
its lines, and what it asks for. -/
inductive ImportForm : Language → (mark opening closing : List Char) → ImportKind →
    (target : List Char) → Prop
  | script {language : Language} {quote : Char} {target : List Char} (tail : List Char) :
      language ∈ [javascript, typescript] → quote ∈ scriptQuotes →
      (∀ character ∈ target, character ∉ scriptQuotes) → (Text.trim target).isEmpty = false →
      ImportForm language "//".toList "import \x7b".toList
        ("\x7d from ".toList ++ quote :: (target ++ quote :: tail)) .importStatement target
  | python {name : List Char} (tail : List Char) : IsModuleName name →
      ImportForm python ['#'] ("from ".toList ++ name ++ " import (".toList) (')' :: tail)
        .fromStatement name

/-- What does not stand in a line of names: brackets, and the quotes of scripts. -/
def nameStops : List Char := listBrackets ++ scriptQuotes

/-- What of the text of some lines is read as a list of names. Only `#` ends it. -/
def listedText (mark text : List Char) : List Char :=
  if mark = ['#'] then text.takeWhile (· ≠ '#') else text

theorem trim_scriptClosing {quote : Char} (isQuote : quote ∈ scriptQuotes)
    (target tail : List Char) :
    Text.trim ("\x7d from ".toList ++ quote :: (target ++ quote :: tail)) =
      "\x7d from ".toList ++ quote :: (target ++ quote :: Text.trimEnd tail) := by
  have trimmed : Text.IsTrimmed ("\x7d from ".toList ++ quote :: (target ++ [quote])) := by
    refine ⟨rfl, ?_⟩
    rw [← List.cons_append, ← List.append_assoc, List.getLast?_concat, Option.any_some,
      isBlank_scriptQuote isQuote]
    rfl
  have parts := trimmed.trim_append tail
  simpa only [List.append_assoc, List.cons_append, List.nil_append] using parts

namespace ImportForm

variable {language : Language} {mark opening closing target : List Char} {kind : ImportKind}

theorem isOpening (form : ImportForm language mark opening closing kind target) :
    IsOpening language opening ∧ Text.trim opening = opening := by
  cases form with
  | script tail member =>
      exact ⟨(isScript_of_mem member).isOpening (by decide) (by decide) (by decide +kernel),
        by decide⟩
  | python tail isName =>
      have trimmed : Text.IsTrimmed ("from ".toList ++ target ++ " import (".toList) := by
        refine ⟨rfl, ?_⟩
        rw [List.getLast?_append]
        rfl
      exact ⟨⟨rfl, rfl, rfl, occursIn_pythonOpening isName⟩, trimmed.trim_eq⟩

theorem closes (form : ImportForm language mark opening closing kind target) :
    closesStatement language closing = true := by
  cases form with
  | @script _ quote target tail member isQuote =>
      rw [closesStatement, (isScript_of_mem member).imports]
      have noBlank := isBlank_scriptQuote isQuote
      have quoted : quoteSet.has quote = true := (has_quoteSet quote).trans (decide_eq_true isQuote)
      exact occursIn_of_prefers "\x7d ".toList
        ("from".toList ++ ' ' :: (quote :: (target ++ quote :: tail)))
        (.seq (.wordEdge rfl) (.seq (.text "from")
          (.seq (.blank (by rintro _ ⟨⟩; exact noBlank)) (.oneOf quoted))))
  | python tail isName =>
      have bracket : (CharacterSet.single ')').has ')' = true := by decide
      exact occursIn_of_prefers [] (')' :: tail) (.oneOf bracket)

theorem goesOn (form : ImportForm language mark opening closing kind target) {line : List Char}
    (names : ∀ character ∈ line, character ∉ nameStops) :
    closesStatement language line = false := by
  cases form with
  | script tail member =>
      exact (isScript_of_mem member).closesStatement_eq_false fun character inLine isQuote =>
        names character inLine (List.mem_append_right _ isQuote)
  | python tail isName =>
      refine occursIn_eq_false_of_requires (.single ')') (by decide) ?_
      intro character inLine
      rw [Bool.eq_false_iff]
      intro has
      exact names character inLine (CharacterSet.eq_of_has_single has ▸ by decide)

theorem visible (form : ImportForm language mark opening closing kind target) :
    (Text.trim target).isEmpty = false := by
  cases form with
  | script _ _ _ _ visible => exact visible
  | python tail isName =>
      rw [Text.trim_of_no_blank isName.noBlank, List.isEmpty_eq_false_iff]
      exact isName.nonempty

theorem binds (form : ImportForm language mark opening closing kind target) {bindsModule : Bool}
    (path : List Char) (names : List ImportedName) :
    bindsLastSegment language.imports kind bindsModule path names = false := by
  cases form with
  | script tail member =>
      rw [(isScript_of_mem member).imports]
      simp [bindsLastSegment, Ecmascript.imports]
  | python tail isName => simp [bindsLastSegment]

/-- The rule for imports of a list of names is the first one that fits. -/
theorem exists_fitting (form : ImportForm language mark opening closing kind target)
    {list : List Char} (stops : ∀ character ∈ list, character ∉ nameStops) :
    ∃ rule found, fittingRule? language (opening ++ (list ++ Text.trim closing)) =
        some (rule, found) ∧
      rule.splitsTargets = false ∧ rule.kind = kind ∧
      ReadsNames found target (listedText mark list) := by
  cases form with
  | @script _ quote target tail member isQuote noQuotes visible =>
      have noBrace : ∀ character ∈ list, character ≠ '\x7d' := by
        rintro _ member rfl
        exact stops _ member (by decide)
      have nonempty : target ≠ [] := by
        rintro rfl
        cases visible
      rcases exists_find?_scriptRule (Text.trimEnd tail) isQuote noBrace noQuotes nonempty with
        ⟨found, matched, reads⟩
      have typeRule : (Ecmascript.importRules[0]).pattern.find? ("import".toList ++ ' ' :: '\x7b' ::
          (list ++ '\x7d' :: ' ' :: ("from".toList ++ ' ' :: quote ::
            (target ++ quote :: Text.trimEnd tail)))) = none :=
        (find?_of_textStart _ _).trans rfl
      refine ⟨scriptRule, found, ?_, rfl, rfl, reads⟩
      rw [trim_scriptClosing isQuote]
      refine fittingRule?_of_append [Ecmascript.importRules[0]] (Ecmascript.importRules.drop 2)
        ?_ ?_ matched
      · rw [(isScript_of_mem member).imports]
        rfl
      · intro rule isType
        rw [List.mem_singleton.mp isType]
        exact typeRule
  | python tail isName =>
      have noMark : ∀ character ∈ list.takeWhile (· ≠ '#'), character ∉ [')', '#'] := by
        intro character member isMark
        simp only [List.mem_cons, List.not_mem_nil, or_false] at isMark
        rcases isMark with rfl | rfl
        · exact stops _ (List.takeWhile_subset _ member) (by decide)
        · exact absurd (List.mem_takeWhile_imp member) (by decide)
      rcases exists_listEnd list (Text.trimEnd tail) with ⟨mark, isMark, rest, split⟩
      rcases exists_find?_pythonRule rest isName isMark noMark with ⟨found, matched, reads⟩
      have bracket : Text.IsTrimmed [')'] := ⟨rfl, rfl⟩
      have trimmed : Text.trim (')' :: tail) = ')' :: Text.trimEnd tail := bracket.trim_append tail
      refine ⟨pythonRule, found, ?_, rfl, rfl, reads⟩
      rw [trimmed, split]
      refine fittingRule?_of_append [] (Python.imports.rules.drop 1) rfl nofun ?_
      rw [List.append_assoc, List.append_assoc]
      exact matched

/-- An import that lists names has one dependency: its target, and the names that are listed. -/
theorem exists_dependency (form : ImportForm language mark opening closing kind target)
    (fileId : String) (number : Nat) {lines : List (List Char)}
    (names : ∀ line ∈ lines, ∀ character ∈ line, character ∉ nameStops) :
    ∃ dependency,
      ofStatement language fileId ((⟨opening, number⟩ : Statement).extend (lines ++ [closing])) =
        [dependency] ∧
      dependency.target = String.ofList (ImportGrammar.dropWildcards (Text.trim target)) ∧
      dependency.kind = kind ∧ dependency.line = number ∧
      dependency.importedNames =
        (readNames (listedText mark (joinedText lines ++ [' ']))).1 := by
  let statement := (⟨opening, number⟩ : Statement).extend (lines ++ [closing])
  have isText : opening ++ (joinedText lines ++ [' '] ++ Text.trim closing) = statement.text := by
    simp [statement, Statement.extend, joinedText]
  have stops : ∀ character ∈ joinedText lines ++ [' '], character ∉ nameStops :=
    List.forall_mem_append.mpr ⟨forall_mem_joinedText (by decide) names,
      List.forall_mem_singleton.mpr (by decide)⟩
  rcases form.exists_fitting stops with ⟨rule, found, fits, single, rfl, reads⟩
  rw [isText] at fits
  rcases reads.exists_ofMatch? fileId rule.isLocal rule.bindsModule statement form.visible
    form.binds with ⟨dependency, made, shape⟩
  refine ⟨dependency, ?_, shape⟩
  rw [ofStatement_of_fits fits single, made]
  rfl

/-- The only dependency that starts where such an import does. -/
theorem exists_onLine (form : ImportForm language mark opening closing kind target)
    (fileId : String) {content : String} {above lines below : List (List Char)}
    (isFile : Text.lines content.toList = above ++ opening :: (lines ++ closing :: below))
    (free : (above.foldl (Scan.take language fileId) {}).pending = none)
    (fits : ((⟨opening, above.length + 1⟩ : Statement).extend lines).Fits)
    (names : ∀ line ∈ lines, ∀ character ∈ line, character ∉ nameStops) :
    ∃ dependency,
      Scan.onLine (above.length + 1) (extractDependencies language fileId content) =
        [dependency] ∧
      dependency.target = String.ofList (ImportGrammar.dropWildcards (Text.trim target)) ∧
      dependency.kind = kind ∧ dependency.line = above.length + 1 ∧
      dependency.importedNames =
        (readNames (listedText mark (joinedText lines ++ [' ']))).1 := by
  have goesOn : ∀ line ∈ lines, closesStatement language line = false :=
    fun line isLine => form.goesOn (names line isLine)
  rcases form.exists_dependency fileId (above.length + 1) names with ⟨dependency, made, shape⟩
  refine ⟨dependency, ?_, shape⟩
  rw [onLine_of_opening isFile form.isOpening.1 free, form.isOpening.2,
    (Statement.joined_append goesOn fits _).1, Statement.joined_cons_of_closes form.closes,
    Statement.extend_extend, made]

end ImportForm

end SourceIndex.Dependency
