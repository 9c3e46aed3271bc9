import Mathlib.Data.Bool.AllAny
import Mathlib.Data.List.Basic
import SourceIndex.Proofs.Dependency.NamedImports

/-! Comments behind the names of an import. The lines of an import are joined before its names are
read, so that the end of a line no longer ends a comment: in scripts the comment becomes part of an
entry, and in Python the names below it are lost. -/

namespace SourceIndex.Dependency

open SourceIndex.Language

/-- How the list that some lines make is divided at the end of one of them: `front` and `back` are
what the entry at that place has on either side. -/
structure DividesList (above : List (List Char)) (line : List Char) (below : List (List Char))
    (earlier : List (List Char)) (front back : List Char) (later : List (List Char)) : Prop where
  upTo : Text.splitAll (· == ',') (joinedText (above ++ [line])) = earlier ++ [front]
  beyond : Text.splitAll (· == ',') (joinedText below ++ [' ']) = back :: later

section

variable {above below earlier later : List (List Char)} {line front back added mark : List Char}

theorem exists_dividesList (above : List (List Char)) (line : List Char)
    (below : List (List Char)) :
    ∃ earlier front back later, DividesList above line below earlier front back later := by
  rcases List.eq_nil_or_concat' (Text.splitAll (· == ',') (joinedText (above ++ [line]))) with
    none | ⟨earlier, front, upTo⟩
  · exact absurd none (Text.splitAll_ne_nil _ _)
  · rcases List.exists_cons_of_ne_nil
      (Text.splitAll_ne_nil (· == ',') (joinedText below ++ [' '])) with ⟨back, later, beyond⟩
    exact ⟨earlier, front, back, later, upTo, beyond⟩

/-- What is added to a line is added to the text of the lines. -/
theorem joinedText_of_trim {longer : List Char}
    (isAdded : Text.trim longer = Text.trim line ++ added) (above below : List (List Char)) :
    joinedText (above ++ longer :: below) =
      joinedText (above ++ [line]) ++ (added ++ joinedText below) := by
  simp [joinedText, isAdded]

/-- Lines do not get too large without what has been added to one of them. -/
theorem fits_of_added {statement : Statement} {longer : List Char}
    (isAdded : Text.trim longer = Text.trim line ++ added)
    (fits : (statement.extend (above ++ longer :: below)).Fits) :
    (statement.extend (above ++ line :: below)).Fits := by
  have plain : joinedText (above ++ line :: below) =
      joinedText (above ++ [line]) ++ joinedText below := by simp [joinedText]
  simp only [Statement.Fits, Statement.extend, plain, joinedText_of_trim isAdded, byteSize_append]
    at fits ⊢
  omega

/-- What is added at the end of a line is read as part of the entry there. -/
theorem DividesList.names_of_added {longer : List Char}
    (divides : DividesList above line below earlier front back later)
    (isAdded : Text.trim longer = Text.trim line ++ added)
    (noComma : ∀ character ∈ added, character ≠ ',')
    (names : ∀ name ∈ above ++ longer :: below, ∀ character ∈ name, character ∉ nameStops) :
    (readNames (joinedText (above ++ longer :: below) ++ [' '])).1 =
      (earlier ++ (front ++ (added ++ back)) :: later).filterMap nameOf? := by
  have noBracket : ∀ character ∈ joinedText (above ++ longer :: below) ++ [' '],
      character ∉ listBrackets := by
    refine List.forall_mem_append.mpr ⟨forall_mem_joinedText (by decide) ?_,
      List.forall_mem_singleton.mpr (by decide)⟩
    exact fun name isName character member isBracket =>
      names name isName character member (List.mem_append_left _ isBracket)
  have entry : Text.splitAll (· == ',') (added ++ (joinedText below ++ [' '])) =
      (added ++ back) :: later :=
    Text.splitAll_append (fun character member => beq_false_of_ne (noComma character member))
      divides.beyond
  rw [readNames_of_no_bracket noBracket, joinedText_of_trim isAdded, List.append_assoc,
    List.append_assoc, Text.splitAll_append_of_last divides.upTo entry]

theorem listedText_eq_self {text : List Char} (noMark : ∀ character ∈ text, character ≠ '#') :
    listedText mark text = text := by
  rw [listedText]
  split
  · apply List.takeWhile_eq_self_iff.mpr
    simpa using noMark
  · rfl

theorem listedText_append_cons {front back : List Char}
    (noMark : ∀ character ∈ front, character ≠ '#') :
    listedText ['#'] (front ++ '#' :: back) = front := by
  rw [listedText, if_pos rfl, List.takeWhile_append_of_pos (by simpa using noMark)]
  simp

theorem not_mem_of_blank {character : Char} (blank : Text.isBlank character = true) :
    character ∉ ',' :: '#' :: nameStops := by
  have visible : ∀ stop ∈ ',' :: '#' :: nameStops, Text.isBlank stop = false :=
    List.all_iff_forall_prop.mp (by decide)
  intro isStop
  rw [visible character isStop] at blank
  cases blank

/-- Where a comment ends a list, the names below it are lost. -/
theorem DividesList.names_of_end {longer gap comment : List Char}
    (divides : DividesList above line below earlier front back later)
    (isAdded : Text.trim longer = Text.trim line ++ (gap ++ '#' :: comment))
    (blank : ∀ character ∈ gap, Text.isBlank character = true)
    (names : ∀ name ∈ above ++ [line], ∀ character ∈ name, character ∉ '#' :: nameStops) :
    (readNames (listedText ['#'] (joinedText (above ++ longer :: below) ++ [' ']))).1 =
      (earlier ++ [front]).filterMap nameOf? := by
  have listed : ∀ character ∈ joinedText (above ++ [line]) ++ gap,
      character ∉ '#' :: nameStops := by
    refine List.forall_mem_append.mpr ⟨forall_mem_joinedText (by decide) names, ?_⟩
    exact fun character member isStop =>
      not_mem_of_blank (blank character member) (List.mem_cons_of_mem _ isStop)
  have noMark : ∀ character ∈ joinedText (above ++ [line]) ++ gap, character ≠ '#' :=
    fun character member isMark => listed character member (isMark ▸ List.mem_cons_self)
  have noBracket : ∀ character ∈ joinedText (above ++ [line]) ++ gap, character ∉ listBrackets :=
    fun character member isBracket => listed character member
      (List.mem_cons_of_mem _ (List.mem_append_left _ isBracket))
  have noComma : ∀ character ∈ gap, (character == ',') = false := fun character member =>
    beq_false_of_ne fun isComma =>
      not_mem_of_blank (blank character member) (isComma ▸ List.mem_cons_self)
  have parts : joinedText (above ++ longer :: below) ++ [' '] =
      joinedText (above ++ [line]) ++ gap ++ '#' :: (comment ++ joinedText below ++ [' ']) := by
    simp [joinedText_of_trim isAdded]
  have split := Text.splitAll_append_of_last divides.upTo (Text.splitAll_of_none noComma)
  rw [parts, listedText_append_cons noMark, readNames_of_no_bracket noBracket, split,
    List.filterMap_append, List.filterMap_append, List.filterMap_cons, List.filterMap_cons,
    nameOf?_append_blanks blank]

/-! ## Commented lines -/

variable {space comment : List Char}

/-- What a comment adds to what is left of a line: a gap, its mark and its text. -/
theorem exists_gap (isMark : Text.IsTrimmed mark)
    (isSpace : ∀ character ∈ space, Text.isBlank character = true) (line comment : List Char) :
    ∃ gap, (∀ character ∈ gap, Text.isBlank character = true) ∧
      Text.trim (line ++ space ++ mark ++ comment) =
        Text.trim line ++ (gap ++ mark ++ Text.trimEnd comment) := by
  rcases Text.exists_trim_append isMark (line ++ space) comment with ⟨gap, blank, trimmed⟩
  refine ⟨gap, blank, ?_⟩
  rw [trimmed, Text.trim_append_blanks isSpace]
  simp only [List.append_assoc]

theorem forall_mem_commented {holds : Char → Prop}
    (names : ∀ name ∈ above ++ line :: below, ∀ character ∈ name, holds character)
    (inSpace : ∀ character ∈ space, holds character) (inMark : ∀ character ∈ mark, holds character)
    (inComment : ∀ character ∈ comment, holds character) :
    ∀ name ∈ above ++ (line ++ space ++ mark ++ comment) :: below, ∀ character ∈ name,
      holds character := by
  simp only [List.forall_mem_append, List.forall_mem_cons] at names ⊢
  exact ⟨names.1, ⟨⟨⟨names.2.1, inSpace⟩, inMark⟩, inComment⟩, names.2.2⟩

end

variable {language : Language} {mark opening closing target : List Char} {kind : ImportKind}

theorem ImportForm.mark_cases (form : ImportForm language mark opening closing kind target) :
    mark = ['#'] ∨ mark = ['/', '/'] := by
  cases form with
  | script => exact .inr rfl
  | python => exact .inl rfl

/-- A comment behind the names on a line of an import leaves the target, the kind and the line of
the dependency as they are, but not the names: in scripts, what has been added to the line is read
as part of the entry at its end, and in Python all entries below are lost, together with what that
entry has there. -/
theorem importedNames_of_comment
    (form : ImportForm language mark opening closing kind target) (fileId plain commented : String)
    {start above below rest : List (List Char)} {line space comment : List Char}
    (isPlain : Text.lines plain.toList =
      start ++ opening :: (above ++ line :: below ++ closing :: rest))
    (isCommented : Text.lines commented.toList =
      start ++ opening :: (above ++ (line ++ space ++ mark ++ comment) :: below ++ closing :: rest))
    (free : (start.foldl (Scan.take language fileId) {}).pending = none)
    (fits : ((⟨opening, start.length + 1⟩ : Statement).extend
      (above ++ (line ++ space ++ mark ++ comment) :: below)).Fits)
    (names : ∀ name ∈ above ++ line :: below, ∀ character ∈ name, character ∉ '#' :: nameStops)
    (isSpace : ∀ character ∈ space, Text.isBlank character = true)
    (isComment : ∀ character ∈ comment, character ∉ ',' :: nameStops) :
    ∃ dependency other earlier front back later added,
      Scan.onLine (start.length + 1) (extractDependencies language fileId plain) = [dependency] ∧
      Scan.onLine (start.length + 1) (extractDependencies language fileId commented) = [other] ∧
      other.target = dependency.target ∧ other.kind = dependency.kind ∧
      other.line = dependency.line ∧
      DividesList above line below earlier front back later ∧
      Text.trim (line ++ space ++ mark ++ comment) = Text.trim line ++ added ∧
      dependency.importedNames = (earlier ++ (front ++ back) :: later).filterMap nameOf? ∧
      other.importedNames =
        (if mark = ['#'] then earlier ++ [front]
          else earlier ++ (front ++ (added ++ back)) :: later).filterMap nameOf? := by
  have isMark : Text.IsTrimmed mark ∧ ∀ character ∈ mark, character ∉ ',' :: nameStops := by
    rcases form.mark_cases with rfl | rfl
    · exact ⟨⟨rfl, rfl⟩, List.all_iff_forall_prop.mp (by decide)⟩
    · exact ⟨⟨rfl, rfl⟩, List.all_iff_forall_prop.mp (by decide)⟩
  rcases exists_gap isMark.1 isSpace line comment with ⟨gap, blank, isAdded⟩
  have plainNames : ∀ name ∈ above ++ line :: below, ∀ character ∈ name, character ∉ nameStops :=
    fun name isName character member isStop =>
      names name isName character member (List.mem_cons_of_mem _ isStop)
  have commentedNames : ∀ name ∈ above ++ (line ++ space ++ mark ++ comment) :: below,
      ∀ character ∈ name, character ∉ nameStops :=
    forall_mem_commented plainNames
      (fun character member isStop => not_mem_of_blank (isSpace character member)
        (List.mem_cons_of_mem _ (List.mem_cons_of_mem _ isStop)))
      (fun character member isStop => isMark.2 character member (List.mem_cons_of_mem _ isStop))
      (fun character member isStop => isComment character member (List.mem_cons_of_mem _ isStop))
  have noComma : ∀ character ∈ gap ++ mark ++ Text.trimEnd comment, character ≠ ',' := by
    rcases Text.exists_trimEnd comment with ⟨back, parts, -⟩
    simp only [List.forall_mem_append]
    refine ⟨⟨?_, ?_⟩, ?_⟩
    · exact fun character member isComma =>
        not_mem_of_blank (blank character member) (isComma ▸ List.mem_cons_self)
    · exact fun character member isComma =>
        isMark.2 character member (isComma ▸ List.mem_cons_self)
    · exact fun character member isComma =>
        isComment character (parts ▸ List.mem_append_left _ member) (isComma ▸ List.mem_cons_self)
  rcases form.exists_onLine fileId isPlain free (fits_of_added isAdded fits) plainNames with
    ⟨dependency, isOne, target, kind, line_, listed⟩
  rcases form.exists_onLine fileId isCommented free fits commentedNames with
    ⟨other, isOther, otherTarget, otherKind, otherLine, otherListed⟩
  rcases exists_dividesList above line below with ⟨earlier, front, back, later, divides⟩
  refine ⟨dependency, other, earlier, front, back, later, gap ++ mark ++ Text.trimEnd comment,
    isOne, isOther, otherTarget.trans target.symm, otherKind.trans kind.symm,
    otherLine.trans line_.symm, divides, isAdded, ?_, ?_⟩
  · have noMark : ∀ character ∈ joinedText (above ++ line :: below) ++ [' '], character ≠ '#' := by
      refine List.forall_mem_append.mpr ⟨forall_mem_joinedText (by decide) ?_,
      List.forall_mem_singleton.mpr (by decide)⟩
      exact fun name isName character member isMark =>
        names name isName character member (isMark ▸ List.mem_cons_self)
    rw [listed, listedText_eq_self noMark]
    exact divides.names_of_added (List.append_nil _).symm nofun plainNames
  · rw [otherListed]
    rcases form.mark_cases with rfl | rfl
    · have upToLine : ∀ name ∈ above ++ [line], ∀ character ∈ name, character ∉ '#' :: nameStops :=
        fun name isName => names name (List.append_cons _ _ below ▸ List.mem_append_left _ isName)
      rw [List.append_assoc gap] at isAdded
      rw [if_pos rfl]
      exact divides.names_of_end isAdded blank upToLine
    · exact divides.names_of_added isAdded noComma commentedNames

/-- A comment behind the first name of a Python import takes the second one away. -/
theorem importedNames_of_comment_second :
    ∃ dependency other,
      Scan.onLine 1 (extractDependencies .python "f" "from m import (\n    a,\n    b,\n)\n") =
        [dependency] ∧
      Scan.onLine 1
          (extractDependencies .python "f" "from m import (\n    a,  # first\n    b,\n)\n") =
        [other] ∧
      other.target = dependency.target ∧
      dependency.importedNames.map (·.name) = ["a", "b"] ∧
      other.importedNames.map (·.name) = ["a"] := by
  have form : ImportForm .python ['#'] ("from ".toList ++ ['m'] ++ " import (".toList) [')']
    .fromStatement ['m'] := .python [] ⟨by decide, List.forall_mem_singleton.mpr (by decide),
      List.forall_mem_singleton.mpr (by decide)⟩
  have isPlain : Text.lines "from m import (\n    a,\n    b,\n)\n".toList =
      [] ++ ("from ".toList ++ ['m'] ++ " import (".toList) ::
        ([] ++ "    a,".toList :: ["    b,".toList] ++ [')'] :: []) := by decide
  have isCommented : Text.lines "from m import (\n    a,  # first\n    b,\n)\n".toList =
      [] ++ ("from ".toList ++ ['m'] ++ " import (".toList) ::
        ([] ++ ("    a,".toList ++ [' ', ' '] ++ ['#'] ++ " first".toList) :: ["    b,".toList] ++
          [')'] :: []) := by decide
  have names : ∀ name ∈ [] ++ "    a,".toList :: ["    b,".toList], ∀ character ∈ name,
      character ∉ '#' :: nameStops :=
    List.forall_mem_cons.mpr ⟨List.all_iff_forall_prop.mp (by decide),
      List.forall_mem_singleton.mpr (List.all_iff_forall_prop.mp (by decide))⟩
  rcases importedNames_of_comment form "f" _ _ isPlain isCommented rfl (by decide) names
    (List.all_iff_forall_prop.mp (by decide)) (List.all_iff_forall_prop.mp (by decide)) with
    ⟨dependency, other, earlier, front, back, later, added, isOne, isOther, target, -⟩
  refine ⟨dependency, other, isOne, isOther, target, ?_, ?_⟩
  · have names : (Scan.onLine 1 (extractDependencies .python "f"
        "from m import (\n    a,\n    b,\n)\n")).map (·.importedNames.map (·.name)) =
        [["a", "b"]] := by decide +kernel
    rw [show Scan.onLine 1 _ = [dependency] from isOne] at names
    exact (List.cons.inj names).1
  · have names : (Scan.onLine 1 (extractDependencies .python "f"
        "from m import (\n    a,  # first\n    b,\n)\n")).map (·.importedNames.map (·.name)) =
        [["a"]] := by decide +kernel
    rw [show Scan.onLine 1 _ = [other] from isOther] at names
    exact (List.cons.inj names).1

end SourceIndex.Dependency
