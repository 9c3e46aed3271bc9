import Mathlib.Algebra.Group.Nat.Even
import Mathlib.Data.List.DropRight
import Mathlib.Data.List.Find
import Mathlib.Data.List.Induction
import SourceIndex.Language.Catalogue
import SourceIndex.Proofs.Lexicon.Inside

/-! Strings within a line. What stands between the two marks of a string leaves one blank, whatever
it is, as long as it holds neither the mark nor a backslash. A backslash takes the next character
along in every language: a string whose text ends in one may so go on behind its closing mark. -/

namespace SourceIndex

namespace Text

/-- How many backslashes a text ends in. -/
def endingBackslashes (text : List Char) : Nat := (text.rtakeWhile (· = '\\')).length

example : endingBackslashes "\\n\\\\".toList = 2 := by decide

theorem endingBackslashes_le (text : List Char) : endingBackslashes text ≤ text.length :=
  (List.rtakeWhile_suffix _ text).length_le

theorem endingBackslashes_cons (character : Char) (text : List Char) :
    endingBackslashes (character :: text) =
      if endingBackslashes text = text.length then
        text.length + if character = '\\' then 1 else 0
      else endingBackslashes text := by
  simp only [endingBackslashes, List.rtakeWhile, List.reverse_cons, List.takeWhile_append,
    List.length_reverse]
  split
  · by_cases escapes : character = '\\' <;> simp [escapes]
  · rfl

theorem endingBackslashes_cons_of_ne {character : Char} (plain : character ≠ '\\')
    (text : List Char) : endingBackslashes (character :: text) = endingBackslashes text := by
  rw [endingBackslashes_cons, if_neg plain]
  split
  · next all => exact all.symm
  · rfl

/-- A backslash and the character that it takes along do not change how the backslashes at the end
of a text pair off. -/
theorem even_endingBackslashes_escape (character : Char) (text : List Char) :
    Even (endingBackslashes ('\\' :: character :: text)) ↔ Even (endingBackslashes text) := by
  have short := endingBackslashes_le text
  rw [Nat.even_iff, Nat.even_iff, endingBackslashes_cons, endingBackslashes_cons, List.length_cons,
    if_pos rfl]
  split <;> split <;> (try split) <;> omega

theorem endingBackslashes_eq_zero {text : List Char} (plain : '\\' ∉ text) :
    endingBackslashes text = 0 := by
  rw [endingBackslashes, List.length_eq_zero_iff, List.rtakeWhile_eq_nil_iff]
  intro some
  have last := List.getLast_mem some
  simpa using fun same : text.getLast some = '\\' => plain (same ▸ last)

theorem startsWith_singleton (character first : Char) (rest : List Char) :
    startsWith (first :: rest) [character] = decide (character = first) := by
  by_cases same : character = first <;> simp [startsWith, dropLead?, same]

/-- A mark that starts in a text ends in it if it does not hold the character behind the text. -/
theorem startsWith_append_cons {mark back : List Char} {character : Char}
    (apart : character ∉ mark) (rest : List Char) :
    startsWith (back ++ character :: rest) mark = startsWith back mark := by
  rw [Bool.eq_iff_iff, startsWith_iff, startsWith_iff]
  refine ⟨fun starts => ?_, fun starts => starts.trans (List.prefix_append _ _)⟩
  rcases List.prefix_or_prefix_of_prefix starts (List.prefix_append back _) with short | long
  · exact short
  · rcases long with ⟨tail, rfl⟩
    cases tail with
    | nil => simp
    | cons first tail =>
        have same := (List.cons_prefix_cons.mp ((List.prefix_append_right_inj back).mp starts)).1
        exact absurd (same ▸ by simp) apart

end Text

namespace Lexicon

/-! ## Lexicons whose strings are told by single characters -/

def commentMarks (lexicon : Lexicon) : List (List Char) :=
  lexicon.lineComments ++ lexicon.blockComment.toList.flatMap fun marks => [marks.1, marks.2]

/-- Whether all that is quoted are strings between single characters. -/
structure HasPlainStrings (lexicon : Lexicon) : Prop where
  unquoted : lexicon.quotedCharacters = false
  undocumented : lexicon.docMarks = []
  single : ∀ style ∈ lexicon.strings, style.delimiter.length = 1

instance (lexicon : Lexicon) : Decidable lexicon.HasPlainStrings :=
  decidable_of_iff (lexicon.quotedCharacters = false ∧ lexicon.docMarks = [] ∧
      ∀ style ∈ lexicon.strings, style.delimiter.length = 1)
    ⟨fun ⟨unquoted, undocumented, single⟩ => ⟨unquoted, undocumented, single⟩,
      fun plain => ⟨plain.unquoted, plain.undocumented, plain.single⟩⟩

/-- Whether a character is a mark of strings that no mark of a comment holds. -/
structure Delimits (lexicon : Lexicon) (mark : Char) : Prop where
  style : ∃ style ∈ lexicon.strings, style.delimiter = [mark]
  noBackslash : mark ≠ '\\'
  apart : ∀ comment ∈ lexicon.commentMarks, comment ≠ [] ∧ mark ∉ comment

/-- Whether the marks of a mode are those of a lexicon. -/
def Mode.IsOf (lexicon : Lexicon) : Mode → Prop
  | .code | .blockComment => True
  | .docBlock mark => mark ∈ lexicon.docMarks
  | .string style => style ∈ lexicon.strings

/-- The mode in which stripping leaves off at the end of a text, of which it leaves out the next
`skip` characters, unless a line comment starts in the text. -/
def leavesOff? (lexicon : Lexicon) (mode : Mode) : (skip : Nat) → List Char → Option Mode
  | _, [] => some mode
  | skip + 1, _ :: rest => lexicon.leavesOff? mode skip rest
  | 0, character :: rest =>
    match lexicon.stepAt? mode character (character :: rest) with
    | none => none
    | some step => lexicon.leavesOff? step.mode step.skip rest

variable {lexicon : Lexicon} {mark : Char}

/-! ## Steps -/

theorem mem_commentMarks_of_blockComment {opening closing : List Char}
    (block : lexicon.blockComment = some (opening, closing)) :
    opening ∈ lexicon.commentMarks ∧ closing ∈ lexicon.commentMarks := by
  simp [commentMarks, block]

theorem isOf_of_stepAt? {mode : Mode} (isOf : mode.IsOf lexicon) {character : Char}
    {text : List Char} {step : Step} (taken : lexicon.stepAt? mode character text = some step) :
    step.mode.IsOf lexicon := by
  cases mode with
  | code =>
      simp only [stepAt?] at taken
      split at taken
      · cases taken
      · split at taken
        · cases taken
          trivial
        · split at taken
          · split at taken <;> cases taken <;> trivial
          · split at taken
            · next style found =>
                cases taken
                exact List.mem_of_find?_eq_some found
            · cases taken
              trivial
  | blockComment =>
      simp only [stepAt?] at taken
      split at taken
      · split at taken <;> cases taken <;> trivial
      · cases taken
        trivial
  | docBlock closing =>
      simp only [stepAt?] at taken
      split at taken <;> cases taken
      · trivial
      · exact isOf
  | string style =>
      simp only [stepAt?] at taken
      split at taken
      · cases taken
        exact isOf
      · split at taken <;> cases taken
        · trivial
        · exact isOf

/-- A mark that leads back to code stands in the text as a whole. -/
theorem skip_le_of_stepAt? (plain : lexicon.HasPlainStrings) {mode : Mode} {character : Char}
    {text : List Char} {step : Step}
    (taken : lexicon.stepAt? mode character (character :: text) = some step)
    (toCode : step.mode = .code) : step.skip ≤ text.length := by
  have closes : ∀ closing : List Char, Text.startsWith (character :: text) closing = true →
      closing.length - 1 ≤ text.length := by
    intro closing starts
    have whole := (Text.startsWith_iff.mp starts).length_le
    rw [List.length_cons] at whole
    omega
  cases mode with
  | code =>
      simp only [stepAt?, plain.unquoted, Bool.false_and, Bool.false_eq_true, if_false] at taken
      split at taken
      · cases taken
      · split at taken
        · cases taken
          cases toCode
        · split at taken <;> cases taken
          · cases toCode
          · exact Nat.zero_le _
  | blockComment =>
      simp only [stepAt?] at taken
      split at taken
      · next closing _ =>
          split at taken <;> cases taken
          · next starts => exact closes closing starts
          · cases toCode
      · cases taken
        cases toCode
  | docBlock closing =>
      simp only [stepAt?] at taken
      split at taken <;> cases taken
      · next starts => exact closes closing starts
      · cases toCode
  | string style =>
      simp only [stepAt?] at taken
      split at taken
      · cases taken
        cases toCode
      · split at taken <;> cases taken
        · next starts => exact closes _ starts
        · cases toCode

/-- A step does not depend on the text from the mark of a string on. -/
theorem stepAt?_append (plain : lexicon.HasPlainStrings) (delimits : lexicon.Delimits mark)
    {mode : Mode} (isOf : mode.IsOf lexicon) (character : Char) (text rest : List Char) :
    lexicon.stepAt? mode character (character :: text ++ mark :: rest) =
      lexicon.stepAt? mode character (character :: text) := by
  have comments : ∀ comment ∈ lexicon.commentMarks,
      Text.startsWith (character :: text ++ mark :: rest) comment =
        Text.startsWith (character :: text) comment := fun comment isMark =>
    Text.startsWith_append_cons (delimits.apart comment isMark).2 rest
  have strings : ∀ style ∈ lexicon.strings,
      Text.startsWith (character :: text ++ mark :: rest) style.delimiter =
        Text.startsWith (character :: text) style.delimiter := by
    intro style isStyle
    rcases List.length_eq_one_iff.mp (plain.single style isStyle) with ⟨delimiter, isDelimiter⟩
    rw [isDelimiter, List.cons_append, Text.startsWith_singleton, Text.startsWith_singleton]
  cases mode with
  | code =>
      have lines : lexicon.lineComments.any
            (Text.startsWith (character :: text ++ mark :: rest) ·) =
          lexicon.lineComments.any (Text.startsWith (character :: text) ·) := by
        rw [Bool.eq_iff_iff, List.any_eq_true, List.any_eq_true]
        refine exists_congr fun comment => and_congr_right fun isMark => ?_
        rw [comments comment (List.mem_append_left _ isMark)]
      have blocks : (lexicon.blockComment.filter fun marks =>
            Text.startsWith (character :: text ++ mark :: rest) marks.1) =
          lexicon.blockComment.filter fun marks =>
            Text.startsWith (character :: text) marks.1 := by
        cases block : lexicon.blockComment with
        | none => rfl
        | some marks =>
            have opening := comments _ (mem_commentMarks_of_blockComment block).1
            simp only [Option.filter, opening]
      have found : (lexicon.strings.find? fun style =>
            Text.startsWith (character :: text ++ mark :: rest) style.delimiter) =
          lexicon.strings.find? fun style =>
            Text.startsWith (character :: text) style.delimiter :=
        List.find?_congr strings
      simp only [stepAt?, lines, blocks, found, plain.unquoted, Bool.false_and, Bool.false_eq_true,
        if_false]
  | blockComment =>
      cases block : lexicon.blockComment with
      | none => simp only [stepAt?, block]
      | some marks =>
          simp only [stepAt?, block, comments _ (mem_commentMarks_of_blockComment block).2]
  | docBlock closing =>
      have none : closing ∈ lexicon.docMarks := isOf
      rw [plain.undocumented] at none
      cases none
  | string style => simp only [stepAt?, strings style isOf]

/-! ## Text around a string -/

/-- What is left of two stretches of a line, one behind the other. -/
def Stripped.followedBy (stripped later : Stripped) : Stripped :=
  ⟨stripped.code ++ later.code, stripped.hasComment || later.hasComment, later.mode⟩

/-- What stands behind a text that leaves off in code is stripped as if no text stood in front of
it, from the mark of a string on. -/
theorem stripFrom_append (plain : lexicon.HasPlainStrings) (delimits : lexicon.Delimits mark)
    {mode : Mode} (isOf : mode.IsOf lexicon) {skip : Nat} {front : List Char}
    (fits : mode = .code → skip ≤ front.length)
    (leaves : lexicon.leavesOff? mode skip front = some .code) (rest : List Char) :
    lexicon.stripFrom mode skip (front ++ mark :: rest) =
      (lexicon.stripFrom mode skip front).followedBy
        (lexicon.stripFrom .code 0 (mark :: rest)) := by
  fun_induction leavesOff? lexicon mode skip front with
  | case1 mode skip =>
      cases leaves
      rw [Nat.le_zero.mp (fits rfl)]
      rfl
  | case2 mode skip character front induction =>
      exact induction isOf (fun isCode => Nat.le_of_succ_le_succ (fits isCode)) leaves
  | case3 => cases leaves
  | case4 mode character front step taken induction =>
      have later := induction (isOf_of_stepAt? isOf taken) (skip_le_of_stepAt? plain taken) leaves
      have taken' := stepAt?_append plain delimits isOf character front rest
      rw [taken, List.cons_append] at taken'
      simp only [List.cons_append, stripFrom, taken, taken', later]
      simp only [Stripped.followedBy, List.append_assoc, Bool.or_assoc]

theorem startsWith_of_delimits (delimits : lexicon.Delimits mark) {comment : List Char}
    (isMark : comment ∈ lexicon.commentMarks) (rest : List Char) :
    Text.startsWith (mark :: rest) comment = false := by
  have apart := delimits.apart comment isMark
  cases comment with
  | nil => exact absurd rfl apart.1
  | cons first comment =>
      have different : first ≠ mark := fun same => apart.2 (same ▸ List.mem_cons_self)
      simp [Text.startsWith, Text.dropLead?, different]

/-- In code the mark of a string opens one. -/
theorem exists_opened (plain : lexicon.HasPlainStrings) (delimits : lexicon.Delimits mark) :
    ∃ style ∈ lexicon.strings, style.delimiter = [mark] ∧ ∀ rest,
      lexicon.stripFrom .code 0 (mark :: rest) = lexicon.stripFrom (.string style) 0 rest := by
  have opens : ∀ rest, ∀ style ∈ lexicon.strings,
      Text.startsWith (mark :: rest) style.delimiter = (style.delimiter == [mark]) := by
    intro rest style isStyle
    rcases List.length_eq_one_iff.mp (plain.single style isStyle) with ⟨delimiter, isDelimiter⟩
    rw [isDelimiter, Text.startsWith_singleton, Bool.eq_iff_iff]
    simp
  cases found : lexicon.strings.find? (·.delimiter == [mark]) with
  | none =>
      rcases delimits.style with ⟨style, isStyle, isMark⟩
      exact absurd isMark (by simpa using List.find?_eq_none.mp found style isStyle)
  | some style =>
      have isMark : style.delimiter = [mark] := by simpa using List.find?_some found
      refine ⟨style, List.mem_of_find?_eq_some found, isMark, fun rest => ?_⟩
      have noLine : lexicon.lineComments.any (Text.startsWith (mark :: rest) ·) = false := by
        simp only [List.any_eq_false, Bool.not_eq_true]
        exact fun comment isComment =>
          startsWith_of_delimits delimits (List.mem_append_left _ isComment) rest
      have noBlock : (lexicon.blockComment.filter fun marks =>
          Text.startsWith (mark :: rest) marks.1) = none := by
        cases block : lexicon.blockComment with
        | none => rfl
        | some marks =>
            have opening := (mem_commentMarks_of_blockComment block).1
            simp only [Option.filter, startsWith_of_delimits delimits opening rest,
              Bool.false_eq_true, if_false]
      have taken : lexicon.stepAt? .code mark (mark :: rest) =
          some (.take 1 (.string style) false []) := by
        simp only [stepAt?, noLine, noBlock, plain.unquoted, List.find?_congr (opens rest), found,
          isMark, Bool.false_and, Bool.false_eq_true, if_false, List.length_singleton]
      simp [stripFrom, taken, Step.take]

/-! ## Text within a string -/

section Within

variable {style : StringStyle} (isMark : style.delimiter = [mark])
include isMark

theorem stepAt?_string (character : Char) (text : List Char) :
    lexicon.stepAt? (.string style) character (character :: text) =
      if character = '\\' then some (.take 2 (.string style) false [])
      else if character = mark then some (.take 1 .code false [' '])
      else some (.take 1 (.string style) false []) := by
  simp only [stepAt?, isMark, Text.startsWith_singleton, eq_comm (a := mark), decide_eq_true_iff,
    List.length_singleton]

/-- A string goes on over what a backslash takes along, and over any character but its mark. -/
theorem stripFrom_escape (character : Char) (text : List Char) :
    lexicon.stripFrom (.string style) 0 ('\\' :: character :: text) =
      lexicon.stripFrom (.string style) 0 text := by
  simp [stripFrom, stepAt?_string isMark, Step.take]

theorem stripFrom_cons {character : Char} (plain : character ≠ '\\') (free : character ≠ mark)
    (text : List Char) :
    lexicon.stripFrom (.string style) 0 (character :: text) =
      lexicon.stripFrom (.string style) 0 text := by
  simp [stripFrom, stepAt?_string isMark, plain, free, Step.take]

theorem stripFrom_mark (plain : mark ≠ '\\') (rest : List Char) :
    lexicon.stripFrom (.string style) 0 (mark :: rest) =
      Stripped.followedBy ⟨[' '], false, .code⟩ (lexicon.stripFrom .code 0 rest) := by
  simp [stripFrom, stepAt?_string isMark, plain, Step.take, Stripped.followedBy]

/-- A string ends at its mark just if the backslashes in front of the mark pair off. Otherwise the
last one takes the mark along. -/
theorem stripFrom_string (plain : mark ≠ '\\') {body : List Char} (free : mark ∉ body)
    (rest : List Char) :
    lexicon.stripFrom (.string style) 0 (body ++ mark :: rest) =
      if Even (Text.endingBackslashes body) then
        Stripped.followedBy ⟨[' '], false, .code⟩ (lexicon.stripFrom .code 0 rest)
      else lexicon.stripFrom (.string style) 0 rest := by
  induction body using List.twoStepInduction with
  | nil => exact stripFrom_mark isMark plain rest
  | singleton character =>
      by_cases escapes : character = '\\'
      · rw [escapes]
        exact stripFrom_escape isMark mark rest
      · have apart : character ≠ mark := fun same => free (same ▸ List.mem_cons_self)
        rw [List.singleton_append, stripFrom_cons isMark escapes apart,
          stripFrom_mark isMark plain, Text.endingBackslashes_cons_of_ne escapes]
        rfl
  | cons_cons character next body behindNext behind =>
      rw [List.mem_cons, not_or] at free
      by_cases escapes : character = '\\'
      · have noMark : mark ∉ body := fun member => free.2 (List.mem_cons_of_mem _ member)
        rw [escapes, List.cons_append, List.cons_append, stripFrom_escape isMark,
          behindNext noMark]
        simp only [Text.even_endingBackslashes_escape]
      · rw [List.cons_append, stripFrom_cons isMark escapes (Ne.symm free.1), behind next free.2,
          Text.endingBackslashes_cons_of_ne escapes]

/-- A string whose mark does not come again goes on up to the end. -/
theorem stripFrom_unclosed {body : List Char} (free : mark ∉ body) :
    lexicon.stripFrom (.string style) 0 body = ⟨[], false, .string style⟩ := by
  induction body using List.twoStepInduction with
  | nil => rfl
  | singleton character =>
      by_cases escapes : character = '\\'
      · simp [escapes, stripFrom, stepAt?_string isMark, Step.take]
      · exact stripFrom_cons isMark escapes (fun same => free (same ▸ List.mem_cons_self)) []
  | cons_cons character next body behindNext behind =>
      rw [List.mem_cons, not_or] at free
      by_cases escapes : character = '\\'
      · rw [escapes, stripFrom_escape isMark]
        exact behindNext fun member => free.2 (List.mem_cons_of_mem _ member)
      · rw [stripFrom_cons isMark escapes (Ne.symm free.1)]
        exact behind next free.2

end Within

/-! ## Lines -/

theorem strip_of_plain (plain : lexicon.HasPlainStrings) (line : List Char) :
    lexicon.strip .code line = { lexicon.stripFrom .code 0 line with
      mode := (lexicon.stripFrom .code 0 line).mode.atLineEnd } := by
  simp [strip, docOpening?, plain.undocumented]

/-- A line with a string in it: what stands in front of the string, a blank, and what stands behind
it. Without a backslash, the text of the string does not matter. -/
theorem strip_string (plain : lexicon.HasPlainStrings) (delimits : lexicon.Delimits mark)
    {front : List Char} (inCode : lexicon.leavesOff? .code 0 front = some .code)
    {body : List Char} (free : mark ∉ body) (unescaped : '\\' ∉ body) (rest : List Char) :
    lexicon.strip .code (front ++ mark :: (body ++ mark :: rest)) =
      let stripped := (lexicon.stripFrom .code 0 front).followedBy
        (.followedBy ⟨[' '], false, .code⟩ (lexicon.stripFrom .code 0 rest))
      { stripped with mode := stripped.mode.atLineEnd } := by
  rcases exists_opened plain delimits with ⟨style, -, isMark, opens⟩
  have pairs : Even (Text.endingBackslashes body) := by
    rw [Text.endingBackslashes_eq_zero unescaped]
    exact Even.zero
  have isOf : Mode.code.IsOf lexicon := trivial
  rw [strip_of_plain plain, stripFrom_append plain delimits isOf (fun _ => Nat.zero_le _) inCode,
    opens, stripFrom_string isMark delimits.noBackslash free, if_pos pairs]

end Lexicon

/-! ## The known languages -/

namespace Language

/-- No mark of a comment holds a mark of strings. -/
theorem delimits_of_known {language : Language} (member : language ∈ plain :: known) {mark : Char}
    (isMark : ∃ style ∈ language.lexicon.strings, style.delimiter = [mark]) :
    language.lexicon.Delimits mark := by
  have checked : ∀ language ∈ plain :: known, ∀ style ∈ language.lexicon.strings,
      '\\' ∉ style.delimiter ∧ ∀ comment ∈ language.lexicon.commentMarks,
        comment ≠ [] ∧ style.delimiter.all (· ∉ comment) := by
    decide +kernel
  rcases isMark with ⟨style, isStyle, isDelimiter⟩
  have apart := checked language member style isStyle
  simp only [isDelimiter, List.mem_singleton, List.all_cons, List.all_nil, Bool.and_true,
    decide_eq_true_eq] at apart
  exact ⟨⟨style, isStyle, isDelimiter⟩, Ne.symm apart.1, apart.2⟩

example : ∀ name ∈ ["javascript", "typescript", "go", "c", "cpp", "csharp", "php", "text"],
    (ofName name).lexicon.HasPlainStrings := by decide

end Language

/-- In every known language whose strings stand between single characters, and in plain text, the
texts of a string cannot be told apart by what is left of a line that starts in code, nor by the
mode in which the next line starts. The text in front of the string may hold strings and comments of
its own that end in it; it must not leave one open. -/
theorem strip_ignores_strings {language : Language}
    (member : language ∈ Language.plain :: Language.known)
    (plain : language.lexicon.HasPlainStrings) {front : List Char}
    (inCode : language.lexicon.leavesOff? .code 0 front = some .code) {mark : Char}
    (isMark : ∃ style ∈ language.lexicon.strings, style.delimiter = [mark])
    {body other : List Char} (free : mark ∉ body ∧ mark ∉ other)
    (unescaped : '\\' ∉ body ∧ '\\' ∉ other) (rest : List Char) :
    language.lexicon.strip .code (front ++ mark :: (body ++ mark :: rest)) =
      language.lexicon.strip .code (front ++ mark :: (other ++ mark :: rest)) := by
  have delimits := Language.delimits_of_known member isMark
  rw [Lexicon.strip_string plain delimits inCode free.1 unescaped.1,
    Lexicon.strip_string plain delimits inCode free.2 unescaped.2]

/-- What looks like a comment, a block or a string of the other kind is none between the marks of a
string, in a line that goes on with a comment block. -/
theorem strip_ignores_strings_of_call :
    let line (text : String) : List Char :=
      "f('\"', ".toList ++ '"' :: (text.toList ++ '"' :: ") /* \x7b".toList)
    let strip := Language.javascript.lexicon.strip .code
    strip (line "\x7b // 'a") = strip (line "*/ \x7d") ∧
      strip (line "*/ \x7d") = ⟨"f( ,  ) ".toList, true, .blockComment⟩ :=
  ⟨strip_ignores_strings (List.mem_cons_of_mem _ List.mem_cons_self) (by decide) (by decide)
    ⟨Language.doubleQuoted, by decide⟩ (by decide) (by decide) _, by decide⟩

/-! ## Raw strings -/

namespace Lexicon

variable {lexicon : Lexicon}

/-- The marks that end code. -/
def openingMarks (lexicon : Lexicon) : List (List Char) :=
  lexicon.lineComments ++ lexicon.blockComment.toList.map (·.1) ++
    lexicon.strings.map (·.delimiter)

/-- Whether a text is all code: no comment and no string starts in it. -/
def IsBare (lexicon : Lexicon) (text : List Char) : Prop :=
  ∀ opening ∈ lexicon.openingMarks, Text.contains text opening = false

instance (lexicon : Lexicon) (text : List Char) : Decidable (lexicon.IsBare text) :=
  inferInstanceAs (Decidable (∀ opening ∈ lexicon.openingMarks, Text.contains text opening = false))

theorem IsBare.startsWith_of_suffix {text back : List Char} (bare : lexicon.IsBare text)
    (isBack : back <:+ text) {opening : List Char} (isMark : opening ∈ lexicon.openingMarks) :
    Text.startsWith back opening = false := by
  rw [Bool.eq_false_iff, ne_eq]
  intro starts
  have held := Text.contains_of_suffix isBack starts
  rw [bare opening isMark] at held
  cases held

theorem IsBare.not_mem {text : List Char} (bare : lexicon.IsBare text) {mark : Char}
    (isMark : [mark] ∈ lexicon.openingMarks) : mark ∉ text := by
  intro member
  rcases List.append_of_mem member with ⟨before, behind, rfl⟩
  have starts := bare.startsWith_of_suffix (List.suffix_append before _) isMark
  rw [Text.startsWith_singleton, decide_eq_false_iff_not] at starts
  exact starts rfl

/-- Code is left as it is, up to its end. -/
theorem IsBare.stripFrom_of_suffix (plain : lexicon.HasPlainStrings) {text : List Char}
    (bare : lexicon.IsBare text) {back : List Char} (isBack : back <:+ text) :
    lexicon.stripFrom .code 0 back = ⟨back, false, .code⟩ ∧
      lexicon.leavesOff? .code 0 back = some .code := by
  induction back with
  | nil => exact ⟨rfl, rfl⟩
  | cons character back induction =>
      have closed : ∀ opening ∈ lexicon.openingMarks,
          Text.startsWith (character :: back) opening = false :=
        fun _ isMark => bare.startsWith_of_suffix isBack isMark
      have noLine : lexicon.lineComments.any (Text.startsWith (character :: back) ·) = false := by
        simp only [List.any_eq_false, Bool.not_eq_true]
        exact fun opening isLine => closed opening (by simp [openingMarks, isLine])
      have noBlock : (lexicon.blockComment.filter fun marks =>
          Text.startsWith (character :: back) marks.1) = none := by
        rw [Option.filter_eq_none_iff]
        intro marks isBlock
        rw [closed marks.1 (by simp [openingMarks, Option.mem_def.mp isBlock])]
        exact Bool.false_ne_true
      have noString : (lexicon.strings.find? fun style =>
          Text.startsWith (character :: back) style.delimiter) = none := by
        simp only [List.find?_eq_none, Bool.not_eq_true]
        exact fun style isStyle => closed style.delimiter
          (List.mem_append_right _ (List.mem_map_of_mem isStyle))
      have taken : lexicon.stepAt? .code character (character :: back) =
          some (.take 1 .code false [character]) := by
        simp only [stepAt?, noLine, noBlock, noString, plain.unquoted, Bool.false_and,
          Bool.false_eq_true, if_false]
      have later := induction ((List.suffix_cons character back).trans isBack)
      simp [stripFrom, leavesOff?, taken, Step.take, later]

end Lexicon

/-- A line of Go with a raw string in it, and no other string or comment. The raw string ends at its
second mark, as it should, just if the backslashes at the end of its text pair off. Otherwise the
last one takes the mark along, and what follows, up to the next mark on the lines below, is lost. -/
theorem strip_rawString {front body rest : List Char}
    (frontBare : Language.go.lexicon.IsBare front) (free : '\x60' ∉ body)
    (restBare : Language.go.lexicon.IsBare rest) :
    Language.go.lexicon.strip .code (front ++ '\x60' :: (body ++ '\x60' :: rest)) =
      if Even (Text.endingBackslashes body) then ⟨front ++ ' ' :: rest, false, .code⟩
      else ⟨front, false, .string Language.backQuoted⟩ := by
  have plain : Language.go.lexicon.HasPlainStrings := by decide
  have member : Language.go ∈ Language.plain :: Language.known := by simp [Language.known]
  have delimits : Language.go.lexicon.Delimits '\x60' :=
    Language.delimits_of_known member ⟨Language.backQuoted, by decide⟩
  have isOf : Lexicon.Mode.code.IsOf Language.go.lexicon := trivial
  have front' := frontBare.stripFrom_of_suffix plain (List.suffix_refl front)
  have rest' := restBare.stripFrom_of_suffix plain (List.suffix_refl rest)
  rcases Lexicon.exists_opened plain delimits with ⟨style, isStyle, isMark, opens⟩
  have isRaw : style = Language.backQuoted := by
    have only : ∀ style ∈ Language.go.lexicon.strings, style.delimiter = ['\x60'] →
        style = Language.backQuoted := by decide
    exact only style isStyle isMark
  rw [Lexicon.strip_of_plain plain, Lexicon.stripFrom_append plain delimits isOf
    (fun _ => Nat.zero_le _) front'.2, opens,
    Lexicon.stripFrom_string isMark delimits.noBackslash free, front'.1, rest'.1]
  split
  · simp [Lexicon.Stripped.followedBy, Lexicon.Mode.atLineEnd]
  · have unclosed : '\x60' ∉ rest := restBare.not_mem (by decide)
    rw [Lexicon.stripFrom_unclosed isMark unclosed, isRaw]
    simp [Lexicon.Stripped.followedBy, Lexicon.Mode.atLineEnd, Language.backQuoted]

/-- A raw string whose text is one backslash: nothing of what stands behind it on its line is left,
and the next line starts in the string. -/
theorem strip_rawString_backslash :
    Language.go.lexicon.strip .code "f(\x60\\\x60) \x7b".toList =
      ⟨"f(".toList, false, .string Language.backQuoted⟩ :=
  @strip_rawString "f(".toList ['\\'] ") \x7b".toList (by decide) (by decide) (by decide)

end SourceIndex
