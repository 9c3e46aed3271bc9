import Mathlib.Data.List.Infix
import SourceIndex.Lexicon.Basic
import SourceIndex.Proofs.Text.Pieces

/-! Lines that are stripped one after the other: each starts in the mode that the lines above it
lead to. What is left of a line that starts inside a string or a comment depends on the mark that
closes the string or comment and on what follows it, not on the text in front of the mark. -/

namespace SourceIndex

namespace Text

/-- A text contains what one of its ends starts with. -/
theorem contains_of_suffix {text back part : List Char} (isBack : back <:+ text)
    (starts : startsWith back part = true) : contains text part = true := by
  induction text with
  | nil =>
      rw [List.suffix_nil.mp isBack, startsWith_iff, List.prefix_nil] at starts
      simp [contains, splitOnce?, starts]
  | cons character text induction =>
      rw [contains, splitOnce?]
      split
      · rfl
      · next noLead =>
          rcases List.suffix_cons_iff.mp isBack with rfl | isBack
          · rw [startsWith, noLead] at starts
            cases starts
          · rw [Option.isSome_map]
            exact induction isBack

end Text

namespace Lexicon

/-! ## Lines one after the other -/

section

variable (lexicon : Lexicon)

/-- The mode behind lines that start in a mode. -/
def modeBehind (mode : Mode) (lines : List (List Char)) : Mode :=
  lines.foldl (fun mode line => (lexicon.strip mode line).mode) mode

@[simp] theorem length_stripLines (mode : Mode) (lines : List (List Char)) :
    (lexicon.stripLines mode lines).length = lines.length := by
  induction lines generalizing mode with
  | nil => rfl
  | cons line lines induction => simp [stripLines, induction]

theorem stripLines_append (mode : Mode) (above below : List (List Char)) :
    lexicon.stripLines mode (above ++ below) =
      lexicon.stripLines mode above ++
        lexicon.stripLines (lexicon.modeBehind mode above) below := by
  induction above generalizing mode with
  | nil => rfl
  | cons line above induction => exact congrArg (List.cons _) (induction _)

theorem getElem?_stripLines (mode : Mode) (lines : List (List Char)) (index : Nat) :
    (lexicon.stripLines mode lines)[index]? =
      lines[index]?.map (lexicon.strip (lexicon.modeBehind mode (lines.take index))) := by
  induction lines generalizing mode index with
  | nil => simp [stripLines]
  | cons line lines induction =>
      cases index with
      | zero => rfl
      | succ index =>
          rw [stripLines, List.getElem?_cons_succ, List.getElem?_cons_succ, List.take_succ_cons]
          exact induction _ index

end

/-! ## Lines that start inside -/

/-- The mark that closes a string or comment. -/
def closing? (lexicon : Lexicon) : Mode → Option (List Char)
  | .code => none
  | .blockComment => lexicon.blockComment.map (·.2)
  | .docBlock mark => some mark
  | .string style => some style.delimiter

/-- What is left of a line from the mark on that ends a mode, behind the next `skip` characters.
Nothing is left if the mode does not end on the line. -/
def fromClosing (lexicon : Lexicon) (mode : Mode) : (skip : Nat) → List Char → List Char
  | _, [] => []
  | skip + 1, _ :: rest => lexicon.fromClosing mode skip rest
  | 0, character :: rest =>
    match lexicon.stepAt? mode character (character :: rest) with
    | none => []
    | some step =>
      if step.mode = mode then lexicon.fromClosing mode step.skip rest else character :: rest

variable (lexicon : Lexicon)

/-- Nothing but text at the start of a line is left out. -/
theorem fromClosing_suffix (mode : Mode) (skip : Nat) (line : List Char) :
    lexicon.fromClosing mode skip line <:+ line := by
  fun_induction fromClosing lexicon mode skip line with
  | case1 => exact List.suffix_refl []
  | case2 skip character rest induction => exact induction.trans (List.suffix_cons _ _)
  | case3 => exact List.nil_suffix
  | case4 character rest step taken stays induction =>
      exact induction.trans (List.suffix_cons _ _)
  | case5 => exact List.suffix_refl _

/-! ## Steps inside a string or comment -/

section Steps

variable {mode : Mode} {character : Char} {text : List Char}

/-- At each character inside a string or comment the mode stays and nothing is left, or its mark
stands there and code follows. -/
theorem exists_stepAt? (inside : mode ≠ .code) (character : Char) (text : List Char) :
    ∃ step, lexicon.stepAt? mode character text = some step ∧
      (step.mode = mode ∧ step.code = [] ∨ step.mode = .code ∧
        ∃ closing, lexicon.closing? mode = some closing ∧ Text.startsWith text closing = true) := by
  cases mode with
  | code => exact absurd rfl inside
  | blockComment =>
      simp only [stepAt?, closing?]
      cases lexicon.blockComment with
      | none => exact ⟨_, rfl, .inl ⟨rfl, rfl⟩⟩
      | some marks =>
          by_cases closes : Text.startsWith text marks.2 = true
          · exact ⟨_, if_pos closes, .inr ⟨rfl, marks.2, rfl, closes⟩⟩
          · exact ⟨_, if_neg closes, .inl ⟨rfl, rfl⟩⟩
  | docBlock mark =>
      simp only [stepAt?, closing?]
      by_cases closes : Text.startsWith text mark = true
      · exact ⟨_, if_pos closes, .inr ⟨rfl, mark, rfl, closes⟩⟩
      · exact ⟨_, if_neg closes, .inl ⟨rfl, rfl⟩⟩
  | string style =>
      simp only [stepAt?, closing?]
      by_cases escapes : character = '\\'
      · exact ⟨_, if_pos escapes, .inl ⟨rfl, rfl⟩⟩
      · rw [if_neg escapes]
        by_cases closes : Text.startsWith text style.delimiter = true
        · exact ⟨_, if_pos closes, .inr ⟨rfl, style.delimiter, rfl, closes⟩⟩
        · exact ⟨_, if_neg closes, .inl ⟨rfl, rfl⟩⟩

/-- A character that neither escapes the next one nor starts the mark is passed over alone. -/
theorem stepAt?_of_plain (inside : mode ≠ .code) (plain : character ≠ '\\')
    (free : ∀ closing, lexicon.closing? mode = some closing →
      Text.startsWith text closing = false) :
    ∃ isComment, lexicon.stepAt? mode character text = some (.take 1 mode isComment []) := by
  cases mode with
  | code => exact absurd rfl inside
  | blockComment =>
      simp only [stepAt?]
      cases isMarks : lexicon.blockComment with
      | none => exact ⟨true, rfl⟩
      | some marks =>
          have open_ := free marks.2 (by rw [closing?, isMarks]; rfl)
          exact ⟨true, by simp [open_]⟩
  | docBlock mark =>
      have open_ := free mark rfl
      exact ⟨true, by simp [stepAt?, open_, escapeLength, plain]⟩
  | string style =>
      have open_ := free style.delimiter rfl
      exact ⟨false, by simp [stepAt?, open_, plain]⟩

end Steps

/-! ## What is left of a line -/

/-- Both the code of a line and the mode behind it depend on what stands from the mark on. -/
theorem stripFrom_fromClosing {mode : Mode} (inside : mode ≠ .code) (skip : Nat)
    (line : List Char) :
    (lexicon.stripFrom mode skip line).code =
        (lexicon.stripFrom mode 0 (lexicon.fromClosing mode skip line)).code ∧
      (lexicon.stripFrom mode skip line).mode =
        (lexicon.stripFrom mode 0 (lexicon.fromClosing mode skip line)).mode := by
  fun_induction fromClosing lexicon mode skip line with
  | case1 => simp [stripFrom]
  | case2 skip character rest induction => simpa only [stripFrom] using induction
  | case3 character rest stops =>
      rcases lexicon.exists_stepAt? inside character (character :: rest) with ⟨step, taken, -⟩
      rw [stops] at taken
      cases taken
  | case4 character rest step taken stays induction =>
      rcases lexicon.exists_stepAt? inside character (character :: rest) with ⟨same, again, made⟩
      rw [taken] at again
      cases again
      rcases made with ⟨-, empty⟩ | ⟨ends, -⟩
      · rw [stripFrom, taken]
        simpa only [empty, stays, List.nil_append] using induction
      · exact absurd (stays.symm.trans ends) inside
  | case5 => exact ⟨rfl, rfl⟩

/-- What stands from the mark on starts with the mark, unless it is empty. -/
theorem startsWith_fromClosing {mode : Mode} (inside : mode ≠ .code) (skip : Nat)
    (line : List Char) : lexicon.fromClosing mode skip line = [] ∨
      ∃ closing, lexicon.closing? mode = some closing ∧
        Text.startsWith (lexicon.fromClosing mode skip line) closing = true := by
  fun_induction fromClosing lexicon mode skip line with
  | case1 => exact .inl rfl
  | case2 skip character rest induction => exact induction
  | case3 => exact .inl rfl
  | case4 character rest step taken stays induction => exact induction
  | case5 character rest step taken leaves =>
      rcases lexicon.exists_stepAt? inside character (character :: rest) with ⟨same, again, made⟩
      rw [taken] at again
      cases again
      rcases made with ⟨stays, -⟩ | ⟨-, closes⟩
      · exact absurd stays leaves
      · exact .inr closes

/-! ## Other text in front of the mark -/

/-- Whether a text may stand in a string or comment in front of `rest`: it holds no backslash, and
the mark that closes the string or comment neither stands in the text nor starts in it. -/
structure Fills (mode : Mode) (text rest : List Char) : Prop where
  plain : '\\' ∉ text
  free : ∀ closing, lexicon.closing? mode = some closing → ∀ back, back <:+ text → back ≠ [] →
    Text.startsWith (back ++ rest) closing = false

variable {lexicon} {mode : Mode}

theorem Fills.tail {character : Char} {text rest : List Char}
    (fills : lexicon.Fills mode (character :: text) rest) : lexicon.Fills mode text rest where
  plain member := fills.plain (List.mem_cons_of_mem _ member)
  free closing isClosing back isBack :=
    fills.free closing isClosing back (isBack.trans (List.suffix_cons _ _))

/-- A text that fills a string or comment leaves what the rest alone leaves. -/
theorem Fills.stripFrom_append (inside : mode ≠ .code) {text rest : List Char}
    (fills : lexicon.Fills mode text rest) :
    (lexicon.stripFrom mode 0 (text ++ rest)).code = (lexicon.stripFrom mode 0 rest).code ∧
      (lexicon.stripFrom mode 0 (text ++ rest)).mode = (lexicon.stripFrom mode 0 rest).mode := by
  induction text with
  | nil => exact ⟨rfl, rfl⟩
  | cons character text induction =>
      have plain : character ≠ '\\' := fun same =>
        fills.plain (same ▸ List.mem_cons_self)
      rcases lexicon.stepAt?_of_plain inside plain fun closing isClosing =>
        fills.free closing isClosing _ (List.suffix_refl _) (List.cons_ne_nil _ _) with
        ⟨isComment, taken⟩
      rw [List.cons_append, stripFrom, ← List.cons_append, taken]
      simpa only [Step.take, List.nil_append] using induction fills.tail

theorem strip_of_inside (inside : mode ≠ .code) (line : List Char) : lexicon.strip mode line =
    { lexicon.stripFrom mode 0 line with
      mode := (lexicon.stripFrom mode 0 line).mode.atLineEnd } := by
  cases mode with
  | code => exact absurd rfl inside
  | blockComment => rfl
  | docBlock mark => rfl
  | string style => rfl

/-- Whether two lines have the same code and lead to the same mode. Comments may differ. -/
structure StripsAlike (lexicon : Lexicon) (mode : Mode) (line other : List Char) : Prop where
  code : (lexicon.strip mode line).code = (lexicon.strip mode other).code
  mode : (lexicon.strip mode line).mode = (lexicon.strip mode other).mode

/-- Other text in front of the mark changes neither the code of a line nor the mode behind it. -/
theorem Fills.stripsAlike (inside : mode ≠ .code) {text line : List Char}
    (fills : lexicon.Fills mode text (lexicon.fromClosing mode 0 line)) :
    lexicon.StripsAlike mode (text ++ lexicon.fromClosing mode 0 line) line := by
  have filled := fills.stripFrom_append inside
  have former := lexicon.stripFrom_fromClosing inside 0 line
  constructor
  · rw [strip_of_inside inside, strip_of_inside inside]
    exact filled.1.trans former.1.symm
  · rw [strip_of_inside inside, strip_of_inside inside]
    exact congrArg Mode.atLineEnd (filled.2.trans former.2.symm)

/-- Where a mark overlaps itself nowhere, as in a comment between slashes and stars, it is enough
that the text does not contain it. -/
theorem fills_of_not_contains (inside : mode ≠ .code) {closing text line : List Char}
    (isClosing : lexicon.closing? mode = some closing)
    (unbordered : ∀ border ∈ closing.inits, border <:+ closing → border = [] ∨ border = closing)
    (plain : '\\' ∉ text) (free : Text.contains text closing = false) :
    lexicon.Fills mode text (lexicon.fromClosing mode 0 line) where
  plain := plain
  free other isOther back isBack some_ := by
    cases isClosing.symm.trans isOther
    by_contra starts
    rw [Bool.not_eq_false, Text.startsWith_iff] at starts
    have apart : ¬ closing <+: back := by
      intro within
      have held := Text.contains_of_suffix isBack (Text.startsWith_iff.mpr within)
      rw [free] at held
      cases held
    rcases lexicon.startsWith_fromClosing inside 0 line with empty | ⟨same, isSame, again⟩
    · rw [empty, List.append_nil] at starts
      exact apart starts
    · cases isClosing.symm.trans isSame
      rw [Text.startsWith_iff] at again
      -- A mark that starts in the text ends in the mark behind it, so that the two overlap.
      rcases List.prefix_or_prefix_of_prefix (List.prefix_append back _) starts with short | long
      · rcases short with ⟨border, rfl⟩
        have ahead := (List.prefix_append_right_inj back).mp starts
        have shorter : border.length ≤ (back ++ border).length := by simp
        have overlaps := List.prefix_of_prefix_length_le ahead again shorter
        have isInit := (List.mem_inits border _).mpr overlaps
        rcases unbordered border isInit (List.suffix_append _ _) with rfl | whole
        · rw [List.append_nil] at apart
          exact apart (List.prefix_refl _)
        · exact some_ (List.self_eq_append_left.mp whole)
      · exact apart long

end Lexicon

end SourceIndex
