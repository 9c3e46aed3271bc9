import Mathlib.Data.List.Forall2
import SourceIndex.Code.Brackets
import SourceIndex.Proofs.Text.Pieces
import SourceIndex.Proofs.Text.Trimming

/-! The entries of a list. A list is cut at a comma where no more brackets have been opened than
closed, whichever kinds they are of. Only commas and blanks are lost at the cuts, and the entries
are told apart again when they are joined. Since angle brackets count and may stand alone, as in an
arrow, a comma may be cut at inside of other brackets. -/

namespace SourceIndex

/-! ## Depths in lists -/

/-- The brackets that protect parts of a list from being split. -/
def listBrackets : List Char := ['(', '[', '\x7b', '<', ')', ']', '\x7d', '>']

theorem listDepth_of_no_bracket {character : Char} (noBracket : character ∉ listBrackets)
    (depth : Int) : listDepth depth character = depth := by
  simp only [listBrackets, List.mem_cons, List.not_mem_nil, or_false, not_or] at noBracket
  simp [listDepth, noBracket]

theorem not_mem_listBrackets_of_isBlank {character : Char}
    (blank : Text.isBlank character = true) : character ∉ listBrackets := by
  have inked : listBrackets.all (! Text.isBlank ·) = true := by decide
  intro member
  have isInked := List.all_eq_true.mp inked character member
  rw [blank] at isInked
  cases isInked

/-- The depth behind a text that is entered at a depth. -/
def listDepthBehind (depth : Int) (text : List Char) : Int := text.foldl listDepth depth

section

variable {depth : Int} {text front back : List Char}

@[simp] theorem listDepthBehind_nil (depth : Int) : listDepthBehind depth [] = depth := rfl

@[simp] theorem listDepthBehind_cons (depth : Int) (character : Char) (text : List Char) :
    listDepthBehind depth (character :: text) =
      listDepthBehind (listDepth depth character) text := rfl

@[simp] theorem listDepthBehind_append (depth : Int) (front back : List Char) :
    listDepthBehind depth (front ++ back) =
      listDepthBehind (listDepthBehind depth front) back := List.foldl_append

@[simp] theorem listDepth_comma (depth : Int) : listDepth depth ',' = depth :=
  listDepth_of_no_bracket (by decide) depth

/-- Blanks lead nowhere. -/
theorem listDepthBehind_of_blank (depth : Int)
    (blank : ∀ character ∈ text, Text.isBlank character = true) :
    listDepthBehind depth text = depth := by
  induction text with
  | nil => rfl
  | cons character text induction =>
      rw [List.forall_mem_cons] at blank
      rw [listDepthBehind_cons,
        listDepth_of_no_bracket (not_mem_listBrackets_of_isBlank blank.1), induction blank.2]

/-! ## Cuts -/

theorem splitListFrom_comma (low : depth ≤ 0) (rest : List Char) :
    splitListFrom depth (',' :: rest) = [] :: splitListFrom depth rest := by
  rw [splitListFrom, if_pos ⟨rfl, low⟩]

theorem splitListFrom_ne_nil (depth : Int) (text : List Char) : splitListFrom depth text ≠ [] := by
  fun_induction splitListFrom depth text with
  | case1 => exact List.cons_ne_nil _ _
  | case2 => exact List.cons_ne_nil _ _
  | case3 => exact List.cons_ne_nil _ _
  | case4 => exact List.cons_ne_nil _ _

/-- A character at which a list is not cut lengthens the first stretch. -/
theorem splitListFrom_cons {character : Char} (kept : character = ',' → 0 < depth)
    {rest first : List Char} {later : List (List Char)}
    (split : splitListFrom (listDepth depth character) rest = first :: later) :
    splitListFrom depth (character :: rest) = (character :: first) :: later := by
  rw [splitListFrom, if_neg fun cut => absurd (kept cut.1) (Int.not_lt.mpr cut.2), split]

/-- At each character a list is either cut or its first stretch goes on. -/
theorem splitList_cut_or_kept (depth : Int) (character : Char) (rest : List Char) :
    (character = ',' ∧ depth ≤ 0) ∨ ∃ first later, (character = ',' → 0 < depth) ∧
      splitListFrom (listDepth depth character) rest = first :: later := by
  by_cases cut : character = ',' ∧ depth ≤ 0
  · exact .inl cut
  · have kept : character = ',' → 0 < depth := fun comma =>
      Int.not_le.mp fun low => cut ⟨comma, low⟩
    rcases List.exists_cons_of_ne_nil (splitListFrom_ne_nil (listDepth depth character) rest) with
      ⟨first, later, split⟩
    exact .inr ⟨first, later, kept, split⟩

theorem splitListFrom_of_no_bracket {list : List Char}
    (noBracket : ∀ character ∈ list, character ∉ listBrackets) :
    splitListFrom 0 list = Text.splitAll (· == ',') list := by
  induction list with
  | nil => rfl
  | cons character list induction =>
      rw [List.forall_mem_cons] at noBracket
      rw [splitListFrom, listDepth_of_no_bracket noBracket.1, induction noBracket.2]
      by_cases comma : character = ','
      · rw [if_pos ⟨comma, Int.le_refl 0⟩, Text.splitAll_cons_separator (by simpa using comma)]
      · rcases List.exists_cons_of_ne_nil (Text.splitAll_ne_nil (· == ',') list) with
          ⟨first, later, split⟩
        rw [if_neg fun both => comma both.1, split, Text.splitAll_cons (by simpa using comma) split]

/-- The stretches of a list, joined by commas, are the list. -/
theorem intercalate_splitListFrom (depth : Int) (text : List Char) :
    [','].intercalate (splitListFrom depth text) = text := by
  induction text generalizing depth with
  | nil => rfl
  | cons character text induction =>
      rcases splitList_cut_or_kept depth character text with
        ⟨rfl, low⟩ | ⟨first, later, kept, split⟩
      · rcases List.exists_cons_of_ne_nil (splitListFrom_ne_nil depth text) with
          ⟨first, later, split⟩
        rw [splitListFrom_comma low, split, List.intercalate_cons_cons, ← split, induction]
        rfl
      · have whole := induction (listDepth depth character)
        rw [split] at whole
        rw [splitListFrom_cons kept split, ← whole]
        cases later with
        | nil => rw [List.intercalate_singleton, List.intercalate_singleton]
        | cons next later =>
            rw [List.intercalate_cons_cons, List.intercalate_cons_cons]
            rfl

/-- A list starts with its first stretch. -/
theorem isPrefix_of_splitListFrom {first : List Char} {later : List (List Char)}
    (split : splitListFrom depth text = first :: later) : first <+: text := by
  have whole := intercalate_splitListFrom depth text
  rw [split] at whole
  cases later with
  | nil =>
      rw [List.intercalate_singleton] at whole
      rw [whole]
  | cons next later =>
      rw [List.intercalate_cons_cons, List.append_assoc] at whole
      exact ⟨_, whole⟩

/-- A list is cut apart at a comma where no bracket is open. -/
theorem splitListFrom_append_cons (low : listDepthBehind depth front ≤ 0) (back : List Char) :
    splitListFrom depth (front ++ ',' :: back) =
      splitListFrom depth front ++ splitListFrom (listDepthBehind depth front) back := by
  induction front generalizing depth with
  | nil => exact splitListFrom_comma low back
  | cons character front induction =>
      have split := induction low
      rw [List.cons_append, listDepthBehind_cons]
      rcases splitList_cut_or_kept depth character front with
        ⟨rfl, isLow⟩ | ⟨first, later, kept, isFront⟩
      · rw [listDepth_comma] at split ⊢
        rw [splitListFrom_comma isLow, splitListFrom_comma isLow, split]
        rfl
      · rw [isFront, List.cons_append] at split
        rw [splitListFrom_cons kept split, splitListFrom_cons kept isFront]
        rfl

/-! ## Stretches that a list is cut into -/

/-- Whether brackets protect every comma of a stretch that is entered at a depth. -/
def KeepsTogether (depth : Int) : List Char → Prop
  | [] => True
  | character :: rest =>
    (character = ',' → 0 < depth) ∧ KeepsTogether (listDepth depth character) rest

instance decidableKeepsTogether : (depth : Int) → (text : List Char) →
    Decidable (KeepsTogether depth text)
  | _, [] => .isTrue trivial
  | depth, character :: rest =>
    have := decidableKeepsTogether (listDepth depth character) rest
    inferInstanceAs (Decidable ((character = ',' → 0 < depth) ∧ _))

example : KeepsTogether 0 "f(a, b)".toList ∧ ¬ KeepsTogether 0 "a, b".toList := by decide

theorem keepsTogether_append (depth : Int) (front back : List Char) :
    KeepsTogether depth (front ++ back) ↔
      KeepsTogether depth front ∧ KeepsTogether (listDepthBehind depth front) back := by
  induction front generalizing depth with
  | nil => exact (and_iff_right trivial).symm
  | cons character front induction =>
      rw [List.cons_append, KeepsTogether, KeepsTogether, listDepthBehind_cons, induction,
        and_assoc]

theorem keepsTogether_of_blank (depth : Int)
    (blank : ∀ character ∈ text, Text.isBlank character = true) : KeepsTogether depth text := by
  induction text generalizing depth with
  | nil => trivial
  | cons character text induction =>
      rw [List.forall_mem_cons] at blank
      refine ⟨fun comma => ?_, induction _ blank.2⟩
      rw [comma] at blank
      exact absurd blank.1 (by decide)

theorem splitListFrom_of_keepsTogether (together : KeepsTogether depth text) :
    splitListFrom depth text = [text] := by
  induction text generalizing depth with
  | nil => rfl
  | cons character text induction =>
      exact splitListFrom_cons together.1 (induction together.2)

/-- What keeps together lengthens the first stretch of the list behind it. -/
theorem splitListFrom_append (together : KeepsTogether depth front) {first : List Char}
    {later : List (List Char)}
    (split : splitListFrom (listDepthBehind depth front) back = first :: later) :
    splitListFrom depth (front ++ back) = (front ++ first) :: later := by
  induction front generalizing depth with
  | nil => exact split
  | cons character front induction =>
      exact splitListFrom_cons together.1 (induction together.2 split)

/-- Whether stretches are those that their list is cut into: each of them keeps together, and where
another one follows no bracket is open. -/
def AreCut (depth : Int) : List (List Char) → Prop
  | [] => True
  | stretch :: later =>
    KeepsTogether depth stretch ∧ (later ≠ [] → listDepthBehind depth stretch ≤ 0) ∧
      AreCut (listDepthBehind depth stretch) later

theorem areCut_splitListFrom (depth : Int) (text : List Char) :
    AreCut depth (splitListFrom depth text) := by
  induction text generalizing depth with
  | nil => exact ⟨trivial, fun more => absurd rfl more, trivial⟩
  | cons character text induction =>
      rcases splitList_cut_or_kept depth character text with
        ⟨rfl, low⟩ | ⟨first, later, kept, split⟩
      · rw [splitListFrom_comma low]
        exact ⟨trivial, fun _ => low, induction depth⟩
      · have behind := induction (listDepth depth character)
        rw [split] at behind
        rw [splitListFrom_cons kept split]
        exact ⟨⟨kept, behind.1⟩, behind.2⟩

/-- Stretches that a list may be cut into are told apart again when they are joined. -/
theorem splitListFrom_intercalate {stretches : List (List Char)} (areCut : AreCut depth stretches)
    (some : stretches ≠ []) : splitListFrom depth ([','].intercalate stretches) = stretches := by
  induction stretches generalizing depth with
  | nil => exact absurd rfl some
  | cons stretch later induction =>
      have first := splitListFrom_of_keepsTogether areCut.1
      cases later with
      | nil => rwa [List.intercalate_singleton]
      | cons next later =>
          have more : next :: later ≠ [] := List.cons_ne_nil _ _
          rw [List.intercalate_cons_cons, List.append_assoc, List.singleton_append,
            splitListFrom_append_cons (areCut.2.1 more), first, induction areCut.2.2 more]
          rfl

end

/-! ## Stretches without what is lost -/

/-- Whether a text is another one with blanks around it. -/
def IsPadded (text padded : List Char) : Prop :=
  ∃ front back, padded = front ++ text ++ back ∧
    ∀ character ∈ front ++ back, Text.isBlank character = true

section

variable {depth : Int} {text padded : List Char} {stretches others : List (List Char)}

theorem isPadded_trim (text : List Char) : IsPadded (Text.trim text) text := Text.exists_trim text

theorem IsPadded.listDepthBehind_eq (isPadded : IsPadded text padded) (depth : Int) :
    listDepthBehind depth padded = listDepthBehind depth text := by
  rcases isPadded with ⟨front, back, rfl, blank⟩
  rw [List.forall_mem_append] at blank
  rw [listDepthBehind_append, listDepthBehind_append, listDepthBehind_of_blank _ blank.1,
    listDepthBehind_of_blank _ blank.2]

theorem IsPadded.keepsTogether_iff (isPadded : IsPadded text padded) (depth : Int) :
    KeepsTogether depth padded ↔ KeepsTogether depth text := by
  rcases isPadded with ⟨front, back, rfl, blank⟩
  rw [List.forall_mem_append] at blank
  rw [keepsTogether_append, keepsTogether_append, listDepthBehind_of_blank _ blank.1]
  exact ⟨fun together => together.1.2, fun together =>
    ⟨⟨keepsTogether_of_blank _ blank.1, together⟩, keepsTogether_of_blank _ blank.2⟩⟩

/-- Blanks around stretches make no difference to where a list is cut. -/
theorem areCut_iff_of_isPadded (padded : List.Forall₂ IsPadded stretches others) :
    AreCut depth others ↔ AreCut depth stretches := by
  induction padded generalizing depth with
  | nil => exact Iff.rfl
  | @cons stretch other later otherLater isPadded padded induction =>
      have more : otherLater ≠ [] ↔ later ≠ [] := by
        rw [← List.length_pos_iff, ← List.length_pos_iff, padded.length_eq]
      rw [AreCut, AreCut, isPadded.keepsTogether_iff, isPadded.listDepthBehind_eq, induction, more]

/-- Empty stretches may be left out. -/
theorem AreCut.filter (areCut : AreCut depth stretches) :
    AreCut depth (stretches.filter (! ·.isEmpty)) := by
  induction stretches generalizing depth with
  | nil => trivial
  | cons stretch later induction =>
      have behind := induction areCut.2.2
      cases stretch with
      | nil => exact behind
      | cons character stretch =>
          rw [List.filter_cons_of_pos rfl]
          refine ⟨areCut.1, fun more => areCut.2.1 ?_, behind⟩
          rintro rfl
          exact more rfl

theorem forall₂_isPadded_trim (stretches : List (List Char)) :
    List.Forall₂ IsPadded (stretches.map Text.trim) stretches := by
  induction stretches with
  | nil => exact .nil
  | cons stretch later induction => exact .cons (isPadded_trim stretch) induction

theorem areCut_splitList (text : List Char) : AreCut 0 (splitList text) :=
  let stretches := splitListFrom 0 text
  have areCut : AreCut 0 (stretches.map Text.trim) :=
    (areCut_iff_of_isPadded (forall₂_isPadded_trim stretches)).mp (areCut_splitListFrom 0 text)
  areCut.filter

end

/-! ## Entries -/

/-- What is left of a text without its commas and blanks. -/
def withoutSeparators (text : List Char) : List Char :=
  text.filter fun character => character != ',' && !Text.isBlank character

section

variable {text padded : List Char}

theorem IsPadded.withoutSeparators_eq (isPadded : IsPadded text padded) :
    withoutSeparators padded = withoutSeparators text := by
  have lost : ∀ {blanks : List Char}, (∀ character ∈ blanks, Text.isBlank character = true) →
      withoutSeparators blanks = [] := by
    intro blanks blank
    refine List.filter_eq_nil_iff.mpr fun character member => ?_
    simp [blank character member]
  rcases isPadded with ⟨front, back, rfl, blank⟩
  rw [List.forall_mem_append] at blank
  rw [withoutSeparators, List.filter_append, List.filter_append]
  change withoutSeparators front ++ _ ++ withoutSeparators back = _
  rw [lost blank.1, lost blank.2, List.nil_append, List.append_nil, withoutSeparators]

theorem withoutSeparators_intercalate (stretches : List (List Char)) :
    withoutSeparators ([','].intercalate stretches) = stretches.flatMap withoutSeparators := by
  induction stretches with
  | nil => rfl
  | cons stretch later induction =>
      cases later with
      | nil => rw [List.intercalate_singleton, List.flatMap_singleton]
      | cons next later =>
          rw [List.intercalate_cons_cons, withoutSeparators, List.filter_append,
            List.filter_append, List.flatMap_cons, ← induction]
          change withoutSeparators stretch ++ [] ++ _ = _
          rw [List.append_nil]
          rfl

/-- Trimming stretches and leaving out what is blank loses separators only. -/
theorem flatMap_withoutSeparators_trimmed (stretches : List (List Char)) :
    ((stretches.map Text.trim).filter (! ·.isEmpty)).flatMap withoutSeparators =
      stretches.flatMap withoutSeparators := by
  induction stretches with
  | nil => rfl
  | cons stretch later induction =>
      rw [List.map_cons, List.flatMap_cons, (isPadded_trim stretch).withoutSeparators_eq]
      cases Text.trim stretch with
      | nil => exact induction
      | cons character trimmed =>
          rw [List.filter_cons_of_pos rfl, List.flatMap_cons, induction]

theorem isTrimmed_of_mem_splitList {entry : List Char} (member : entry ∈ splitList text) :
    Text.IsTrimmed entry := by
  rcases List.mem_filter.mp member with ⟨isMapped, filled⟩
  rcases List.mem_map.mp isMapped with ⟨stretch, -, rfl⟩
  exact Text.isTrimmed_trim (by simpa using filled)

theorem IsPadded.trim_eq (isPadded : IsPadded text padded) (trimmed : Text.IsTrimmed text) :
    Text.trim padded = text := by
  rcases isPadded with ⟨front, back, rfl, blank⟩
  rw [List.forall_mem_append] at blank
  rw [Text.trim_append_blanks blank.2, Text.trim, Text.trimStart,
    List.dropWhile_append_of_pos blank.1]
  exact trimmed.trim_eq

/-- Entries, each but the first one with a blank in front. -/
def spacedEntries : List (List Char) → List (List Char)
  | [] => []
  | first :: later => first :: later.map (' ' :: ·)

theorem intercalate_spacedEntries (entries : List (List Char)) :
    [','].intercalate (spacedEntries entries) = [',', ' '].intercalate entries := by
  cases entries with
  | nil => rfl
  | cons first later =>
      rw [spacedEntries]
      induction later generalizing first with
      | nil => rw [List.map_nil, List.intercalate_singleton, List.intercalate_singleton]
      | cons next later induction =>
          rw [List.map_cons, List.intercalate_cons_cons, List.intercalate_cons_cons, ← induction]
          cases later <;> simp [List.intercalate_cons_cons]

theorem forall₂_isPadded_spacedEntries (entries : List (List Char)) :
    List.Forall₂ IsPadded entries (spacedEntries entries) := by
  have alone : ∀ entry : List Char, IsPadded entry entry :=
    fun entry => ⟨[], [], (List.append_nil entry).symm, nofun⟩
  have spaced : ∀ entry : List Char, IsPadded entry (' ' :: entry) :=
    fun entry => ⟨[' '], [], (List.append_nil _).symm,
      List.forall_mem_singleton.mpr (by decide)⟩
  cases entries with
  | nil => exact .nil
  | cons first later =>
      exact .cons (alone first) (List.forall₂_map_right_iff.mpr (List.forall₂_same.mpr
        fun entry _ => spaced entry))

theorem map_trim_of_isPadded {entries others : List (List Char)}
    (isPadded : List.Forall₂ IsPadded entries others)
    (trimmed : ∀ entry ∈ entries, Text.IsTrimmed entry) : others.map Text.trim = entries := by
  induction isPadded with
  | nil => rfl
  | cons first _ induction =>
      rw [List.forall_mem_cons] at trimmed
      rw [List.map_cons, first.trim_eq trimmed.1, induction trimmed.2]

/-- Entries are told apart again when they are joined by commas and blanks. -/
theorem splitList_intercalate {entries : List (List Char)} (areCut : AreCut 0 entries)
    (trimmed : ∀ entry ∈ entries, Text.IsTrimmed entry) :
    splitList ([',', ' '].intercalate entries) = entries := by
  cases entries with
  | nil => rfl
  | cons first later =>
      let entries := first :: later
      have isPadded := forall₂_isPadded_spacedEntries entries
      have stretches :
          splitListFrom 0 ([',', ' '].intercalate entries) = spacedEntries entries := by
        rw [← intercalate_spacedEntries]
        exact splitListFrom_intercalate ((areCut_iff_of_isPadded isPadded).mpr areCut)
          (List.cons_ne_nil _ _)
      have filled : ∀ entry ∈ entries, (! entry.isEmpty) = true := by
        intro entry member
        have first := (trimmed entry member).first
        cases entry with
        | nil => cases first
        | cons character entry => rfl
      change splitList ([',', ' '].intercalate entries) = entries
      rw [splitList, stretches, map_trim_of_isPadded isPadded trimmed,
        List.filter_eq_self.mpr filled]

end

/-- A list loses only separators when it is split: no entry is empty or has blanks at its ends, all
characters but commas and blanks are kept in order, and the entries, joined by commas and blanks,
are the entries of what they are joined to. -/
theorem splitList_loses_separators (text : List Char) :
    (∀ entry ∈ splitList text, Text.IsTrimmed entry) ∧
      (splitList text).flatMap withoutSeparators = withoutSeparators text ∧
      splitList ([',', ' '].intercalate (splitList text)) = splitList text := by
  have trimmed : ∀ entry ∈ splitList text, Text.IsTrimmed entry :=
    fun _ => isTrimmed_of_mem_splitList
  refine ⟨trimmed, ?_, splitList_intercalate (areCut_splitList text) trimmed⟩
  calc (splitList text).flatMap withoutSeparators
      = (splitListFrom 0 text).flatMap withoutSeparators := flatMap_withoutSeparators_trimmed _
    _ = withoutSeparators ([','].intercalate (splitListFrom 0 text)) :=
      (withoutSeparators_intercalate _).symm
    _ = withoutSeparators text := by rw [intercalate_splitListFrom]

/-! ## Brackets that match -/

/-- What a character does to the closing brackets that are awaited, the next one first: an opening
bracket adds its own, and a closing one has to be the next. Angle brackets are left out. -/
def awaitedBehind? (awaited : List Char) (character : Char) : Option (List Char) :=
  if character = '(' then some (')' :: awaited)
  else if character = '[' then some (']' :: awaited)
  else if character = '\x7b' then some ('\x7d' :: awaited)
  else if character ∈ [')', ']', '\x7d'] then
    if awaited.head? = some character then some awaited.tail else none
  else some awaited

/-- The closing brackets that are awaited behind a text, if its brackets match so far. -/
def awaitedIn? (awaited text : List Char) : Option (List Char) :=
  text.foldlM awaitedBehind? awaited

/-- Whether each closing bracket of a text closes the latest one that is open, and none is left
open. -/
def BracketsMatch (text : List Char) : Prop := awaitedIn? [] text = some []

instance (text : List Char) : Decidable (BracketsMatch text) :=
  inferInstanceAs (Decidable (_ = _))

example : BracketsMatch "(a[b], \x7b \x7d)".toList ∧ ¬ BracketsMatch "(a]".toList := by decide

section

variable {awaited text front back padded : List Char}

theorem awaitedIn?_append (awaited front back : List Char) :
    awaitedIn? awaited (front ++ back) =
      (awaitedIn? awaited front).bind (awaitedIn? · back) := List.foldlM_append

theorem awaitedIn?_cons (awaited : List Char) (character : Char) (text : List Char) :
    awaitedIn? awaited (character :: text) =
      (awaitedBehind? awaited character).bind (awaitedIn? · text) := List.foldlM_cons

theorem awaitedBehind?_of_no_bracket (awaited : List Char) {character : Char}
    (noBracket : character ∉ listBrackets) : awaitedBehind? awaited character = some awaited := by
  simp only [listBrackets, List.mem_cons, List.not_mem_nil, or_false, not_or] at noBracket
  simp [awaitedBehind?, noBracket]

theorem awaitedIn?_of_blank (awaited : List Char)
    (blank : ∀ character ∈ text, Text.isBlank character = true) :
    awaitedIn? awaited text = some awaited := by
  induction text with
  | nil => rfl
  | cons character text induction =>
      rw [List.forall_mem_cons] at blank
      rw [awaitedIn?_cons,
        awaitedBehind?_of_no_bracket _ (not_mem_listBrackets_of_isBlank blank.1)]
      exact induction blank.2

theorem IsPadded.bracketsMatch_iff (isPadded : IsPadded text padded) :
    BracketsMatch padded ↔ BracketsMatch text := by
  rcases isPadded with ⟨front, back, rfl, blank⟩
  rw [List.forall_mem_append] at blank
  rw [BracketsMatch, BracketsMatch, awaitedIn?_append, awaitedIn?_append,
    awaitedIn?_of_blank _ blank.1, Option.bind_some]
  cases awaitedIn? [] text with
  | none => exact Iff.rfl
  | some awaited => rw [Option.bind_some, awaitedIn?_of_blank _ blank.2]

/-- Behind a text whose brackets match, the text goes on as if it started there. -/
theorem BracketsMatch.append_comma (isMatched : BracketsMatch front) (back : List Char) :
    awaitedIn? [] (front ++ ',' :: back) = awaitedIn? [] back := by
  rw [awaitedIn?_append, isMatched, Option.bind_some, awaitedIn?_cons,
    awaitedBehind?_of_no_bracket _ (by decide), Option.bind_some]

theorem bracketsMatch_intercalate {stretches : List (List Char)}
    (isMatched : ∀ stretch ∈ stretches, BracketsMatch stretch) :
    BracketsMatch ([','].intercalate stretches) := by
  induction stretches with
  | nil => rfl
  | cons stretch later induction =>
      rw [List.forall_mem_cons] at isMatched
      cases later with
      | nil =>
          rw [List.intercalate_singleton]
          exact isMatched.1
      | cons next later =>
          rw [List.intercalate_cons_cons, List.append_assoc, List.singleton_append, BracketsMatch,
            isMatched.1.append_comma]
          exact induction isMatched.2

/-- A character opens a bracket, closes the next one that is awaited, or does neither. -/
theorem awaitedBehind?_cases {next : List Char} {character : Char}
    (isNext : awaitedBehind? awaited character = some next) :
    (character ∈ ['(', '[', '\x7b'] ∧ next.length = awaited.length + 1) ∨
      (character ∈ [')', ']', '\x7d'] ∧ awaited.length = next.length + 1) ∨
        (character ∉ ['(', '[', '\x7b', ')', ']', '\x7d'] ∧ next = awaited) := by
  by_cases opens : character ∈ ['(', '[', '\x7b']
  · refine .inl ⟨opens, ?_⟩
    simp only [List.mem_cons, List.not_mem_nil, or_false] at opens
    rcases opens with rfl | rfl | rfl <;> cases isNext <;> rfl
  · have noOpening := opens
    simp only [List.mem_cons, List.not_mem_nil, or_false, not_or] at noOpening
    simp only [awaitedBehind?, noOpening, if_false] at isNext
    split at isNext
    · next closes =>
        refine .inr (.inl ⟨closes, ?_⟩)
        cases awaited with
        | nil => cases isNext
        | cons expected awaited =>
            split at isNext
            · cases isNext
              rfl
            · cases isNext
    · next noClosing =>
        exact .inr (.inr ⟨fun member => (List.mem_append.mp member).elim opens noClosing,
          (Option.some.inj isNext).symm⟩)

theorem listDepth_eq_of_awaited {next : List Char} {character : Char} (depth : Int)
    (isNext : awaitedBehind? awaited character = some next) :
    listDepth depth character = depth + next.length - awaited.length
      + [character].count '<' - [character].count '>' := by
  rcases awaitedBehind?_cases isNext with ⟨opens, length⟩ | ⟨closes, length⟩ | ⟨neither, rfl⟩
  · simp only [List.mem_cons, List.not_mem_nil, or_false] at opens
    rw [length]
    rcases opens with rfl | rfl | rfl <;> simp [listDepth] <;> omega
  · simp only [List.mem_cons, List.not_mem_nil, or_false] at closes
    rw [length]
    rcases closes with rfl | rfl | rfl <;> simp [listDepth] <;> omega
  · simp only [List.mem_cons, List.not_mem_nil, or_false, not_or] at neither
    by_cases opens : character = '<'
    · subst opens
      simp [listDepth]
    · by_cases closes : character = '>'
      · subst closes
        simp [listDepth]
      · simp [listDepth, neither, opens, closes]

/-- The depth of a list counts the brackets that wait to be closed, and angle brackets. -/
theorem listDepthBehind_eq_of_awaited {left : List Char} (depth : Int)
    (isLeft : awaitedIn? awaited text = some left) :
    listDepthBehind depth text = depth + left.length - awaited.length
      + text.count '<' - text.count '>' := by
  induction text generalizing awaited depth with
  | nil =>
      cases isLeft
      simp
  | cons character text induction =>
      rw [awaitedIn?_cons] at isLeft
      rcases Option.bind_eq_some_iff.mp isLeft with ⟨next, isNext, isLeft⟩
      have first := listDepth_eq_of_awaited depth isNext
      have parts : character :: text = [character] ++ text := rfl
      rw [listDepthBehind_cons, induction _ isLeft, first, parts, List.count_append,
        List.count_append]
      omega

/-! ## Cuts inside of brackets -/

/-- The entries of a list are the stretches that it is cut into, but for blanks. -/
theorem forall_bracketsMatch_splitList (text : List Char) :
    (∀ entry ∈ splitList text, BracketsMatch entry) ↔
      ∀ stretch ∈ splitListFrom 0 text, BracketsMatch stretch := by
  simp only [splitList, List.mem_filter, List.mem_map]
  constructor
  · intro isMatched stretch member
    rw [(isPadded_trim stretch).bracketsMatch_iff]
    by_cases empty : Text.trim stretch = []
    · rw [empty]
      rfl
    · exact isMatched _ ⟨⟨stretch, member, rfl⟩, by simpa using empty⟩
  · rintro isMatched entry ⟨⟨stretch, member, rfl⟩, -⟩
    exact (isPadded_trim stretch).bracketsMatch_iff.mp (isMatched stretch member)

/-- Brackets match in the stretches of a list if they do so in front of every cut. -/
theorem forall_bracketsMatch_of_cuts {depth : Int} {stretches : List (List Char)}
    (areCut : AreCut depth stretches) (isMatched : BracketsMatch ([','].intercalate stretches))
    (cuts : ∀ front back, [','].intercalate stretches = front ++ ',' :: back →
      listDepthBehind depth front ≤ 0 → BracketsMatch front) :
    ∀ stretch ∈ stretches, BracketsMatch stretch := by
  induction stretches generalizing depth with
  | nil => exact nofun
  | cons stretch later induction =>
      cases later with
      | nil => rwa [List.forall_mem_singleton, ← @List.intercalate_singleton _ [','] stretch]
      | cons next later =>
          rw [List.intercalate_cons_cons, List.append_assoc, List.singleton_append]
            at isMatched cuts
          have low := areCut.2.1 (List.cons_ne_nil _ _)
          have first := cuts stretch _ rfl low
          rw [BracketsMatch, first.append_comma] at isMatched
          refine List.forall_mem_cons.mpr ⟨first, induction areCut.2.2 isMatched ?_⟩
          intro front back parts isLow
          have whole := cuts (stretch ++ ',' :: front) back (by rw [parts]; simp)
            (by simpa using isLow)
          rwa [BracketsMatch, first.append_comma] at whole

/-- Brackets match in the stretches of a list just if they do so in front of every cut. -/
theorem forall_bracketsMatch_iff {depth : Int} (isMatched : BracketsMatch text) :
    (∀ stretch ∈ splitListFrom depth text, BracketsMatch stretch) ↔
      ∀ front back, text = front ++ ',' :: back → listDepthBehind depth front ≤ 0 →
        BracketsMatch front := by
  constructor
  · rintro each front back rfl low
    rw [splitListFrom_append_cons low, List.forall_mem_append] at each
    rw [← intercalate_splitListFrom depth front]
    exact bracketsMatch_intercalate each.1
  · intro cuts
    have whole := intercalate_splitListFrom depth text
    exact forall_bracketsMatch_of_cuts (areCut_splitListFrom depth text)
      (whole.symm ▸ isMatched) (whole.symm ▸ cuts)

end

/-- A list whose brackets match is cut inside of brackets where angle brackets outweigh them: the
brackets of all entries match just if each comma inside of brackets has fewer closing angle brackets
in front of it than opening ones and open brackets together. -/
theorem splitList_keeps_brackets_iff {text : List Char} (isMatched : BracketsMatch text) :
    (∀ entry ∈ splitList text, BracketsMatch entry) ↔
      ∀ front back awaited, text = front ++ ',' :: back → awaitedIn? [] front = some awaited →
        awaited ≠ [] → front.count '>' < front.count '<' + awaited.length := by
  rw [forall_bracketsMatch_splitList, forall_bracketsMatch_iff isMatched]
  constructor
  · intro cuts front back awaited parts isAwaited isOpen
    have depth := listDepthBehind_eq_of_awaited 0 isAwaited
    rw [List.length_nil] at depth
    by_contra outweighed
    have closed : some [] = some awaited :=
      (cuts front back parts (by omega)).symm.trans isAwaited
    exact isOpen (Option.some.inj closed).symm
  · intro protects front back parts low
    rw [BracketsMatch, parts, awaitedIn?_append] at isMatched
    cases isAwaited : awaitedIn? [] front with
    | none =>
        rw [isAwaited] at isMatched
        cases isMatched
    | some awaited =>
        have depth := listDepthBehind_eq_of_awaited 0 isAwaited
        rw [List.length_nil] at depth
        by_cases closed : awaited = []
        · rw [BracketsMatch, isAwaited, closed]
        · have := protects front back awaited parts isAwaited closed
          omega

/-- The arrow in the brackets of a default outweighs them, and the list is cut behind it. -/
theorem splitList_cuts_brackets_of_arrow :
    let text := "a = g(x => 1, 2)".toList
    BracketsMatch text ∧ splitList text = ["a = g(x => 1".toList, "2)".toList] ∧
      ¬ ∀ entry ∈ splitList text, BracketsMatch entry := by
  intro text
  have isMatched : BracketsMatch text := by decide
  refine ⟨isMatched, by decide, fun each => ?_⟩
  have protects := (splitList_keeps_brackets_iff isMatched).mp each "a = g(x => 1".toList
    " 2)".toList [')'] (by decide) (by decide) (by decide)
  exact absurd protects (by decide)

end SourceIndex
