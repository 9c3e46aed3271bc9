import SourceIndex.Proofs.Text.Pieces
import SourceIndex.Proofs.Text.Trimming

/-! Words of a text, which are its stretches between blanks, and the text that words make when they
are joined by single blanks again. A blank between two texts keeps their words apart; any other
character between them makes one word of the last one in front and the first one behind. -/

namespace SourceIndex.Text

/-! ## Words -/

theorem mem_of_mem_words {text word : List Char} (member : word ∈ words text) :
    ∀ character ∈ word, character ∈ text :=
  mem_of_mem_splitAll (List.mem_of_mem_filter member)

/-- A word is not empty and holds no blank, so that none stands at its ends. -/
theorem isTrimmed_of_mem_words {text word : List Char} (member : word ∈ words text) :
    IsTrimmed word := by
  rcases List.mem_filter.mp member with ⟨isPiece, filled⟩
  have noBlank := not_separates_of_mem_splitAll isPiece
  have unchanged := trim_of_no_blank noBlank
  rw [← unchanged]
  apply isTrimmed_trim
  rw [unchanged]
  simpa using filled

/-- A blank keeps the words in front of it and those behind it apart. -/
theorem words_append_blank {blank : Char} (isSpace : isBlank blank = true)
    (front back : List Char) : words (front ++ blank :: back) = words front ++ words back := by
  have inFront := (List.dropLast_concat_getLast (splitAll_ne_nil isBlank front)).symm
  have whole : splitAll isBlank (front ++ blank :: back) =
      splitAll isBlank front ++ splitAll isBlank back := by
    rw [splitAll_append_of_last inFront (splitAll_cons_separator isSpace back),
      List.append_nil, List.append_cons, ← inFront]
  rw [words, whole, List.filter_append, words, words]

/-- The first piece of a text that starts with no blank is its first word. -/
theorem exists_splitAll_cons {text : List Char} (starts : text.head?.any (! isBlank ·) = true) :
    ∃ first later, splitAll isBlank text = first :: later ∧ first.head? = text.head? ∧
      words text = first :: later.filter (! ·.isEmpty) := by
  cases text with
  | nil => cases starts
  | cons character text =>
      have isInk : isBlank character = false := by simpa using starts
      rcases List.exists_cons_of_ne_nil (splitAll_ne_nil isBlank text) with ⟨first, later, split⟩
      have whole := splitAll_cons isInk split
      refine ⟨character :: first, later, whole, rfl, ?_⟩
      rw [words, whole]
      rfl

/-- The last piece of a text that ends in no blank is its last word. -/
theorem exists_splitAll_concat {text : List Char}
    (ends : text.getLast?.any (! isBlank ·) = true) :
    ∃ earlier last, splitAll isBlank text = earlier ++ [last] ∧ last.getLast? = text.getLast? ∧
      words text = earlier.filter (! ·.isEmpty) ++ [last] := by
  rcases List.eq_nil_or_concat' text with rfl | ⟨text, character, rfl⟩
  · cases ends
  · have isInk : isBlank character = false := by simpa using ends
    rcases List.eq_nil_or_concat' (splitAll isBlank text) with none | ⟨earlier, last, split⟩
    · exact absurd none (splitAll_ne_nil isBlank text)
    · have whole := splitAll_append_of_last split
        (splitAll_cons isInk (rfl : splitAll isBlank [] = [[]]))
      refine ⟨earlier, last ++ [character], whole, by simp, ?_⟩
      rw [words, whole, List.filter_append]
      simp

/-- A character that is no blank makes one word of those at its sides. -/
theorem exists_words_append {front back : List Char} {mark : Char}
    (isInk : isBlank mark = false) (ends : front.getLast?.any (! isBlank ·) = true)
    (starts : back.head?.any (! isBlank ·) = true) :
    ∃ earlier last first later, words front = earlier ++ [last] ∧ words back = first :: later ∧
      words (front ++ mark :: back) = earlier ++ (last ++ mark :: first) :: later ∧
        last.getLast? = front.getLast? ∧ first.head? = back.head? := by
  rcases exists_splitAll_concat ends with ⟨earlier, last, inFront, isLast, wordsInFront⟩
  rcases exists_splitAll_cons starts with ⟨first, later, behind, isFirst, wordsBehind⟩
  have whole := splitAll_append_of_last inFront (splitAll_cons isInk behind)
  refine ⟨_, last, first, _, wordsInFront, wordsBehind, ?_, isLast, isFirst⟩
  rw [words, whole, List.filter_append]
  simp

/-! ## Words that are joined -/

/-- What stands between a word and others beside it: a blank, if there are any. -/
def gapBeside (pieces : List (List Char)) : List Char := if pieces.isEmpty then [] else [' ']

@[simp] theorem gapBeside_nil : gapBeside [] = [] := rfl

@[simp] theorem gapBeside_cons (word : List Char) (pieces : List (List Char)) :
    gapBeside (word :: pieces) = [' '] := rfl

@[simp] theorem joinWords_nil : joinWords [] = [] := rfl

theorem joinWords_cons (word : List Char) (later : List (List Char)) :
    joinWords (word :: later) = word ++ gapBeside later ++ joinWords later := by
  cases later with
  | nil => simp [joinWords]
  | cons next later => rw [joinWords, List.intercalate_cons_cons, gapBeside_cons, joinWords]

theorem joinWords_append_cons (earlier : List (List Char)) (word : List Char)
    (later : List (List Char)) :
    joinWords (earlier ++ word :: later) =
      joinWords earlier ++ gapBeside earlier ++ (word ++ gapBeside later ++ joinWords later) := by
  induction earlier with
  | nil => rw [List.nil_append, joinWords_cons, joinWords_nil, gapBeside_nil, List.nil_append,
      List.nil_append]
  | cons first earlier induction =>
      have more : gapBeside (earlier ++ word :: later) = [' '] := by cases earlier <;> rfl
      rw [List.cons_append, joinWords_cons, induction, joinWords_cons, more, gapBeside_cons]
      cases earlier with
      | nil => simp
      | cons next earlier => simp

theorem not_mem_gapBeside {mark : Char} (notBlank : mark ≠ ' ') (pieces : List (List Char)) :
    mark ∉ gapBeside pieces := by
  cases pieces <;> simp [notBlank]

theorem not_mem_joinWords {mark : Char} (notBlank : mark ≠ ' ') {pieces : List (List Char)}
    (without : ∀ word ∈ pieces, mark ∉ word) : mark ∉ joinWords pieces := by
  induction pieces with
  | nil => exact List.not_mem_nil
  | cons word later induction =>
      rw [List.forall_mem_cons] at without
      rw [joinWords_cons, List.mem_append, List.mem_append]
      rintro ((inWord | inGap) | behind)
      · exact without.1 inWord
      · exact not_mem_gapBeside notBlank later inGap
      · exact induction without.2 behind

/-- No blank stands at the ends of a text that words make. -/
theorem isTrimmed_joinWords {pieces : List (List Char)} (some : pieces ≠ [])
    (trimmed : ∀ word ∈ pieces, IsTrimmed word) : IsTrimmed (joinWords pieces) := by
  constructor
  · rcases List.exists_cons_of_ne_nil some with ⟨first, later, rfl⟩
    rw [joinWords_cons, List.append_assoc]
    exact (trimmed first List.mem_cons_self).head_append _
  · rcases List.eq_nil_or_concat' pieces with rfl | ⟨earlier, last, rfl⟩
    · exact absurd rfl some
    · rw [joinWords_append_cons, gapBeside_nil, joinWords_nil, List.append_nil, List.append_nil]
      exact (trimmed last (by simp)).getLast_append _

theorem trim_joinWords {pieces : List (List Char)}
    (trimmed : ∀ word ∈ pieces, IsTrimmed word) : trim (joinWords pieces) = joinWords pieces := by
  cases pieces with
  | nil => rfl
  | cons first later => exact (isTrimmed_joinWords (List.cons_ne_nil _ _) trimmed).trim_eq

/-- The blank behind words that are joined is trimmed. -/
theorem trim_joinWords_gapBeside {pieces : List (List Char)}
    (trimmed : ∀ word ∈ pieces, IsTrimmed word) :
    trim (joinWords pieces ++ gapBeside pieces) = joinWords pieces := by
  have blank : ∀ character ∈ gapBeside pieces, isBlank character = true := by
    cases pieces with
    | nil => exact nofun
    | cons word later => exact List.forall_mem_singleton.mpr (by decide)
  rw [trim_append_blanks blank, trim_joinWords trimmed]

/-- The blank in front of words that are joined is trimmed. -/
theorem trim_gapBeside_joinWords {pieces : List (List Char)}
    (trimmed : ∀ word ∈ pieces, IsTrimmed word) :
    trim (gapBeside pieces ++ joinWords pieces) = joinWords pieces := by
  cases pieces with
  | nil => rfl
  | cons word later =>
      have lead : trim (gapBeside (word :: later) ++ joinWords (word :: later)) =
          trim (joinWords (word :: later)) := rfl
      rw [lead, trim_joinWords trimmed]

end SourceIndex.Text
