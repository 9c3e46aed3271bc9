import Mathlib.Data.List.TakeWhile
import SourceIndex.Text.Trim

/-! What is left of a text without the blanks at its ends. -/

namespace SourceIndex.Text

theorem exists_trimEnd (text : List Char) : ∃ back, text = trimEnd text ++ back ∧
    ∀ character ∈ back, isBlank character = true := by
  refine ⟨(text.reverse.takeWhile isBlank).reverse, ?_, fun character member => ?_⟩
  · rw [trimEnd, dropEndWhile, ← List.reverse_append, List.takeWhile_append_dropWhile,
      List.reverse_reverse]
  · exact List.mem_takeWhile_imp (List.mem_reverse.mp member)

theorem exists_trim (text : List Char) : ∃ front back, text = front ++ trim text ++ back ∧
    ∀ character ∈ front ++ back, isBlank character = true := by
  rcases exists_trimEnd (trimStart text) with ⟨back, parts, blank⟩
  refine ⟨text.takeWhile isBlank, back, ?_, fun character member => ?_⟩
  · rw [List.append_assoc, trim, ← parts]
    exact List.takeWhile_append_dropWhile.symm
  · rcases List.mem_append.mp member with inFront | behind
    · exact List.mem_takeWhile_imp inFront
    · exact blank character behind

/-- A text is blank if nothing is left of it between the blanks at its ends. -/
theorem isEmpty_trim (text : List Char) : (trim text).isEmpty = isBlankText text := by
  rw [Bool.eq_iff_iff, List.isEmpty_iff, isBlankText, List.all_eq_true]
  constructor
  · intro empty
    rcases exists_trim text with ⟨front, back, parts, blank⟩
    rwa [parts, empty, List.append_nil]
  · intro blank
    have start : trimStart text = [] := List.dropWhile_eq_nil_iff.mpr blank
    rw [trim, start]
    rfl

/-! ## Texts that end in no blank -/

/-- Whether a text has a first and a last character, and neither is a blank. -/
structure IsTrimmed (text : List Char) : Prop where
  first : text.head?.any (! isBlank ·) = true
  last : text.getLast?.any (! isBlank ·) = true

theorem IsTrimmed.ne_nil {text : List Char} (trimmed : IsTrimmed text) : text ≠ [] := by
  rintro rfl
  cases trimmed.first

theorem head?_trimStart (text : List Char) (some : trimStart text ≠ []) :
    (trimStart text).head?.any (! isBlank ·) = true := by
  have first := List.head?_dropWhile_not isBlank text
  rcases List.exists_cons_of_ne_nil some with ⟨character, rest, isStart⟩
  rw [← trimStart, isStart] at first
  rw [isStart]
  exact Bool.not_eq_true' _ |>.mpr first

/-- What is left between the blanks at the ends of a text begins and ends with no blank. -/
theorem isTrimmed_trim {text : List Char} (some : trim text ≠ []) : IsTrimmed (trim text) := by
  constructor
  · rcases exists_trimEnd (trimStart text) with ⟨back, parts, -⟩
    rw [← trim] at parts
    have start : trimStart text ≠ [] := fun none => some (by rw [trim, none]; rfl)
    have first := head?_trimStart text start
    rcases List.exists_cons_of_ne_nil some with ⟨character, rest, isTrim⟩
    rw [parts, isTrim] at first
    rw [isTrim]
    exact first
  · have start : trimStart (trimStart text).reverse ≠ [] := fun none => some (by
      rw [trim, trimEnd, dropEndWhile, ← trimStart, none]
      rfl)
    rw [trim, trimEnd, dropEndWhile, List.getLast?_reverse]
    exact head?_trimStart _ start

theorem trimStart_of_head {text : List Char} (first : text.head?.any (! isBlank ·) = true) :
    trimStart text = text := by
  cases text with
  | nil => rfl
  | cons character text =>
      exact List.dropWhile_cons_of_neg (by simpa using first)

theorem trimEnd_append {front : List Char} (last : front.getLast?.any (! isBlank ·) = true)
    (back : List Char) : trimEnd (front ++ back) = front ++ trimEnd back := by
  have stays : front.reverse.dropWhile isBlank = front.reverse :=
    trimStart_of_head (by rwa [List.head?_reverse])
  rw [trimEnd, dropEndWhile, List.reverse_append, List.dropWhile_append]
  split
  · next none =>
      rw [stays, List.reverse_reverse, trimEnd, dropEndWhile, List.isEmpty_iff.mp none]
      simp
  · rw [List.reverse_append, List.reverse_reverse]
    rfl

theorem trim_cons {character : Char} (isInk : isBlank character = false) (text : List Char) :
    trim (character :: text) = character :: trimEnd text := by
  have start : trimStart (character :: text) = [character] ++ text :=
    trimStart_of_head (by simp [isInk])
  rw [trim, start, trimEnd_append (by simp [isInk]), List.singleton_append]

theorem isTrimmed_cons_trimEnd {character : Char} (isInk : isBlank character = false)
    (text : List Char) : IsTrimmed (character :: trimEnd text) := by
  have isTrim := trim_cons isInk text
  rw [← isTrim]
  apply isTrimmed_trim
  rw [isTrim]
  exact List.cons_ne_nil _ _

theorem IsTrimmed.head_append {front : List Char} (trimmed : IsTrimmed front) (back : List Char) :
    (front ++ back).head?.any (! isBlank ·) = true := by
  cases front with
  | nil => cases trimmed.first
  | cons character front => exact trimmed.first

/-- Only what follows a text that ends in no blank is trimmed. -/
theorem IsTrimmed.trim_append {front : List Char} (trimmed : IsTrimmed front) (back : List Char) :
    trim (front ++ back) = front ++ trimEnd back := by
  rw [trim, trimStart_of_head (trimmed.head_append back), trimEnd_append trimmed.last]

theorem IsTrimmed.trim_eq {text : List Char} (trimmed : IsTrimmed text) : trim text = text := by
  have alone := trimmed.trim_append []
  rwa [List.append_nil, show trimEnd [] = [] from rfl, List.append_nil] at alone

/-- A text in which no blank stands is not changed. -/
theorem trim_of_no_blank {text : List Char}
    (noBlank : ∀ character ∈ text, isBlank character = false) : trim text = text := by
  cases text with
  | nil => rfl
  | cons character text =>
      refine IsTrimmed.trim_eq ⟨by simp [noBlank character List.mem_cons_self], ?_⟩
      rw [List.getLast?_eq_some_getLast (List.cons_ne_nil _ _), Option.any_some,
        noBlank _ (List.getLast_mem _)]
      rfl

theorem IsTrimmed.getLast_append {back : List Char} (trimmed : IsTrimmed back)
    (front : List Char) : (front ++ back).getLast?.any (! isBlank ·) = true := by
  rw [List.getLast?_append]
  cases isLast : back.getLast? with
  | none => simpa [isLast] using trimmed.last
  | some character => simpa [isLast] using trimmed.last

/-- What is added to a line goes behind what is left of the line, and blanks. -/
theorem exists_trim_append {mark : List Char} (trimmed : IsTrimmed mark) (line rest : List Char) :
    ∃ gap, (∀ character ∈ gap, isBlank character = true) ∧
      trim (line ++ mark ++ rest) = trim line ++ gap ++ mark ++ trimEnd rest := by
  have start : trimStart (line ++ mark ++ rest) =
      if (trimStart line).isEmpty then mark ++ rest else trimStart line ++ mark ++ rest := by
    have behind : trimStart (mark ++ rest) = mark ++ rest :=
      trimStart_of_head (trimmed.head_append rest)
    rw [List.append_assoc, trimStart, List.dropWhile_append, ← trimStart, ← trimStart, behind,
      List.append_assoc]
  rw [trim, start]
  split
  · next empty =>
      rw [trim, List.isEmpty_iff.mp empty, trimEnd_append trimmed.last]
      exact ⟨[], nofun, rfl⟩
  · rcases exists_trimEnd (trimStart line) with ⟨back, parts, blank⟩
    refine ⟨back, blank, ?_⟩
    rw [trimEnd_append (trimmed.getLast_append _), trim, ← parts]

/-- Blanks behind a text do not matter. -/
theorem trim_append_blanks {blanks : List Char}
    (blank : ∀ character ∈ blanks, isBlank character = true) (text : List Char) :
    trim (text ++ blanks) = trim text := by
  have behind : ∀ text, trimEnd (text ++ blanks) = trimEnd text := by
    intro text
    rw [trimEnd, dropEndWhile, List.reverse_append,
      List.dropWhile_append_of_pos (by simpa using blank)]
    rfl
  rw [trim, trim, trimStart, List.dropWhile_append, ← trimStart]
  split
  · next empty =>
      have none : blanks.dropWhile isBlank = [] := List.dropWhile_eq_nil_iff.mpr blank
      rw [none, List.isEmpty_iff.mp empty]
  · exact behind _

end SourceIndex.Text
