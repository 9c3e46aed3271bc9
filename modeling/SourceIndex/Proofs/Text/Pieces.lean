import Mathlib.Data.List.Infix
import SourceIndex.Text.Trim

/-! Pieces of a text between separators, and how often a part occurs in a text. -/

namespace SourceIndex.Text

variable {separates : Char → Bool}

theorem splitAll_cons_separator {separator : Char} (isSeparator : separates separator = true)
    (rest : List Char) :
    splitAll separates (separator :: rest) = [] :: splitAll separates rest := by
  rw [splitAll, List.foldr_cons, if_pos isSeparator, splitAll]

/-- A character that does not separate lengthens the first piece. -/
theorem splitAll_cons {character : Char} (goesOn : separates character = false)
    {rest first : List Char} {later : List (List Char)}
    (split : splitAll separates rest = first :: later) :
    splitAll separates (character :: rest) = (character :: first) :: later := by
  rw [splitAll, List.foldr_cons, ← splitAll, split, goesOn]
  rfl

theorem splitAll_ne_nil (separates : Char → Bool) (text : List Char) :
    splitAll separates text ≠ [] := by
  induction text with
  | nil => exact List.cons_ne_nil _ _
  | cons character text induction =>
      cases isSeparator : separates character with
      | true =>
          rw [splitAll_cons_separator isSeparator]
          exact List.cons_ne_nil _ _
      | false =>
          rcases List.exists_cons_of_ne_nil induction with ⟨first, later, split⟩
          rw [splitAll_cons isSeparator split]
          exact List.cons_ne_nil _ _

/-- Text in front lengthens the first piece if nothing in it separates. -/
theorem splitAll_append {piece rest first : List Char} {later : List (List Char)}
    (none : ∀ character ∈ piece, separates character = false)
    (split : splitAll separates rest = first :: later) :
    splitAll separates (piece ++ rest) = (piece ++ first) :: later := by
  induction piece with
  | nil => exact split
  | cons character piece induction =>
      rw [List.forall_mem_cons] at none
      exact splitAll_cons none.1 (induction none.2)

theorem splitAll_of_none {piece : List Char}
    (none : ∀ character ∈ piece, separates character = false) :
    splitAll separates piece = [piece] := by
  have alone := splitAll_append none (rfl : splitAll separates [] = [[]])
  rwa [List.append_nil] at alone

theorem splitAll_append_cons {piece : List Char}
    (none : ∀ character ∈ piece, separates character = false) {separator : Char}
    (isSeparator : separates separator = true) (rest : List Char) :
    splitAll separates (piece ++ separator :: rest) = piece :: splitAll separates rest := by
  have behind := splitAll_append none (splitAll_cons_separator isSeparator rest)
  rwa [List.append_nil] at behind

/-- Two texts are split apart from each other, but for the last piece of the first one, which goes
on as the first one of the other. -/
theorem splitAll_append_of_last {front back last first : List Char}
    {earlier later : List (List Char)} (split : splitAll separates front = earlier ++ [last])
    (splitLater : splitAll separates back = first :: later) :
    splitAll separates (front ++ back) = earlier ++ (last ++ first) :: later := by
  induction front generalizing earlier last with
  | nil =>
      cases earlier with
      | nil =>
          cases split
          exact splitLater
      | cons piece earlier => simp [splitAll] at split
  | cons character front induction =>
      cases isSeparator : separates character with
      | true =>
          rw [splitAll_cons_separator isSeparator] at split
          rw [List.cons_append, splitAll_cons_separator isSeparator]
          cases earlier with
          | nil => exact absurd (List.cons.inj split).2 (splitAll_ne_nil _ _)
          | cons piece earlier =>
              rw [← (List.cons.inj split).1, induction (List.cons.inj split).2]
              rfl
      | false =>
          rcases List.exists_cons_of_ne_nil (splitAll_ne_nil separates front) with
            ⟨next, others, isSplit⟩
          rw [splitAll_cons isSeparator isSplit] at split
          rw [List.cons_append]
          cases earlier with
          | nil =>
              rcases List.cons.inj split with ⟨rfl, rfl⟩
              exact splitAll_cons isSeparator (@induction _ [] isSplit)
          | cons piece earlier =>
              rcases List.cons.inj split with ⟨rfl, rfl⟩
              exact splitAll_cons isSeparator (@induction _ (next :: earlier) isSplit)

/-- Pieces that are joined by a separator are told apart again. -/
theorem splitAll_intercalate {separator : Char} (isSeparator : separates separator = true)
    {pieces : List (List Char)}
    (none : ∀ piece ∈ pieces, ∀ character ∈ piece, separates character = false)
    (some : pieces ≠ []) : splitAll separates ([separator].intercalate pieces) = pieces := by
  induction pieces with
  | nil => exact absurd rfl some
  | cons piece pieces induction =>
      have first := none piece List.mem_cons_self
      cases pieces with
      | nil =>
          rw [List.intercalate_singleton]
          exact splitAll_of_none first
      | cons next pieces =>
          have rest := induction (fun other member => none other (List.mem_cons_of_mem _ member))
            (List.cons_ne_nil _ _)
          rw [List.intercalate_cons_cons, List.append_assoc, List.singleton_append,
            splitAll_append_cons first isSeparator, rest]

theorem not_separates_of_mem_splitAll {text piece : List Char}
    (member : piece ∈ splitAll separates text) :
    ∀ character ∈ piece, separates character = false := by
  induction text generalizing piece with
  | nil =>
      rw [List.mem_singleton.mp member]
      exact nofun
  | cons character text induction =>
      cases isSeparator : separates character with
      | true =>
          rw [splitAll_cons_separator isSeparator] at member
          rcases List.mem_cons.mp member with rfl | member
          · exact nofun
          · exact induction member
      | false =>
          rcases List.exists_cons_of_ne_nil (splitAll_ne_nil separates text) with
            ⟨first, later, split⟩
          rw [splitAll_cons isSeparator split] at member
          rw [split] at induction
          rcases List.mem_cons.mp member with rfl | member
          · exact List.forall_mem_cons.mpr ⟨isSeparator, induction List.mem_cons_self⟩
          · exact induction (List.mem_cons_of_mem _ member)

theorem mem_of_mem_splitAll {text piece : List Char} (member : piece ∈ splitAll separates text) :
    ∀ character ∈ piece, character ∈ text := by
  induction text generalizing piece with
  | nil =>
      rw [List.mem_singleton.mp member]
      exact nofun
  | cons character text induction =>
      intro other within
      cases isSeparator : separates character with
      | true =>
          rw [splitAll_cons_separator isSeparator] at member
          rcases List.mem_cons.mp member with rfl | member
          · cases within
          · exact List.mem_cons_of_mem _ (induction member other within)
      | false =>
          rcases List.exists_cons_of_ne_nil (splitAll_ne_nil separates text) with
            ⟨first, later, split⟩
          rw [splitAll_cons isSeparator split] at member
          rw [split] at induction
          rcases List.mem_cons.mp member with rfl | member
          · rcases List.mem_cons.mp within with rfl | within
            · exact List.mem_cons_self
            · exact List.mem_cons_of_mem _ (induction List.mem_cons_self other within)
          · exact List.mem_cons_of_mem _
              (induction (List.mem_cons_of_mem _ member) other within)

/-- The pieces of a text, joined by the only separator again, are the text. -/
theorem intercalate_splitAll {separator : Char}
    (only : ∀ character, separates character = true → character = separator) (text : List Char) :
    [separator].intercalate (splitAll separates text) = text := by
  induction text with
  | nil => rfl
  | cons character text induction =>
      rcases List.exists_cons_of_ne_nil (splitAll_ne_nil separates text) with ⟨first, later, split⟩
      cases isSeparator : separates character with
      | true =>
          rw [splitAll_cons_separator isSeparator, split, List.intercalate_cons_cons, ← split,
            induction, only character isSeparator]
          rfl
      | false =>
          rw [splitAll_cons isSeparator split, ← induction, split]
          cases later with
          | nil => rw [List.intercalate_singleton, List.intercalate_singleton]
          | cons next later =>
              rw [List.intercalate_cons_cons, List.intercalate_cons_cons]
              rfl

/-! ## Separators of several characters -/

theorem startsWith_iff {text lead : List Char} : startsWith text lead = true ↔ lead <+: text := by
  induction lead generalizing text with
  | nil => simp [startsWith, dropLead?]
  | cons expected lead induction =>
      cases text with
      | nil => simp [startsWith, dropLead?]
      | cons character text =>
          rw [List.cons_prefix_cons, ← induction]
          by_cases same : expected = character <;> simp [startsWith, dropLead?, same]

theorem splitTextFrom_ne_nil (separator : List Char) (skip : Nat) (text : List Char) :
    splitTextFrom separator skip text ≠ [] := by
  fun_induction splitTextFrom separator skip text with
  | case1 => exact List.cons_ne_nil _ _
  | case2 _ _ _ induction => exact induction
  | case3 => exact List.cons_ne_nil _ _
  | case4 => exact List.cons_ne_nil _ _
  | case5 => exact List.cons_ne_nil _ _

/-- The pieces of a text, joined by the separator again, are the text. -/
theorem intercalate_splitTextFrom {separator : List Char} (some : separator ≠ []) (skip : Nat)
    (text : List Char) :
    separator.intercalate (splitTextFrom separator skip text) = text.drop skip := by
  fun_induction splitTextFrom separator skip text with
  | case1 => simp
  | case2 skip character text induction => exact induction
  | case3 character text starts induction =>
      rcases List.exists_cons_of_ne_nil (splitTextFrom_ne_nil separator (separator.length - 1) text)
        with ⟨first, later, split⟩
      rcases List.exists_cons_of_ne_nil some with ⟨head, tail, rfl⟩
      rcases startsWith_iff.mp starts with ⟨rest, whole⟩
      rw [split, List.intercalate_cons_cons, ← split, induction, List.drop_zero, ← whole]
      cases whole
      simp
  | case4 character text _ none =>
      exact absurd none (splitTextFrom_ne_nil separator 0 text)
  | case5 character text _ first later split induction =>
      rw [List.drop_zero, ← @List.drop_zero _ text, ← induction, split]
      cases later with
      | nil => rw [List.intercalate_singleton, List.intercalate_singleton]
      | cons next later => simp [List.intercalate_cons_cons]

theorem one_lt_length_splitText {separator text : List Char} (some : separator ≠ [])
    (found : contains text separator = true) : 1 < (splitText separator text).length := by
  induction text with
  | nil => simp [contains, splitOnce?, some] at found
  | cons character text induction =>
      rw [splitText, splitTextFrom]
      split
      · have := List.length_pos_iff.mpr
          (splitTextFrom_ne_nil separator (separator.length - 1) text)
        rw [List.length_cons]
        omega
      · next noLead =>
          have later : contains text separator = true := by
            rw [contains, splitOnce?] at found
            rw [startsWith, Bool.not_eq_true, Option.isSome_eq_false_iff, Option.isNone_iff_eq_none]
              at noLead
            rw [noLead] at found
            simpa [contains] using found
          have more := induction later
          rw [splitText] at more
          rcases List.exists_cons_of_ne_nil (splitTextFrom_ne_nil separator 0 text) with
            ⟨first, others, split⟩
          rw [split] at more ⊢
          exact more

theorem intercalate_concat (separator : List Char) {pieces : List (List Char)} (some : pieces ≠ [])
    (last : List Char) :
    separator.intercalate (pieces ++ [last]) =
      separator.intercalate pieces ++ separator ++ last := by
  induction pieces with
  | nil => exact absurd rfl some
  | cons first pieces induction =>
      cases pieces with
      | nil => simp [List.intercalate_cons_cons]
      | cons next pieces =>
          have later := induction (List.cons_ne_nil _ _)
          rw [List.cons_append, List.cons_append, List.intercalate_cons_cons, ← List.cons_append,
            later, List.intercalate_cons_cons]
          simp only [List.append_assoc]

/-- A text that contains the separator is what stands in front of its last piece, the separator and
the last piece. -/
theorem eq_of_contains {separator text : List Char} (some : separator ≠ [])
    (found : contains text separator = true) :
    ∃ last, (splitText separator text).getLast? = .some last ∧
      text = separator.intercalate (splitText separator text).dropLast ++ separator ++ last := by
  have whole := intercalate_splitTextFrom some 0 text
  have long := one_lt_length_splitText some found
  rw [← splitText, List.drop_zero] at whole
  have pieces := List.ne_nil_of_length_pos (Nat.lt_of_succ_lt long)
  have front : (splitText separator text).dropLast ≠ [] := by
    apply List.ne_nil_of_length_pos
    rw [List.length_dropLast]
    omega
  refine ⟨(splitText separator text).getLast pieces, List.getLast?_eq_some_getLast pieces, ?_⟩
  rw [← intercalate_concat separator front, List.dropLast_concat_getLast pieces, whole]

/-! ## Occurrences

The count of a part leaves out occurrences that overlap earlier ones. Where the part begins with a
character that it does not hold again, there are none, and every place of the text counts at which
the part starts. -/

/-- What follows each place of a text at which it goes on as the test asks. -/
def countPlaces (test : List Char → Bool) (text : List Char) : Nat := text.tails.countP test

variable {test : List Char → Bool}

theorem countPlaces_cons (test : List Char → Bool) (character : Char) (rest : List Char) :
    countPlaces test (character :: rest) =
      (if test (character :: rest) then 1 else 0) + countPlaces test rest := by
  rw [countPlaces, List.tails_cons, List.countP_cons, Nat.add_comm, countPlaces]

/-- A place of a text counts wherever it stands. -/
theorem countPlaces_pos {front rest : List Char} (passes : test rest = true) :
    0 < countPlaces test (front ++ rest) :=
  List.countP_pos_iff.mpr ⟨rest, (List.mem_tails _ _).mpr (List.suffix_append front rest), passes⟩

/-- Places at which the text goes on in one of two ways are those of the one and of the other. -/
theorem countPlaces_add {first second : List Char → Bool}
    (apart : ∀ rest, first rest = true → second rest = false) (text : List Char) :
    countPlaces (fun rest => first rest || second rest) text =
      countPlaces first text + countPlaces second text := by
  rw [countPlaces, countPlaces, countPlaces]
  induction text.tails with
  | nil => rfl
  | cons rest places induction =>
      rw [List.countP_cons, List.countP_cons, List.countP_cons, induction]
      cases isFirst : first rest with
      | true => simp [apart rest isFirst]; omega
      | false => simp; omega

section

variable {head : Char} {tail : List Char} (apart : head ∉ tail)

theorem startsWith_of_ne {character : Char} (other : character ≠ head) (rest : List Char) :
    startsWith (character :: rest) (head :: tail) = false := by
  rw [Bool.eq_false_iff]
  intro starts
  exact other (List.cons_prefix_cons.mp (startsWith_iff.mp starts)).1.symm

include apart

theorem length_splitTextFrom (skip : Nat) (text : List Char)
    (skipped : head ∉ text.take skip) :
    (splitTextFrom (head :: tail) skip text).length =
      countPlaces (startsWith · (head :: tail)) text + 1 := by
  have none : ∀ character, character ≠ head → ∀ later,
      startsWith (character :: later) (head :: tail) = false :=
    fun character other => startsWith_of_ne other
  fun_induction splitTextFrom (head :: tail) skip text with
  | case1 => rfl
  | case2 skip character text induction =>
      rw [List.take_succ_cons, List.mem_cons, not_or] at skipped
      rw [induction skipped.2, countPlaces_cons, none character (Ne.symm skipped.1)]
      simp
  | case3 character text starts induction =>
      -- what remains of the occurrence is the tail, which does not hold the head again
      have rest : (tail <+: text) := (List.cons_prefix_cons.mp (startsWith_iff.mp starts)).2
      have taken : text.take tail.length = tail := (List.prefix_iff_eq_take.mp rest).symm
      have skipped : head ∉ text.take tail.length := fun member => apart (taken ▸ member)
      rw [List.length_cons, induction skipped, countPlaces_cons, if_pos starts]
      omega
  | case4 character text _ absurd => exact (splitTextFrom_ne_nil _ _ _ absurd).elim
  | case5 character text starts piece pieces split induction =>
      have length := induction List.not_mem_nil
      rw [split, List.length_cons] at length
      rw [List.length_cons, length, countPlaces_cons, if_neg starts, Nat.zero_add]

/-- A part that begins with a character that it does not hold again occurs at every place at which
it starts. -/
theorem countOccurrences_eq (text : List Char) : countOccurrences (head :: tail) text =
    countPlaces (startsWith · (head :: tail)) text := by
  rw [countOccurrences, splitText, length_splitTextFrom apart 0 text List.not_mem_nil,
    Nat.add_sub_cancel]

end

end SourceIndex.Text
