import SourceIndex.Proofs.Text.Pieces
import SourceIndex.Text.Lines

/-! Where the lines of a text stand in it. The characters from the start of one line to the end of
another are these lines and those between them, but for carriage returns in front of line feeds. -/

namespace SourceIndex.Text

/-! ## Line endings -/

/-- A text without the carriage returns that stand right in front of line feeds. -/
def withoutReturns : List Char → List Char
  | '\r' :: '\n' :: rest => '\n' :: withoutReturns rest
  | character :: rest => character :: withoutReturns rest
  | [] => []

example : withoutReturns "a\r\r\nb\r".toList = "a\r\nb\r".toList := by decide

theorem withoutReturns_cons {character : Char} {rest : List Char}
    (stays : character = '\r' → rest.head? ≠ some '\n') :
    withoutReturns (character :: rest) = character :: withoutReturns rest := by
  rw [withoutReturns]
  intro later isReturn isFeed
  exact stays isReturn (by rw [isFeed]; rfl)

theorem withoutReturns_append {piece rest : List Char} (noFeed : '\n' ∉ piece)
    (stays : piece.getLast? = some '\r' → rest.head? ≠ some '\n') :
    withoutReturns (piece ++ rest) = piece ++ withoutReturns rest := by
  induction piece with
  | nil => rfl
  | cons character piece induction =>
      rw [List.mem_cons, not_or] at noFeed
      cases piece with
      | nil => exact withoutReturns_cons fun isReturn => stays (congrArg some isReturn)
      | cons next piece =>
          have different : (next :: piece ++ rest).head? ≠ some '\n' := fun same =>
            noFeed.2 (by rw [← Option.some.inj same]; exact List.mem_cons_self)
          rw [List.cons_append, withoutReturns_cons fun _ => different,
            induction noFeed.2 (by rwa [List.getLast?_cons_cons] at stays)]
          rfl

/-- A line is what is left of it in front of a line feed. -/
theorem withoutReturns_ended {piece : List Char} (noFeed : '\n' ∉ piece) (rest : List Char) :
    withoutReturns (piece ++ '\n' :: rest) =
      dropCarriageReturn piece ++ '\n' :: withoutReturns rest := by
  have feed : withoutReturns ('\n' :: rest) = '\n' :: withoutReturns rest :=
    withoutReturns_cons nofun
  rw [dropCarriageReturn]
  split
  · next front isReversed =>
      have ends : piece = front.reverse ++ ['\r'] := by
        rw [← List.reverse_reverse piece, isReversed, List.reverse_cons]
      rw [ends, List.mem_append, not_or] at noFeed
      rw [ends, List.append_assoc, withoutReturns_append noFeed.1 (by simp)]
      rfl
  · next other =>
      rw [withoutReturns_append noFeed, feed]
      intro isLast
      rcases List.getLast?_eq_some_iff.mp isLast with ⟨front, rfl⟩
      exact (other front.reverse List.reverse_concat).elim

theorem withoutReturns_of_no_feed {piece : List Char} (noFeed : '\n' ∉ piece) :
    withoutReturns piece = piece := by
  have alone : withoutReturns (piece ++ []) = piece ++ withoutReturns [] :=
    withoutReturns_append noFeed fun _ => nofun
  simpa [withoutReturns] using alone

/-! ## Joined lines -/

theorem joinLines_cons {line : List Char} {lines : List (List Char)} (more : lines ≠ []) :
    joinLines (line :: lines) = line ++ '\n' :: joinLines lines := by
  cases lines with
  | nil => exact absurd rfl more
  | cons next lines =>
      rw [joinLines, List.intercalate_cons_cons, List.append_assoc]
      rfl

theorem joinLines_splitAll (text : List Char) : joinLines (splitAll (· == '\n') text) = text :=
  intercalate_splitAll (fun _ isFeed => eq_of_beq isFeed) text

/-! ## Starts -/

/-- The offset at which a piece starts. -/
def startOf (pieces : List (List Char)) (index : Nat) : Nat :=
  ((startsOfPieces 0 pieces)[index]?).getD 0

theorem startsOfPieces_eq_map (offset : Nat) (pieces : List (List Char)) :
    startsOfPieces offset pieces = (startsOfPieces 0 pieces).map (offset + ·) := by
  induction pieces generalizing offset with
  | nil => rfl
  | cons piece rest induction =>
      rw [startsOfPieces, startsOfPieces, induction, induction (0 + piece.length + 1),
        List.map_cons, List.map_map]
      congr 1
      apply List.map_congr_left
      intro start _
      simp only [Function.comp_apply]
      omega

theorem length_startsOfPieces (offset : Nat) (pieces : List (List Char)) :
    (startsOfPieces offset pieces).length = pieces.length := by
  induction pieces generalizing offset with
  | nil => rfl
  | cons piece rest induction => rw [startsOfPieces, List.length_cons, induction, List.length_cons]

theorem startOf_zero (pieces : List (List Char)) : startOf pieces 0 = 0 := by
  cases pieces <;> rfl

theorem startOf_succ {piece : List Char} {rest : List (List Char)} {index : Nat}
    (isPiece : index < rest.length) :
    startOf (piece :: rest) (index + 1) = piece.length + 1 + startOf rest index := by
  rw [← length_startsOfPieces 0] at isPiece
  rw [startOf, startsOfPieces, startsOfPieces_eq_map, List.getElem?_cons_succ, List.getElem?_map,
    List.getElem?_eq_getElem isPiece, startOf, List.getElem?_eq_getElem isPiece]
  simp

/-! ## Stretches -/

/-- What lies behind the first piece does not depend on it. -/
theorem extract_joinLines_succ (piece : List Char) {rest : List (List Char)} (more : rest ≠ [])
    (start stop : Nat) :
    (joinLines (piece :: rest)).extract (piece.length + 1 + start) (piece.length + 1 + stop) =
      (joinLines rest).extract start stop := by
  have shift : piece.length + 1 + stop - (piece.length + 1 + start) = stop - start := by omega
  rw [joinLines_cons more, List.extract_eq_take_drop, List.extract_eq_take_drop, shift,
    List.append_cons, ← List.drop_drop]
  simp

theorem extract_joinLines_zero (piece : List Char) {rest : List (List Char)} (more : rest ≠ [])
    (stop : Nat) :
    (joinLines (piece :: rest)).extract 0 (piece.length + 1 + stop) =
      piece ++ '\n' :: (joinLines rest).extract 0 stop := by
  have all : (piece ++ ['\n']).length ≤ piece.length + 1 + stop := by simp
  rw [joinLines_cons more, List.extract_eq_take_drop, List.extract_eq_take_drop, List.append_cons,
    Nat.sub_zero, Nat.sub_zero, List.drop_zero, List.drop_zero, List.take_append,
    List.take_of_length_le all]
  simp

/-! ## Lines -/

theorem dropCarriageReturn_prefix (piece : List Char) : dropCarriageReturn piece <+: piece := by
  rw [dropCarriageReturn]
  split
  · next front isReversed =>
      refine ⟨['\r'], ?_⟩
      rw [← List.reverse_reverse piece, isReversed, List.reverse_cons]
  · exact List.prefix_rfl

theorem linesOfPieces_cons {piece : List Char} {rest : List (List Char)} (more : rest ≠ []) :
    linesOfPieces (piece :: rest) = dropCarriageReturn piece :: linesOfPieces rest := by
  cases rest with
  | nil => exact absurd rfl more
  | cons next rest => rfl

theorem length_linesOfPieces_le (pieces : List (List Char)) :
    (linesOfPieces pieces).length ≤ pieces.length := by
  induction pieces with
  | nil => exact Nat.le_refl _
  | cons piece rest induction =>
      by_cases more : rest = []
      · subst more
        rw [linesOfPieces]
        split
        · exact Nat.zero_le _
        · exact Nat.le_refl _
      · rw [linesOfPieces_cons more]
        exact Nat.succ_le_succ induction

theorem eq_of_getElem?_singleton {last line : List Char} {index : Nat}
    (isLine : (linesOfPieces [last])[index]? = some line) : index = 0 ∧ line = last := by
  rw [linesOfPieces] at isLine
  split at isLine
  · cases isLine
  · rw [List.getElem?_singleton] at isLine
    split at isLine
    · next isFirst => exact ⟨isFirst, (Option.some.inj isLine).symm⟩
    · cases isLine

/-- The first line is what the first piece starts with. -/
theorem prefix_of_getElem?_zero {pieces : List (List Char)} {line : List Char}
    (isLine : (linesOfPieces pieces)[0]? = some line) :
    ∃ piece ∈ pieces, line <+: piece ∧ line <+: joinLines pieces := by
  cases pieces with
  | nil => cases isLine
  | cons piece rest =>
      refine ⟨piece, List.mem_cons_self, ?_⟩
      by_cases more : rest = []
      · subst more
        rw [(eq_of_getElem?_singleton isLine).2, joinLines, List.intercalate_singleton]
        exact ⟨List.prefix_rfl, List.prefix_rfl⟩
      · rw [linesOfPieces_cons more] at isLine
        cases isLine
        have isFront := dropCarriageReturn_prefix piece
        rw [joinLines_cons more]
        exact ⟨isFront, isFront.trans (List.prefix_append _ _)⟩

/-- Behind the first line there are those of the pieces behind the first one. -/
theorem exists_of_getElem?_succ {pieces : List (List Char)} {index : Nat} {line : List Char}
    (isLine : (linesOfPieces pieces)[index + 1]? = some line) :
    ∃ piece rest, pieces = piece :: rest ∧ rest ≠ [] ∧ index < rest.length ∧
      (linesOfPieces rest)[index]? = some line := by
  cases pieces with
  | nil => cases isLine
  | cons piece rest =>
      have more : rest ≠ [] := by
        rintro rfl
        exact Nat.succ_ne_zero index (eq_of_getElem?_singleton isLine).1
      rw [linesOfPieces_cons more, List.getElem?_cons_succ] at isLine
      have short := (List.getElem?_eq_some_iff.mp isLine).1
      have less := Nat.lt_of_lt_of_le short (length_linesOfPieces_le rest)
      exact ⟨piece, rest, rfl, more, less, isLine⟩

theorem startOf_le_startOf {pieces : List (List Char)} {first last : Nat} (order : first ≤ last)
    (isPiece : last < pieces.length) : startOf pieces first ≤ startOf pieces last := by
  induction pieces generalizing first last with
  | nil => exact absurd isPiece (Nat.not_lt_zero _)
  | cons piece rest induction =>
      cases first with
      | zero => exact (startOf_zero _).symm ▸ Nat.zero_le _
      | succ first =>
          cases last with
          | zero => exact absurd order (Nat.not_succ_le_zero _)
          | succ last =>
              have order := Nat.le_of_succ_le_succ order
              have isPiece := Nat.lt_of_succ_lt_succ isPiece
              rw [startOf_succ isPiece, startOf_succ (Nat.lt_of_le_of_lt order isPiece)]
              exact Nat.add_le_add_left (induction order isPiece) _

/-- Every line ends within the text. -/
theorem startOf_add_length_le {pieces : List (List Char)} {index : Nat} {line : List Char}
    (isLine : (linesOfPieces pieces)[index]? = some line) :
    startOf pieces index + line.length ≤ (joinLines pieces).length := by
  induction index generalizing pieces with
  | zero =>
      rcases prefix_of_getElem?_zero isLine with ⟨-, -, -, isFront⟩
      rw [startOf_zero, Nat.zero_add]
      exact isFront.length_le
  | succ index induction =>
      rcases exists_of_getElem?_succ isLine with ⟨piece, rest, rfl, more, isPiece, isLine⟩
      have within := induction isLine
      rw [startOf_succ isPiece, joinLines_cons more, List.length_append, List.length_cons]
      omega

theorem extract_of_prefix {front text : List Char} (isFront : front <+: text) :
    text.extract 0 front.length = front := by
  rw [List.extract_eq_take_drop, List.drop_zero, Nat.sub_zero]
  exact (List.prefix_iff_eq_take.mp isFront).symm

/-- The characters from the start of one line to the end of another, without carriage returns in
front of line feeds, are the lines from the one to the other. -/
theorem withoutReturns_extract {pieces : List (List Char)} (noFeed : ∀ piece ∈ pieces, '\n' ∉ piece)
    {first last : Nat} (order : first ≤ last) {line : List Char}
    (isLine : (linesOfPieces pieces)[last]? = some line) :
    withoutReturns ((joinLines pieces).extract (startOf pieces first)
        (startOf pieces last + line.length)) =
      joinLines ((linesOfPieces pieces).extract first (last + 1)) := by
  induction last generalizing first pieces with
  | zero =>
      cases Nat.le_zero.mp order
      rcases prefix_of_getElem?_zero isLine with ⟨piece, member, isFront, isLead⟩
      have noFeedLeft : '\n' ∉ line := fun feed => noFeed piece member (isFront.subset feed)
      have only : (linesOfPieces pieces).extract 0 1 = [line] := by
        rw [List.extract_eq_take_drop, List.drop_zero, Nat.sub_zero, List.take_one,
          List.head?_eq_getElem?, isLine]
        rfl
      rw [startOf_zero, Nat.zero_add, extract_of_prefix isLead,
        withoutReturns_of_no_feed noFeedLeft, only, joinLines, List.intercalate_singleton]
  | succ last induction =>
      rcases exists_of_getElem?_succ isLine with ⟨piece, rest, rfl, more, isPiece, isLine⟩
      rw [List.forall_mem_cons] at noFeed
      rw [startOf_succ isPiece, Nat.add_assoc _ (startOf rest last), linesOfPieces_cons more]
      cases first with
      | zero =>
          have behind := induction noFeed.2 (Nat.zero_le last) isLine
          have short := (List.getElem?_eq_some_iff.mp isLine).1
          have some : (linesOfPieces rest).extract 0 (last + 1) ≠ [] := by
            rw [List.extract_eq_take_drop, List.drop_zero, List.ne_nil_iff_length_pos,
              List.length_take]
            omega
          rw [startOf_zero] at behind ⊢
          rw [extract_joinLines_zero piece more, withoutReturns_ended noFeed.1, behind,
            ← joinLines_cons some]
          rfl
      | succ first =>
          have order := Nat.le_of_succ_le_succ order
          rw [startOf_succ (Nat.lt_of_le_of_lt order isPiece), extract_joinLines_succ piece more,
            induction noFeed.2 order isLine]
          simp

section

variable {text : List Char} {first last : Nat} {line : List Char} (order : first ≤ last)
  (isLine : (lines text)[last]? = some line)

include isLine

theorem lineStart_add_length_le :
    ((lineStarts text)[last]?).getD 0 + line.length ≤ text.length := by
  have within := startOf_add_length_le isLine
  rwa [joinLines_splitAll] at within

include order

theorem lineStart_le_lineStart :
    ((lineStarts text)[first]?).getD 0 ≤ ((lineStarts text)[last]?).getD 0 := by
  have short := (List.getElem?_eq_some_iff.mp isLine).1
  exact startOf_le_startOf order (Nat.lt_of_lt_of_le short (length_linesOfPieces_le _))

theorem withoutReturns_extract_lines :
    withoutReturns (text.extract (((lineStarts text)[first]?).getD 0)
        (((lineStarts text)[last]?).getD 0 + line.length)) =
      joinLines ((lines text).extract first (last + 1)) := by
  have noFeed : ∀ piece ∈ splitAll (· == '\n') text, '\n' ∉ piece := fun piece member feed => by
    simpa using not_separates_of_mem_splitAll member '\n' feed
  have whole := withoutReturns_extract noFeed order isLine
  rwa [joinLines_splitAll] at whole

end

end SourceIndex.Text
