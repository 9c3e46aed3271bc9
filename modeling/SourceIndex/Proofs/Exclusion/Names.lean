import Mathlib.Data.List.Infix
import SourceIndex.Proofs.Exclusion.Below
import SourceIndex.Proofs.Text.Trimming

/-! What a name leaves out that stands alone in a pattern: the paths that have it among their
segments, and with a slash in front of it the paths that start with it. The globs of such a pattern
ask for the bytes of the name between slashes, and no segment has a slash among its bytes. -/

namespace SourceIndex

open FileTree (IsName)

instance : DecidablePred IsName :=
  fun name => inferInstanceAs (Decidable (name ≠ "" ∧ '/' ∉ name.toList))

/-! ## Bytes of paths -/

theorem eq_of_mem_bytesOf {byte : UInt8} {text : String} (member : byte ∈ bytesOf text)
    (small : byte.toNat < 128) : ∃ character ∈ text.toList, character.toNat = byte.toNat := by
  rw [bytesOf_eq_flatMap] at member
  rcases List.mem_flatMap.mp member with ⟨character, inside, encoded⟩
  exact ⟨character, inside, toNat_eq_of_mem_utf8EncodeChar encoded small⟩

theorem slash_not_mem_bytesOf {name : String} (isName : IsName name) :
    Glob.slash ∉ bytesOf name := by
  intro member
  rcases eq_of_mem_bytesOf member (by decide) with ⟨character, inside, same⟩
  have isSlash : character = '/' := Char.toNat_inj.mp same
  exact isName.2 (isSlash ▸ inside)

theorem bytesOf_inj {text other : String} : bytesOf text = bytesOf other ↔ text = other := by
  refine ⟨fun same => ?_, congrArg bytesOf⟩
  apply String.toByteArray_inj.mp
  exact ByteArray.ext (Array.toList_inj.mp same)

/-- The bytes of segments, each behind a slash. -/
def bytesBehindSlashes (segments : List String) : List UInt8 :=
  segments.flatMap fun segment => Glob.slash :: bytesOf segment

theorem bytesBehindSlashes_cons (segment : String) (segments : List String) :
    bytesBehindSlashes (segment :: segments) =
      Glob.slash :: (bytesOf segment ++ bytesBehindSlashes segments) := rfl

theorem bytesBehindSlashes_eq (segments : List String) :
    (FileTree.spell segments).flatMap String.utf8EncodeChar = bytesBehindSlashes segments := by
  induction segments with
  | nil => rfl
  | cons segment segments induction =>
      have step : FileTree.spell (segment :: segments) =
          ('/' :: segment.toList) ++ FileTree.spell segments := rfl
      rw [step, List.flatMap_append, induction, List.flatMap_cons, ← bytesOf_eq_flatMap]
      rfl

theorem toUTF8_joinSegments (segment : String) (segments : List String) :
    (joinSegments (segment :: segments)).toUTF8.toList =
      bytesOf segment ++ bytesBehindSlashes segments := by
  have bytes := bytesBehindSlashes_eq (segment :: segments)
  rw [FileTree.spell_eq_cons (List.cons_ne_nil _ _), List.flatMap_cons,
    ← bytesOf_eq_flatMap] at bytes
  rw [toList_toUTF8]
  exact (List.cons.inj bytes).2

/-- Whether no segment goes on here: at the end of a path, or in front of a slash. -/
def IsSegmentEnd (rest : List UInt8) : Prop := rest = [] ∨ ∃ below, rest = Glob.slash :: below

theorem isSegmentEnd_bytesBehindSlashes (segments : List String) :
    IsSegmentEnd (bytesBehindSlashes segments) := by
  cases segments with
  | nil => exact .inl rfl
  | cons segment segments => exact .inr ⟨_, bytesBehindSlashes_cons segment segments⟩

theorem takeWhile_segment {front rest : List UInt8} (noSlash : Glob.slash ∉ front)
    (isEnd : IsSegmentEnd rest) : (front ++ rest).takeWhile (· != Glob.slash) = front := by
  have passes : ∀ byte ∈ front, (byte != Glob.slash) = true := by
    intro byte member
    rw [bne_iff_ne]
    rintro rfl
    exact noSlash member
  rw [List.takeWhile_append_of_pos passes]
  rcases isEnd with rfl | ⟨below, rfl⟩
  · exact List.append_nil front
  · exact List.append_nil front

/-- Where the first segment of a path ends is told by the path. -/
theorem segment_eq {front other rest otherRest : List UInt8} (noSlash : Glob.slash ∉ front)
    (otherNoSlash : Glob.slash ∉ other) (isEnd : IsSegmentEnd rest)
    (otherIsEnd : IsSegmentEnd otherRest) (same : front ++ rest = other ++ otherRest) :
    front = other ∧ rest = otherRest := by
  have fronts : front = other := by
    rw [← takeWhile_segment noSlash isEnd, same, takeWhile_segment otherNoSlash otherIsEnd]
  rw [fronts] at same
  exact ⟨fronts, List.append_cancel_left same⟩

/-! ## Fitting names -/

namespace Glob

def literals (name : String) : List GlobPiece := (bytesOf name).map .literal

theorem fitsPieces_literals {keepsSlashes : Bool} {next : List UInt8 → Bool}
    {bytes text : List UInt8} :
    fitsPieces keepsSlashes next (bytes.map .literal) text = true ↔
      ∃ rest, text = bytes ++ rest ∧ next rest = true := by
  induction bytes generalizing text with
  | nil => exact ⟨fun fits => ⟨text, rfl, fits⟩, fun ⟨_, same, fits⟩ => same ▸ fits⟩
  | cons byte bytes induction =>
      cases text with
      | nil => exact ⟨nofun, fun ⟨_, same, _⟩ => nomatch same⟩
      | cons first text =>
          have step : fitsPieces keepsSlashes next ((byte :: bytes).map .literal) (first :: text) =
              (first == byte && fitsPieces keepsSlashes next (bytes.map .literal) text) := rfl
          rw [step, Bool.and_eq_true, beq_iff_eq, induction]
          constructor
          · rintro ⟨rfl, rest, rfl, fits⟩
            exact ⟨rest, rfl, fits⟩
          · rintro ⟨rest, same, fits⟩
            rw [List.cons_append, List.cons.injEq] at same
            exact ⟨same.1, rest, same.2, fits⟩

/-- A name fits a segment only as a whole, if the rest is asked to start behind a segment. -/
theorem fitsPieces_name {next : List UInt8 → Bool} {name segment : String} (isName : IsName name)
    (segmentIsName : IsName segment) (ends : ∀ rest, next rest = true → IsSegmentEnd rest)
    (below : List String) :
    fitsPieces false next (literals name) (bytesOf segment ++ bytesBehindSlashes below) = true ↔
      segment = name ∧ next (bytesBehindSlashes below) = true := by
  rw [literals, fitsPieces_literals]
  constructor
  · rintro ⟨rest, same, fits⟩
    rcases segment_eq (slash_not_mem_bytesOf segmentIsName) (slash_not_mem_bytesOf isName)
      (isSegmentEnd_bytesBehindSlashes below) (ends rest fits) same with ⟨names, rfl⟩
    exact ⟨bytesOf_inj.mp names, fits⟩
  · rintro ⟨rfl, fits⟩
    exact ⟨_, rfl, fits⟩

theorem behindSlash_of_noSlash {next : List UInt8 → Bool} {front : List UInt8}
    (noSlash : slash ∉ front) (rest : List UInt8) :
    behindSlash next (front ++ rest) = behindSlash next rest := by
  induction front with
  | nil => rfl
  | cons byte front induction =>
      rw [List.mem_cons, not_or] at noSlash
      rw [List.cons_append, behindSlash, beq_eq_false_iff_ne.mpr (Ne.symm noSlash.1),
        Bool.false_and, Bool.false_or, induction noSlash.2]

/-- What may stand at any depth is asked of every path that the path ends with. -/
theorem fitsPiece_anyLead {next : List UInt8 → Bool} {segment : String} {below : List String}
    (named : ∀ other ∈ segment :: below, IsName other) :
    fitsPiece false next .anyLead (bytesOf segment ++ bytesBehindSlashes below) = true ↔
      ∃ first rest, first :: rest <:+ segment :: below ∧
        next (bytesOf first ++ bytesBehindSlashes rest) = true := by
  have step (text : List UInt8) :
      fitsPiece false next .anyLead text = (next text || behindSlash next text) := rfl
  induction below generalizing segment with
  | nil =>
      have noSlash : slash ∉ bytesOf segment := slash_not_mem_bytesOf (named _ List.mem_cons_self)
      rw [step, behindSlash_of_noSlash noSlash, Bool.or_eq_true]
      constructor
      · rintro (here | later)
        · exact ⟨segment, [], List.suffix_refl _, here⟩
        · cases later
      · rintro ⟨first, rest, ends, fits⟩
        rcases List.suffix_cons_iff.mp ends with same | none
        · cases same
          exact .inl fits
        · cases List.suffix_nil.mp none
  | cons other below induction =>
      -- The first slash stands behind the first segment, and what follows it is a path again.
      have noSlash : slash ∉ bytesOf segment := slash_not_mem_bytesOf (named _ List.mem_cons_self)
      have later : behindSlash next (bytesBehindSlashes (other :: below)) = true ↔
          ∃ first rest, first :: rest <:+ other :: below ∧
            next (bytesOf first ++ bytesBehindSlashes rest) = true :=
        induction fun name member => named name (List.mem_cons_of_mem _ member)
      rw [step, behindSlash_of_noSlash noSlash, Bool.or_eq_true, later]
      constructor
      · rintro (here | ⟨first, rest, ends, fits⟩)
        · exact ⟨segment, other :: below, List.suffix_refl _, here⟩
        · exact ⟨first, rest, ends.trans (List.suffix_cons segment _), fits⟩
      · rintro ⟨first, rest, ends, fits⟩
        rcases List.suffix_cons_iff.mp ends with same | ends
        · cases same
          exact .inl fits
        · exact .inr ⟨first, rest, ends, fits⟩

theorem isEmpty_bytesBehindSlashes (segments : List String) :
    (bytesBehindSlashes segments).isEmpty = true ↔ segments = [] := by
  cases segments with
  | nil => exact ⟨fun _ => rfl, fun _ => rfl⟩
  | cons segment segments => exact ⟨nofun, nofun⟩

theorem fitsPieces_anyBelow {text : List UInt8} :
    fitsPieces false List.isEmpty [.anyBelow] text = true ↔ ∃ below, text = slash :: below := by
  cases text with
  | nil => exact ⟨nofun, fun ⟨_, same⟩ => nomatch same⟩
  | cons byte text =>
      have step : fitsPieces false List.isEmpty [.anyBelow] (byte :: text) =
          (byte == slash && skipBytes (fun _ => true) List.isEmpty text) := rfl
      rw [step, skipBytes_isEmpty, Bool.and_true, beq_iff_eq]
      constructor
      · rintro rfl
        exact ⟨text, rfl⟩
      · rintro ⟨_, same⟩
        exact (List.cons.inj same).1

theorem fitsPieces_anyBelow_bytesBehindSlashes (segments : List String) :
    fitsPieces false List.isEmpty [.anyBelow] (bytesBehindSlashes segments) = true ↔
      segments ≠ [] := by
  rw [fitsPieces_anyBelow]
  cases segments with
  | nil => exact ⟨nofun, fun some => absurd rfl some⟩
  | cons segment segments => exact ⟨fun _ => List.cons_ne_nil _ _, fun _ => ⟨_, rfl⟩⟩

/-! ## The globs of a name -/

section

variable {name segment : String} {below : List String} (isName : IsName name)
  (named : ∀ other ∈ segment :: below, IsName other)

include isName named

theorem fitsPieces_whole :
    fitsPieces false List.isEmpty (literals name)
        (bytesOf segment ++ bytesBehindSlashes below) = true ↔ segment = name ∧ below = [] := by
  rw [fitsPieces_name isName (named _ List.mem_cons_self)
    (fun rest none => .inl (List.isEmpty_iff.mp none)), isEmpty_bytesBehindSlashes]

theorem fitsPieces_inside :
    fitsPieces false List.isEmpty (literals name ++ [.anyBelow])
        (bytesOf segment ++ bytesBehindSlashes below) = true ↔ segment = name ∧ below ≠ [] := by
  rw [fitsPieces_of_append, fitsPieces_name isName (named _ List.mem_cons_self)
    (fun rest fits => .inr (fitsPieces_anyBelow.mp fits)), fitsPieces_anyBelow_bytesBehindSlashes]

theorem fitsPieces_anywhere :
    fitsPieces false List.isEmpty (.anyLead :: literals name)
        (bytesOf segment ++ bytesBehindSlashes below) = true ↔ [name] <:+ segment :: below := by
  rw [fitsPieces, fitsPiece_anyLead named]
  constructor
  · rintro ⟨first, rest, ends, fits⟩
    rcases (fitsPieces_whole isName fun other member => named other (ends.mem member)).mp fits with
      ⟨rfl, rfl⟩
    exact ends
  · intro ends
    refine ⟨name, [], ends, (fitsPieces_whole isName ?_).mpr ⟨rfl, rfl⟩⟩
    exact fun other member => named other (ends.mem member)

theorem fitsPieces_insideAnywhere :
    fitsPieces false List.isEmpty ((.anyLead :: literals name) ++ [.anyBelow])
        (bytesOf segment ++ bytesBehindSlashes below) = true ↔
      ∃ rest, rest ≠ [] ∧ name :: rest <:+ segment :: below := by
  rw [List.cons_append, fitsPieces, fitsPiece_anyLead named]
  constructor
  · rintro ⟨first, rest, ends, fits⟩
    rcases (fitsPieces_inside isName fun other member => named other (ends.mem member)).mp fits with
      ⟨rfl, some⟩
    exact ⟨rest, some, ends⟩
  · rintro ⟨rest, some, ends⟩
    refine ⟨name, rest, ends, (fitsPieces_inside isName ?_).mpr ⟨rfl, some⟩⟩
    exact fun other member => named other (ends.mem member)

end

theorem endsInParent_eq_false {path : List UInt8} (noDot : path.getLast? ≠ some dot) :
    endsInParent path = false := by
  have last {byte : UInt8} {before : List UInt8} (same : path.reverse = byte :: before) :
      (byte == dot) = false := by
    rw [← List.head?_reverse, same, List.head?_cons] at noDot
    exact beq_eq_false_iff_ne.mpr fun isDot => noDot (congrArg some isDot)
  unfold endsInParent
  split
  · next same => rw [last same, Bool.false_and]
  · next same => rw [last same, Bool.false_and, Bool.false_and]
  · rfl

theorem fits_literals (name : String) (path : List UInt8) :
    fits ⟨literals name, false⟩ path = fitsPieces false List.isEmpty (literals name) path := by
  unfold literals
  generalize bytesOf name = bytes
  have noLead (rest : List GlobPiece) : bytes.map GlobPiece.literal ≠ .anyLead :: rest := by
    cases bytes <;> nofun
  have isLiteral : (bytes.map GlobPiece.literal).all isLiteral = true := by
    rw [List.all_map]
    exact List.all_eq_true.mpr fun _ _ => rfl
  have asks : asksForName ⟨bytes.map .literal, false⟩ = false := by
    unfold asksForName
    split
    · next rest same => exact absurd same (noLead rest)
    · rw [isLiteral]
      rfl
  unfold fits
  split
  · next same => exact absurd same (noLead [])
  · rw [asks]
    rfl

/-! ## Reading names -/

/-- The characters that do not stand for themselves in a glob. -/
def specialCharacters : List Char := ['?', '*', '[', '\x7b', '\x7d', '\\']

/-- Whether a text is read as some pieces, whatever stands in front of it. -/
def ReadsAs (text : List Char) (pieces : List GlobPiece) : Prop :=
  ∀ (draft : Draft) (previous : Option Char), draft.outer = [] →
    readFrom false draft previous 0 text = .ok (pieces.foldl Draft.push draft)

theorem readsAs_nil : ReadsAs [] [] := fun _ _ _ => rfl

theorem readsAs_belowText : ReadsAs belowText [.anyBelow] :=
  fun draft previous _ => readFrom_belowText draft previous

theorem pushCharacter_eq (draft : Draft) (character : Char) :
    draft.pushCharacter character =
      ((String.utf8EncodeChar character).map .literal).foldl Draft.push draft := by
  rw [Draft.pushCharacter, utf8Bytes_eq, List.foldl_map]

theorem outer_foldl_push (pieces : List GlobPiece) (draft : Draft) :
    (pieces.foldl Draft.push draft).outer = draft.outer := by
  induction pieces generalizing draft with
  | nil => rfl
  | cons piece pieces induction => exact induction (draft.push piece)

theorem pieces_foldl_push (pieces : List GlobPiece) (draft : Draft) :
    (pieces.foldl Draft.push draft).current.pieces = pieces.reverse ++ draft.current.pieces := by
  induction pieces generalizing draft with
  | nil => rfl
  | cons piece pieces induction =>
      rw [List.foldl_cons, induction, List.reverse_cons, List.append_assoc]
      rfl

theorem step_plain {draft : Draft} (noGroup : draft.outer = []) (previous : Option Char)
    {character : Char} (plain : character ∉ specialCharacters) (rest : List Char) :
    step draft previous character rest = .ok (draft.pushCharacter character, 0) := by
  unfold step
  split
  case h_6 =>
    rw [noGroup]
    rfl
  case h_8 => rfl
  all_goals exact absurd (by decide) plain

/-- A plain text is read byte by byte. -/
theorem readsAs_append {text rest : List Char} {pieces : List GlobPiece}
    (plain : ∀ character ∈ text, character ∉ specialCharacters) (reads : ReadsAs rest pieces) :
    ReadsAs (text ++ rest) ((text.flatMap String.utf8EncodeChar).map .literal ++ pieces) := by
  induction text with
  | nil => exact reads
  | cons character text induction =>
      rw [List.forall_mem_cons] at plain
      intro draft previous noGroup
      have noGroupLater : (draft.pushCharacter character).outer = [] := by
        rw [pushCharacter_eq, outer_foldl_push, noGroup]
      rw [List.cons_append, readFrom_cons, step_plain noGroup previous plain.1]
      have later := induction plain.2 _ (some character) noGroupLater
      rw [List.flatMap_cons, List.map_append, List.append_assoc, List.foldl_append,
        ← pushCharacter_eq]
      exact later

theorem read_of_readsAs {text : List Char} {pieces : List GlobPiece}
    (reads : ReadsAs text pieces) : read text = .ok ⟨pieces, false⟩ := by
  refine read_eq_ok.mpr ⟨pieces, readPieces_eq_ok.mpr ⟨_, reads {} none rfl, ?_, ?_⟩, rfl⟩
  · rw [outer_foldl_push]
  · rw [pieces_foldl_push, List.append_nil, List.reverse_reverse]

/-- A double star and a slash in front of a text let it stand at any depth. -/
theorem read_of_readsAs_anywhere {text : List Char} {pieces : List GlobPiece}
    (reads : ReadsAs text pieces) :
    read ('*' :: '*' :: '/' :: text) = .ok ⟨.anyLead :: pieces, false⟩ := by
  have start : readFrom false {} none 0 ('*' :: '*' :: '/' :: text) =
      readFrom false (Draft.push {} .anyLead) (some '/') 0 text := rfl
  have reads := start.trans (reads _ (some '/') rfl)
  refine read_eq_ok.mpr ⟨_, readPieces_eq_ok.mpr ⟨_, reads, ?_, ?_⟩, rfl⟩
  · rw [outer_foldl_push]
    rfl
  · rw [pieces_foldl_push, List.reverse_append, List.reverse_reverse]
    rfl

end Glob

/-! ## Plain patterns -/

/-- Whether a name as a pattern stands for itself. -/
structure IsPlainPattern (name : String) : Prop where
  isName : IsName name
  isTrimmed : Text.IsTrimmed name.toList
  noHash : name.toList.head? ≠ some '#'
  noMark : name.toList.head? ≠ some '!'
  noSpecial : ∀ character ∈ name.toList, character ∉ Glob.specialCharacters
  noDot : name.toList.getLast? ≠ some '.'

namespace IsPlainPattern

variable {name segment : String} {below : List String} (plain : IsPlainPattern name)

include plain

theorem getLast?_bytesOf : (bytesOf name).getLast? ≠ some Glob.dot := by
  intro isDot
  rcases List.eq_nil_or_concat' name.toList with none | ⟨front, last, same⟩
  · exact plain.isName.1 (String.toList_eq_nil_iff.mp none)
  · have some : String.utf8EncodeChar last ≠ [] := by simp
    rw [bytesOf_eq_flatMap, same, List.flatMap_append, List.flatMap_singleton,
      List.getLast?_append_of_ne_nil _ some] at isDot
    have dot : last = '.' := Char.toNat_inj.mp
      (toNat_eq_of_mem_utf8EncodeChar (List.mem_of_getLast? isDot) (by decide))
    apply plain.noDot
    rw [same, dot, List.getLast?_concat]

/-- A path that ends with the name does not end in the parent directory. -/
theorem endsInParent_eq_false (ends : [name] <:+ segment :: below) :
    Glob.endsInParent (bytesOf segment ++ bytesBehindSlashes below) = false := by
  apply Glob.endsInParent_eq_false
  intro isDot
  rcases ends with ⟨front, same⟩
  -- A slash in front changes nothing at the end, and segments behind slashes can be appended.
  have bytes : bytesBehindSlashes front ++ Glob.slash :: bytesOf name =
      Glob.slash :: (bytesOf segment ++ bytesBehindSlashes below) := by
    rw [← bytesBehindSlashes_cons, ← same, bytesBehindSlashes, bytesBehindSlashes,
      List.flatMap_append, List.flatMap_singleton]
  have last := congrArg List.getLast? bytes
  rw [List.getLast?_append_of_ne_nil _ (List.cons_ne_nil _ _), List.getLast?_cons,
    List.getLast?_cons, isDot, Option.some.injEq, Option.getD_some] at last
  cases isLast : (bytesOf name).getLast? with
  | none =>
      rw [isLast] at last
      exact absurd last (by decide)
  | some byte =>
      rw [isLast, Option.getD_some] at last
      exact plain.getLast?_bytesOf (last ▸ isLast)

variable (named : ∀ other ∈ segment :: below, IsName other)

include named

theorem fits_anywhere :
    Glob.fits ⟨.anyLead :: Glob.literals name, false⟩
        (bytesOf segment ++ bytesBehindSlashes below) = true ↔ [name] <:+ segment :: below := by
  rw [← Glob.fitsPieces_anywhere plain.isName named]
  unfold Glob.fits
  split
  · next same =>
      have none : bytesOf name = bytesOf "" := List.map_eq_nil_iff.mp (List.cons.inj same).2
      exact absurd (bytesOf_inj.mp none) plain.isName.1
  · rw [Bool.and_eq_true, and_iff_right_iff_imp, Glob.fitsPieces_anywhere plain.isName named]
    intro ends
    rw [plain.endsInParent_eq_false ends, Bool.and_false]
    rfl

end IsPlainPattern

/-! ## Rules of plain patterns -/

namespace Text

theorem dropEndWhile_of_getLast? {test : Char → Bool} {text : List Char} {last : Char}
    (ends : text.getLast? = some last) (fails : test last = false) :
    dropEndWhile test text = text := by
  unfold dropEndWhile
  rw [← List.head?_reverse] at ends
  rcases List.head?_eq_some_iff.mp ends with ⟨before, same⟩
  rw [same, List.dropWhile_cons_of_neg (Bool.eq_false_iff.mp fails), ← same, List.reverse_reverse]

end Text

namespace ExclusionRules

open Glob

theorem globTexts_plain {name : String} (isName : IsName name) :
    globTexts name.toList =
      [name.toList, ['*', '*', '/'] ++ name.toList, ['*', '*', '/'] ++ name.toList ++ belowText,
        name.toList ++ belowText] ∧
    globTexts ('/' :: name.toList) = [name.toList, name.toList ++ belowText] := by
  rcases List.eq_nil_or_concat' name.toList with none | ⟨front, last, same⟩
  · exact absurd (String.toList_eq_nil_iff.mp none) isName.1
  have noSlash : (last == '/') = false := by
    rw [beq_eq_false_iff_ne]
    rintro rfl
    exact isName.2 (same ▸ List.mem_concat_self)
  have ends : name.toList.getLast? = some last := by rw [same, List.getLast?_concat]
  have anchoredEnds : ('/' :: name.toList).getLast? = some last := by
    rw [List.getLast?_cons, ends, Option.getD_some]
  have bare : Text.dropEndWhile (· == '/') name.toList = name.toList :=
    Text.dropEndWhile_of_getLast? ends noSlash
  have anchored : Text.dropEndWhile (· == '/') ('/' :: name.toList) = '/' :: name.toList :=
    Text.dropEndWhile_of_getLast? anchoredEnds noSlash
  constructor
  · unfold globTexts
    simp only [bare]
    split
    · next rest same =>
        have slash : '/' ∈ name.toList := by
          rw [same]
          exact List.mem_cons_self
        exact absurd slash isName.2
    · rw [if_neg (by simpa using isName.2)]
      rfl
  · unfold globTexts
    simp only [anchored]
    rfl

theorem ofPatterns_singleton {pattern : String} (notBlank : Text.trim pattern.toList ≠ [])
    (noHash : (Text.trim pattern.toList).head? ≠ some '#')
    (noMark : (Text.trim pattern.toList).head? ≠ some '!') {globs : List Glob}
    (reads : readGlobs (globTexts (Text.trim pattern.toList)) = .ok globs) :
    ofPatterns [pattern] = .ok ⟨globs, []⟩ := by
  have adds : addPattern {} pattern = .ok ⟨globs, []⟩ := by
    unfold addPattern
    split
    · next same => exact absurd same notBlank
    · next rest same =>
        rw [same] at noHash
        exact absurd rfl noHash
    · next rest same =>
        rw [same] at noMark
        exact absurd rfl noMark
    · rw [reads]
      rfl
  rw [ofPatterns, List.foldlM_cons, adds]
  rfl

/-- The globs of a name at the top of a path, and of all that lies below. -/
def anchoredGlobs (name : String) : List Glob :=
  [⟨literals name, false⟩, ⟨literals name ++ [.anyBelow], false⟩]

/-- The globs of a name at any depth. -/
def unanchoredGlobs (name : String) : List Glob :=
  [⟨literals name, false⟩, ⟨.anyLead :: literals name, false⟩,
    ⟨.anyLead :: literals name ++ [.anyBelow], false⟩, ⟨literals name ++ [.anyBelow], false⟩]

section

variable {name segment : String} {below : List String} (plain : IsPlainPattern name)

include plain

theorem readGlobs_plain :
    readGlobs (globTexts name.toList) = .ok (unanchoredGlobs name) ∧
      readGlobs (globTexts ('/' :: name.toList)) = .ok (anchoredGlobs name) := by
  have whole : ReadsAs name.toList (literals name) := by
    have reads := readsAs_append plain.noSpecial readsAs_nil
    rwa [List.append_nil, List.append_nil, ← bytesOf_eq_flatMap] at reads
  have inside : ReadsAs (name.toList ++ belowText) (literals name ++ [.anyBelow]) := by
    have reads := readsAs_append plain.noSpecial readsAs_belowText
    rwa [← bytesOf_eq_flatMap] at reads
  rw [(globTexts_plain plain.isName).1, (globTexts_plain plain.isName).2]
  constructor
  · refine readGlobs_cons_eq_ok.mpr ⟨_, _, read_of_readsAs whole, ?_, rfl⟩
    refine readGlobs_cons_eq_ok.mpr ⟨_, _, read_of_readsAs_anywhere whole, ?_, rfl⟩
    refine readGlobs_cons_eq_ok.mpr ⟨_, _, read_of_readsAs_anywhere inside, ?_, rfl⟩
    exact readGlobs_cons_eq_ok.mpr ⟨_, _, read_of_readsAs inside, rfl, rfl⟩
  · refine readGlobs_cons_eq_ok.mpr ⟨_, _, read_of_readsAs whole, ?_, rfl⟩
    exact readGlobs_cons_eq_ok.mpr ⟨_, _, read_of_readsAs inside, rfl, rfl⟩

theorem ofPatterns_plain : ofPatterns [name] = .ok ⟨unanchoredGlobs name, []⟩ := by
  have trimmed : Text.trim name.toList = name.toList := plain.isTrimmed.trim_eq
  apply ofPatterns_singleton
  all_goals rw [trimmed]
  · exact fun none => plain.isName.1 (String.toList_eq_nil_iff.mp none)
  · exact plain.noHash
  · exact plain.noMark
  · exact (readGlobs_plain plain).1

theorem ofPatterns_anchored : ofPatterns ["/" ++ name] = .ok ⟨anchoredGlobs name, []⟩ := by
  have anchored : ("/" ++ name).toList = '/' :: name.toList := String.toList_append
  have trimmed : Text.trim ("/" ++ name).toList = '/' :: name.toList := by
    rw [anchored]
    exact Text.IsTrimmed.trim_eq ⟨rfl, plain.isTrimmed.getLast_append ['/']⟩
  apply ofPatterns_singleton
  all_goals rw [trimmed]
  · exact List.cons_ne_nil _ _
  · simp
  · simp
  · exact (readGlobs_plain plain).2

variable (named : ∀ other ∈ segment :: below, IsName other)

include named

theorem excludes_anchored :
    excludes ⟨anchoredGlobs name, []⟩ (joinSegments (segment :: below)) = true ↔
      segment = name := by
  unfold excludes
  rw [toUTF8_joinSegments]
  simp only [anchoredGlobs, List.any_cons, List.any_nil, Bool.or_false, Bool.not_false,
    Bool.and_true, Bool.or_eq_true]
  rw [fits_literals, fits_eq_of_below, fitsPieces_whole plain.isName named,
    fitsPieces_inside plain.isName named, ← and_or_left]
  exact and_iff_left (Classical.em _)

/-- A path that has the name among its segments ends with the name or goes on below it. -/
theorem excludes_unanchored :
    excludes ⟨unanchoredGlobs name, []⟩ (joinSegments (segment :: below)) = true ↔
      name ∈ segment :: below := by
  unfold excludes
  rw [toUTF8_joinSegments]
  simp only [unanchoredGlobs, List.any_cons, List.any_nil, Bool.or_false, Bool.not_false,
    Bool.and_true, Bool.or_eq_true]
  rw [plain.fits_anywhere named, fits_literals, fits_eq_of_below, fits_eq_of_below,
    fitsPieces_whole plain.isName named, fitsPieces_inside plain.isName named,
    fitsPieces_insideAnywhere plain.isName named]
  constructor
  · rintro (⟨rfl, -⟩ | ends | ⟨rest, -, ends⟩ | ⟨rfl, -⟩)
    · exact List.mem_cons_self
    · exact ends.mem List.mem_cons_self
    · exact ends.mem List.mem_cons_self
    · exact List.mem_cons_self
  · intro member
    rcases List.append_of_mem member with ⟨front, rest, same⟩
    have ends : name :: rest <:+ segment :: below := ⟨front, same.symm⟩
    cases rest with
    | nil => exact .inr (.inl ends)
    | cons other rest => exact .inr (.inr (.inl ⟨_, List.cons_ne_nil _ _, ends⟩))

end

/-- A plain name leaves out the paths that have it among their segments. With a slash in front it
leaves out those that start with it. -/
theorem plain_name_excludes_segments {name : String} (plain : IsPlainPattern name) :
    (∃ rules, ofPatterns [name] = .ok rules ∧
      ∀ segments, segments ≠ [] → (∀ segment ∈ segments, IsName segment) →
        (rules.excludes (joinSegments segments) = true ↔ name ∈ segments)) ∧
    ∃ rules, ofPatterns ["/" ++ name] = .ok rules ∧
      ∀ segments, segments ≠ [] → (∀ segment ∈ segments, IsName segment) →
        (rules.excludes (joinSegments segments) = true ↔ segments.head? = some name) := by
  refine ⟨⟨_, ofPatterns_plain plain, ?_⟩, ⟨_, ofPatterns_anchored plain, ?_⟩⟩
  · intro segments isPath named
    cases segments with
    | nil => exact absurd rfl isPath
    | cons segment below => exact excludes_unanchored plain named
  · intro segments isPath named
    cases segments with
    | nil => exact absurd rfl isPath
    | cons segment below =>
        rw [excludes_anchored plain named, List.head?_cons, Option.some.injEq]

theorem plain_name_excludes_target : IsPlainPattern "target" ∧
    (∃ rules, ofPatterns ["target"] = .ok rules ∧
      rules.excludes (joinSegments ["web", "target", "main.rs"]) = true ∧
      ¬ rules.excludes (joinSegments ["web", "targets", "my.target"]) = true) ∧
    ∃ rules, ofPatterns ["/target"] = .ok rules ∧
      rules.excludes (joinSegments ["target", "main.rs"]) = true ∧
      ¬ rules.excludes (joinSegments ["web", "target"]) = true := by
  have plain : IsPlainPattern "target" := by
    have isTrimmed : Text.IsTrimmed "target".toList := ⟨by decide, by decide⟩
    have all : "target".toList.all (fun letter => !specialCharacters.contains letter) = true := by
      decide
    have noSpecial : ∀ character ∈ "target".toList, character ∉ specialCharacters := by
      intro character member special
      have plain := List.all_eq_true.mp all character member
      rw [List.contains_iff_mem.mpr special] at plain
      cases plain
    exact ⟨by decide, isTrimmed, by decide, by decide, noSpecial, by decide⟩
  rcases plain_name_excludes_segments plain with
    ⟨⟨rules, isRead, excludes⟩, ⟨anchored, anchoredIsRead, anchoredExcludes⟩⟩
  refine ⟨plain, ⟨rules, isRead, ?_, ?_⟩, ⟨anchored, anchoredIsRead, ?_, ?_⟩⟩
  · exact (excludes _ (by decide) (by decide)).mpr (by decide)
  · exact fun excluded => absurd ((excludes _ (by decide) (by decide)).mp excluded) (by decide)
  · exact (anchoredExcludes _ (by decide) (by decide)).mpr (by decide)
  · exact fun excluded =>
      absurd ((anchoredExcludes _ (by decide) (by decide)).mp excluded) (by decide)

end ExclusionRules

end SourceIndex
