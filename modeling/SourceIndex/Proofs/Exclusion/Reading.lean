import SourceIndex.Exclusion.Policy
import SourceIndex.Proofs.Identifier

/-! Reading globs step by step: what is read of a text, and of the text with a slash and a double
star behind it. -/

namespace SourceIndex

/-! ## Bytes -/

theorem toList_loop_eq (bytes : ByteArray) (index : Nat) (read : List UInt8) :
    ByteArray.toList.loop bytes index read = read.reverse ++ bytes.data.toList.drop index := by
  fun_induction ByteArray.toList.loop bytes index read with
  | case1 index read inside induction =>
      have bound : index < bytes.data.toList.length := inside
      have byte : bytes.get! index = bytes.data.toList[index] :=
        getElem!_pos bytes.data index inside
      rw [induction, List.drop_eq_getElem_cons bound, byte, List.reverse_cons, List.append_assoc]
      rfl
  | case2 index read outside =>
      have bound : bytes.data.toList.length ≤ index := Nat.not_lt.mp outside
      rw [List.drop_eq_nil_of_le bound, List.append_nil]

theorem toList_toUTF8 (text : String) : text.toUTF8.toList = bytesOf text :=
  toList_loop_eq text.toUTF8 0 []

theorem bytesOf_append (front back : String) :
    bytesOf (front ++ back) = bytesOf front ++ bytesOf back := by
  rw [bytesOf_eq_flatMap, bytesOf_eq_flatMap, bytesOf_eq_flatMap, String.toList_append,
    List.flatMap_append]

namespace Glob

theorem utf8Bytes_eq (character : Char) :
    utf8Bytes character = String.utf8EncodeChar character := by
  rw [utf8Bytes, toList_toUTF8, bytesOf_eq_flatMap, String.toList_singleton,
    List.flatMap_singleton]

/-! ## Reading steps -/

theorem map_map_eq_ok_some {ε α β : Type} {result : Except ε (Option α)} {transform : α → β}
    {value : β} (reads : result.map (Option.map transform) = .ok (some value)) :
    ∃ found, result = .ok (some found) ∧ transform found = value := by
  match result with
  | .error fault => cases reads
  | .ok none => cases reads
  | .ok (some found) => exact ⟨found, rfl, Option.some.inj (Except.ok.inj reads)⟩

/-- A class that is closed is read alike whatever follows it. -/
theorem readClass_append {ranges found : List (Char × Char)} {isFirst inRange : Bool}
    {text : List Char} {count : Nat}
    (reads : readClass ranges isFirst inRange text = .ok (some (found, count)))
    (tail : List Char) :
    count ≤ text.length ∧
      readClass ranges isFirst inRange (text ++ tail) = .ok (some (found, count)) := by
  induction text generalizing ranges isFirst inRange found count with
  | nil => cases reads
  | cons character text induction =>
      have goesOn : ∀ {ranges : List (Char × Char)} {isFirst inRange : Bool},
          (readClass ranges isFirst inRange text).map
              (Option.map fun inner => (inner.1, inner.2 + 1)) = .ok (some (found, count)) →
            count ≤ text.length + 1 ∧
              (readClass ranges isFirst inRange (text ++ tail)).map
                (Option.map fun inner => (inner.1, inner.2 + 1)) =
                  .ok (some (found, count)) := by
        intro ranges isFirst inRange reads
        rcases map_map_eq_ok_some reads with ⟨⟨inner, few⟩, innerReads, same⟩
        cases same
        rcases induction innerReads with ⟨within, again⟩
        exact ⟨Nat.succ_le_succ within, by rw [again]; rfl⟩
      rw [List.cons_append]
      -- The bracket that closes the class, a hyphen, the end of a range, or any other character.
      unfold readClass at reads ⊢
      simp only at reads ⊢
      split at reads
      · next closes =>
          cases reads
          rw [if_pos closes]
          exact ⟨Nat.succ_pos _, rfl⟩
      · next opens =>
          rw [if_neg opens]
          split at reads
          · next hyphen =>
              rw [if_pos hyphen]
              exact goesOn reads
          · next noHyphen =>
              rw [if_neg noHyphen]
              split at reads
              · split at reads
                · cases reads
                · next inOrder =>
                    simp only [if_neg inOrder]
                    exact goesOn reads
              · exact goesOn reads

theorem readClass?_append {text : List Char} {piece : GlobPiece} {taken : Nat}
    (reads : readClass? text = .ok (some (piece, taken))) (tail : List Char) :
    taken ≤ text.length ∧ readClass? (text ++ tail) = .ok (some (piece, taken)) := by
  unfold readClass? at reads ⊢
  simp only at reads ⊢
  split at reads
  · rcases map_map_eq_ok_some reads with ⟨⟨found, count⟩, classReads, same⟩
    cases same
    rcases readClass_append classReads tail with ⟨within, again⟩
    exact ⟨Nat.succ_le_succ within, by rw [List.cons_append]; simp only [again]; rfl⟩
  · rcases map_map_eq_ok_some reads with ⟨⟨found, count⟩, classReads, same⟩
    cases same
    rcases readClass_append classReads tail with ⟨within, again⟩
    exact ⟨Nat.succ_le_succ within, by rw [List.cons_append]; simp only [again]; rfl⟩
  · next noMark noCaret =>
      rcases map_map_eq_ok_some reads with ⟨⟨found, count⟩, classReads, same⟩
      cases same
      rcases readClass_append classReads tail with ⟨within, again⟩
      refine ⟨within, ?_⟩
      split
      · next rest same =>
          cases text with
          | nil => cases classReads
          | cons first text =>
              rw [List.cons_append] at same
              exact absurd (congrArg (· :: text) (List.cons.inj same).1) (noMark text)
      · next rest same =>
          cases text with
          | nil => cases classReads
          | cons first text =>
              rw [List.cons_append] at same
              exact absurd (congrArg (· :: text) (List.cons.inj same).1) (noCaret text)
      · rw [again]
        rfl

theorem ne_anyLead_of_readClass? {text : List Char} {piece : GlobPiece} {taken : Nat}
    (reads : readClass? text = .ok (some (piece, taken))) : piece ≠ .anyLead := by
  unfold readClass? at reads
  simp only at reads
  split at reads
  all_goals
    rcases map_map_eq_ok_some reads with ⟨found, -, same⟩
    cases same
    nofun

theorem takeStar_congr (draft : Draft) (previous : Option Char) (next : Char)
    (after other : List Char) :
    draft.takeStar previous ('*' :: next :: after) =
      draft.takeStar previous ('*' :: next :: other) := by
  by_cases slash : next = '/'
  · subst slash; rfl
  by_cases comma : next = ','
  · subst comma; rfl
  by_cases brace : next = '\x7d'
  · subst brace; rfl
  simp only [Draft.takeStar]

theorem takeStar_of_head {draft : Draft} {previous : Option Char} {text : List Char}
    (noStar : text.head? ≠ some '*') :
    draft.takeStar previous text = (draft.push .anyBytes, 0) := by
  unfold Draft.takeStar
  split
  · exact absurd rfl noStar
  · rfl

/-- A slash behind a text matters to a star only if a single further star is between them. -/
theorem takeStar_append {draft : Draft} {previous : Option Char} {text : List Char}
    (notLast : text ≠ ['*']) (tail : List Char) :
    draft.takeStar previous (text ++ '/' :: tail) = draft.takeStar previous text := by
  match text with
  | [] => rfl
  | first :: after =>
      by_cases star : first = '*'
      · subst star
        cases after with
        | nil => exact absurd rfl notLast
        | cons next after => exact takeStar_congr draft previous next _ _
      · have noStar : ∀ rest, (first :: rest).head? ≠ some '*' :=
          fun rest same => star (Option.some.inj same)
        rw [takeStar_of_head (noStar after)]
        exact takeStar_of_head (noStar _)

/-- What a star can make of a draft. -/
inductive Draft.TakesStar (draft : Draft) : (next : Draft) → Prop
  | one : TakesStar draft (draft.push .anyBytes)
  | two : TakesStar draft ((draft.push .anyBytes).push .anyBytes)
  | lead (empty : draft.current.pieces = []) : TakesStar draft (draft.push .anyLead)
  | join {piece : GlobPiece} (noLead : piece ≠ .anyLead) :
      TakesStar draft (draft.pushDoubleStar piece)

theorem takesStar_takeStar (draft : Draft) (previous : Option Char) (text : List Char) :
    draft.TakesStar (draft.takeStar previous text).1 ∧
      (draft.takeStar previous text).2 ≤ text.length := by
  fun_cases Draft.takeStar draft previous text with
  | case1 empty => exact ⟨.lead (List.isEmpty_iff.mp empty), Nat.le_add_left 1 _⟩
  | case2 empty => exact ⟨.lead (List.isEmpty_iff.mp empty), Nat.le_add_left 2 _⟩
  | case5 | case7 | case9 => exact ⟨.join nofun, Nat.le_add_left 1 _⟩
  | case6 => exact ⟨.join nofun, Nat.le_add_left 2 _⟩
  | case12 => exact ⟨.one, Nat.zero_le _⟩
  | _ => exact ⟨.two, Nat.le_add_left 1 _⟩

/-- What reading one character makes of a draft, and how many of the characters that follow belong
to it. -/
def step (draft : Draft) (previous : Option Char) (character : Char) (rest : List Char) :
    Except Fault (Draft × Nat) :=
  match character with
  | '?' => .ok (draft.push .anyByte, 0)
  | '*' => .ok (draft.takeStar previous rest)
  | '[' =>
    if draft.literalBrackets then .ok (draft.pushCharacter '[', 0)
    else
      match readClass? rest with
      | .error fault => .error fault
      | .ok (some (piece, taken)) => .ok (draft.push piece, taken)
      | .ok none => .error .unclosedClass
  | '\x7b' => .ok (draft.openGroup, 0)
  | '\x7d' => draft.closeGroup.map (·, 0)
  | ',' => .ok (if draft.outer.isEmpty then draft.pushCharacter ',' else draft.nextBranch, 0)
  | '\\' =>
    match rest with
    | [] => .error .danglingEscape
    | escaped :: _ => .ok (draft.pushCharacter escaped, 1)
  | other => .ok (draft.pushCharacter other, 0)

theorem readFrom_cons (draft : Draft) (previous : Option Char) (character : Char)
    (rest : List Char) :
    readFrom false draft previous 0 (character :: rest) =
      (step draft previous character rest).bind fun (next, taken) =>
        readFrom false next (some character) taken rest := by
  unfold step
  split
  · rw [readFrom]; rfl
  · rw [readFrom]; rfl
  · rw [readFrom]
    cases draft.literalBrackets with
    | true => rfl
    | false =>
        match readClass? rest with
        | .error fault => rfl
        | .ok (some (piece, taken)) => rfl
        | .ok none => rfl
  · rw [readFrom]; rfl
  · rw [readFrom]
    cases draft.closeGroup <;> rfl
  · rw [readFrom]; rfl
  · cases rest <;> (rw [readFrom]; rfl)
  · rw [readFrom]
    · rfl
    all_goals assumption

theorem readFrom_cons_eq_ok {draft final : Draft} {previous : Option Char} {character : Char}
    {rest : List Char} (reads : readFrom false draft previous 0 (character :: rest) = .ok final) :
    ∃ next taken, step draft previous character rest = .ok (next, taken) ∧
      readFrom false next (some character) taken rest = .ok final := by
  rw [readFrom_cons] at reads
  match steps : step draft previous character rest with
  | .error fault =>
      rw [steps] at reads
      cases reads
  | .ok (next, taken) =>
      rw [steps] at reads
      exact ⟨next, taken, rfl, reads⟩

theorem step_append {draft next : Draft} {previous : Option Char} {character : Char}
    {rest : List Char} {taken : Nat}
    (steps : step draft previous character rest = .ok (next, taken))
    (notLast : ¬ (character = '*' ∧ rest = ['*'])) (tail : List Char) :
    taken ≤ rest.length ∧
      step draft previous character (rest ++ '/' :: tail) = .ok (next, taken) := by
  unfold step at steps ⊢
  split at steps
  · cases steps; exact ⟨Nat.zero_le _, rfl⟩
  · have notStar : rest ≠ ['*'] := fun same => notLast ⟨rfl, same⟩
    have few := (takesStar_takeStar draft previous rest).2
    rw [Except.ok.inj steps] at few
    rw [takeStar_append notStar]
    exact ⟨few, steps⟩
  · split at steps
    · next literal =>
        cases steps
        rw [if_pos literal]
        exact ⟨Nat.zero_le _, rfl⟩
    · next opens =>
        rw [if_neg opens]
        split at steps
        · cases steps
        · next piece count reads =>
            cases steps
            rcases readClass?_append reads ('/' :: tail) with ⟨within, again⟩
            rw [again]
            exact ⟨within, rfl⟩
        · cases steps
  · cases steps; exact ⟨Nat.zero_le _, rfl⟩
  · cases closes : draft.closeGroup with
    | error fault => rw [closes] at steps; cases steps
    | ok closed =>
        rw [closes] at steps
        cases steps
        exact ⟨Nat.zero_le _, rfl⟩
  · cases steps; exact ⟨Nat.zero_le _, rfl⟩
  · cases rest with
    | nil => cases steps
    | cons escaped rest => cases steps; exact ⟨Nat.succ_pos _, rfl⟩
  · cases steps; exact ⟨Nat.zero_le _, rfl⟩

/-! ## Reading extensions -/

/-- What a pattern is extended by. -/
def belowText : List Char := ['/', '*', '*']

theorem takeStar_atEnd {draft : Draft} (started : draft.current.pieces ≠ []) :
    draft.takeStar (some '/') ['*'] = (draft.pushDoubleStar .anyBelow, 1) := by
  have notEmpty : ¬ draft.current.pieces.isEmpty = true :=
    fun empty => started (List.isEmpty_iff.mp empty)
  unfold Draft.takeStar
  simp only
  rw [if_neg notEmpty, if_neg (fun isElsewhere => isElsewhere.1 rfl)]

theorem readFrom_doubleStar {draft : Draft} (started : draft.current.pieces ≠ []) :
    readFrom false draft (some '/') 0 ['*', '*'] = .ok (draft.pushDoubleStar .anyBelow) := by
  rw [readFrom_cons, step, takeStar_atEnd started]
  rfl

theorem readFrom_lastStars (draft : Draft) (previous : Option Char) :
    readFrom false draft previous 0 ['*', '*'] = .ok (draft.takeStar previous ['*']).1 := by
  rw [readFrom_cons, step]
  unfold Draft.takeStar
  simp only
  split
  · rfl
  · split <;> rfl

theorem pushCharacter_slash (draft : Draft) :
    draft.pushCharacter '/' = draft.push (.literal slash) := by
  rw [Draft.pushCharacter, utf8Bytes_eq]
  rfl

theorem readFrom_belowText (draft : Draft) (previous : Option Char) :
    readFrom false draft previous 0 belowText = .ok (draft.push .anyBelow) := by
  have afterSlash : readFrom false draft previous 0 belowText =
      readFrom false (draft.push (.literal slash)) (some '/') 0 ['*', '*'] := by
    rw [← pushCharacter_slash]
    exact readFrom_cons draft previous '/' ['*', '*']
  rw [afterSlash, readFrom_doubleStar (List.cons_ne_nil _ _)]
  rfl

theorem pushDoubleStar_anyBetween (draft : Draft) :
    (draft.pushDoubleStar .anyBetween).pushDoubleStar .anyBelow =
      draft.pushDoubleStar .anyBelow := by
  rcases draft with ⟨⟨pieces, earlier⟩, outer, literalBrackets⟩
  match pieces with
  | [] => rfl
  | piece :: pieces => cases piece <;> rfl

/-- Whether what has been read of the branch at hand fits all that lies below what it fits. -/
def Draft.ReachesBelow (draft : Draft) : Prop :=
  ∃ earlier, draft.current.pieces = .anyLead :: earlier ∨
    draft.current.pieces = .anyBelow :: earlier

theorem reachesBelow_pushDoubleStar (draft : Draft) :
    (draft.pushDoubleStar .anyBelow).ReachesBelow := by
  unfold Draft.pushDoubleStar
  split
  · next earlier same => exact ⟨earlier, .inl same⟩
  · next earlier same => exact ⟨earlier, .inr same⟩
  · exact ⟨_, .inr rfl⟩

theorem pushDoubleStar_ne_nil {draft : Draft} (started : draft.current.pieces ≠ [])
    (piece : GlobPiece) : (draft.pushDoubleStar piece).current.pieces ≠ [] := by
  unfold Draft.pushDoubleStar
  split
  · exact started
  · exact started
  · exact List.cons_ne_nil _ _

/-- Two stars at the end stand in front of a slash when the extension follows them, and are read in
another way then. What has been read in the end still is the same. -/
theorem readFrom_lastStars_below (draft : Draft) (previous : Option Char) :
    ∃ extended, readFrom false draft previous 0 ('*' :: '*' :: belowText) = .ok extended ∧
      (extended = (draft.takeStar previous ['*']).1.push .anyBelow ∨
        extended = (draft.takeStar previous ['*']).1 ∧ extended.ReachesBelow) := by
  rw [readFrom_cons, step]
  unfold Draft.takeStar
  simp only [belowText]
  split
  · exact ⟨draft.push .anyLead, @readFrom_doubleStar (draft.push .anyLead) (List.cons_ne_nil _ _),
      .inr ⟨rfl, _, .inl rfl⟩⟩
  · next notEmpty =>
      have started : draft.current.pieces ≠ [] :=
        fun empty => notEmpty (List.isEmpty_iff.mpr empty)
      split
      · exact ⟨_, readFrom_belowText _ (some '*'), .inl rfl⟩
      · refine ⟨draft.pushDoubleStar .anyBelow, ?_, .inr ⟨rfl, reachesBelow_pushDoubleStar draft⟩⟩
        rw [← pushDoubleStar_anyBetween]
        exact readFrom_doubleStar (pushDoubleStar_ne_nil started _)

/-- What is read of a text, and what is read of its extension. -/
theorem readFrom_append_below {draft final : Draft} {previous : Option Char} {skip : Nat}
    {text : List Char} (within : skip ≤ text.length)
    (reads : readFrom false draft previous skip text = .ok final) :
    ∃ extended, readFrom false draft previous skip (text ++ belowText) = .ok extended ∧
      (extended = final.push .anyBelow ∨ extended = final ∧ extended.ReachesBelow) := by
  induction text generalizing draft previous skip with
  | nil =>
      rw [Nat.le_zero.mp within] at reads ⊢
      cases reads
      exact ⟨_, readFrom_belowText _ previous, .inl rfl⟩
  | cons character text induction =>
      cases skip with
      | succ skip => exact induction (Nat.le_of_succ_le_succ within) reads
      | zero =>
          -- Every step but one reads the same of the longer text: what it takes lies in the text.
          by_cases last : character = '*' ∧ text = ['*']
          · rcases last with ⟨rfl, rfl⟩
            rw [readFrom_lastStars] at reads
            cases reads
            exact readFrom_lastStars_below draft previous
          · rcases readFrom_cons_eq_ok reads with ⟨next, taken, steps, reads⟩
            rcases step_append steps last ['*', '*'] with ⟨few, again⟩
            have begins : readFrom false draft previous 0 (character :: text ++ belowText) =
                readFrom false next (some character) taken (text ++ belowText) := by
              rw [List.cons_append, readFrom_cons, belowText, again]
              rfl
            rw [begins]
            exact induction few reads

/-- Whether a piece that leads anywhere stands first in the branch at hand, if it stands last. -/
def Draft.LeadStandsFirst (draft : Draft) : Prop :=
  ∀ earlier, draft.current.pieces = .anyLead :: earlier → earlier = []

theorem leadStandsFirst_push (draft : Draft) {piece : GlobPiece} (noLead : piece ≠ .anyLead) :
    (draft.push piece).LeadStandsFirst := by
  intro earlier same
  exact absurd (List.cons.inj same).1 noLead

theorem leadStandsFirst_pushCharacter {draft : Draft} (first : draft.LeadStandsFirst)
    (character : Char) : (draft.pushCharacter character).LeadStandsFirst := by
  unfold Draft.pushCharacter
  induction utf8Bytes character generalizing draft with
  | nil => exact first
  | cons byte bytes induction => exact induction (leadStandsFirst_push draft nofun)

theorem leadStandsFirst_pushDoubleStar {draft : Draft} (first : draft.LeadStandsFirst)
    {piece : GlobPiece} (noLead : piece ≠ .anyLead) :
    (draft.pushDoubleStar piece).LeadStandsFirst := by
  unfold Draft.pushDoubleStar
  split
  · exact first
  · exact first
  · intro earlier same
    exact absurd (List.cons.inj same).1 noLead

theorem Draft.TakesStar.leadStandsFirst {draft next : Draft} (takes : draft.TakesStar next)
    (first : draft.LeadStandsFirst) : next.LeadStandsFirst := by
  cases takes with
  | one => exact leadStandsFirst_push draft nofun
  | two => exact leadStandsFirst_push _ nofun
  | join noLead => exact leadStandsFirst_pushDoubleStar first noLead
  | lead empty =>
      intro earlier same
      exact (List.cons.inj same).2.symm.trans empty

theorem leadStandsFirst_step {draft next : Draft} (first : draft.LeadStandsFirst)
    {previous : Option Char} {character : Char} {rest : List Char} {taken : Nat}
    (steps : step draft previous character rest = .ok (next, taken)) : next.LeadStandsFirst := by
  unfold step at steps
  split at steps
  · cases steps; exact leadStandsFirst_push draft nofun
  · have takes := (takesStar_takeStar draft previous rest).1
    rw [Except.ok.inj steps] at takes
    exact takes.leadStandsFirst first
  · split at steps
    · cases steps; exact leadStandsFirst_pushCharacter first '['
    · split at steps
      · cases steps
      · next piece count reads =>
          cases steps
          exact leadStandsFirst_push draft (ne_anyLead_of_readClass? reads)
      · cases steps
  · cases steps; nofun
  · unfold Draft.closeGroup at steps
    split at steps
    · cases steps
    · cases steps; exact leadStandsFirst_push _ nofun
  · cases steps
    split
    · exact leadStandsFirst_pushCharacter first ','
    · nofun
  · cases rest with
    | nil => cases steps
    | cons escaped rest => cases steps; exact leadStandsFirst_pushCharacter first escaped
  · cases steps; exact leadStandsFirst_pushCharacter first character

theorem leadStandsFirst_readFrom {draft final : Draft} (first : draft.LeadStandsFirst)
    {previous : Option Char} {skip : Nat} {text : List Char}
    (reads : readFrom false draft previous skip text = .ok final) : final.LeadStandsFirst := by
  induction text generalizing draft previous skip with
  | nil =>
      cases reads
      exact first
  | cons character text induction =>
      cases skip with
      | succ skip => exact induction first reads
      | zero =>
          rcases readFrom_cons_eq_ok reads with ⟨next, taken, steps, reads⟩
          exact induction (leadStandsFirst_step first steps) reads

theorem readPieces_eq_ok {text : List Char} {pieces : List GlobPiece} :
    readPieces false text = .ok pieces ↔
      ∃ final, readFrom false {} none 0 text = .ok final ∧ final.outer = [] ∧
        pieces = final.current.pieces.reverse := by
  unfold readPieces
  match readFrom false {} none 0 text with
  | .error fault => exact ⟨nofun, fun ⟨_, reads, _⟩ => nomatch reads⟩
  | .ok final =>
      simp only [List.isEmpty_iff, Except.ok.injEq]
      constructor
      · intro reads
        split at reads
        · next closed => exact ⟨final, rfl, closed, (Except.ok.inj reads).symm⟩
        · cases reads
      · rintro ⟨final, rfl, closed, rfl⟩
        rw [if_pos closed]

theorem read_eq_ok {text : List Char} {glob : Glob} :
    read text = .ok glob ↔
      ∃ pieces, readPieces false text = .ok pieces ∧ glob = ⟨pieces, false⟩ := by
  unfold read
  cases readPieces false text with
  | error fault => exact ⟨nofun, fun ⟨_, reads, _⟩ => nomatch reads⟩
  | ok pieces =>
      constructor
      · rintro ⟨⟩
        exact ⟨pieces, rfl, rfl⟩
      · rintro ⟨_, ⟨⟩, rfl⟩
        rfl

end Glob

end SourceIndex
