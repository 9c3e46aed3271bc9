import SourceIndex.Proofs.Pattern.Stretches

/-! The place that a pattern prefers. A part that stands in front of others offers them the places
it can reach one after the other; if they accept the first one, the others do not matter. Where each
part of a pattern prefers a place from which the next part goes on, the match is known. -/

namespace SourceIndex.Pattern

/-- Whether the first place that a pattern offers to what follows is the given one. -/
def Prefers (pattern : Pattern) (cursor reached : Cursor) : Prop :=
  ∀ next result, next reached = some result → pattern.follow cursor next = some result

/-- Whether a pattern reaches no place at all. -/
def Refuses (pattern : Pattern) (cursor : Cursor) : Prop :=
  ∀ next, pattern.follow cursor next = none

namespace Refuses

variable {cursor : Cursor} {front : Pattern} {set : CharacterSet} {before : Option Char}
  {rest : List Char} {offset : Nat} {captures : List (String × Capture)}

theorem oneOf {character : Char} (other : set.has character = false) :
    Refuses (.oneOf set) ⟨before, character :: rest, offset, captures⟩ := by
  intro next
  simp [follow, Cursor.read?, other]

theorem seq (refuses : Refuses front cursor) (back : Pattern) :
    Refuses (.seq front back) cursor := fun next =>
  refuses fun place => back.follow place next

end Refuses

theorem has_among_blank (character : Char) :
    (among [.blank]).has character = Text.isBlank character := by
  simp [among, CharacterSet.has, CharacterItem.has]

namespace Prefers

variable {cursor middle reached : Cursor} {front back : Pattern} {set : CharacterSet}
  {before : Option Char} {rest : List Char} {offset : Nat} {captures : List (String × Capture)}

theorem nothing (cursor : Cursor) : Prefers .nothing cursor cursor := fun _ _ accepted => accepted

theorem textStart (rest : List Char) (offset : Nat) (captures : List (String × Capture)) :
    Prefers .textStart ⟨none, rest, offset, captures⟩ ⟨none, rest, offset, captures⟩ :=
  fun _ _ accepted => accepted

theorem textEnd (before : Option Char) (offset : Nat) (captures : List (String × Capture)) :
    Prefers .textEnd ⟨before, [], offset, captures⟩ ⟨before, [], offset, captures⟩ :=
  fun _ _ accepted => accepted

theorem wordEdge (atEdge : cursor.atWordEdge = true) : Prefers .wordEdge cursor cursor := by
  intro next result accepted
  rw [follow, if_pos atEdge, accepted]

theorem seq (prefers : Prefers front cursor middle) (prefersLater : Prefers back middle reached) :
    Prefers (.seq front back) cursor reached := fun next result accepted =>
  prefers (fun place => back.follow place next) result (prefersLater next result accepted)

theorem first (prefers : Prefers front cursor reached) :
    Prefers (.either front back) cursor reached := by
  intro next result accepted
  rw [follow, prefers next result accepted]
  rfl

theorem second (refuses : Refuses front cursor) (prefers : Prefers back cursor reached) :
    Prefers (.either front back) cursor reached := by
  intro next result accepted
  rw [follow, refuses next]
  exact prefers next result accepted

theorem named {name : String} {body : Pattern} (prefers : Prefers body cursor reached) :
    Prefers (.named name body) cursor (reached.remember name cursor) :=
  fun next result accepted =>
    prefers (fun place => next (place.remember name cursor)) result accepted

/-- The text between the places that a part prefers is remembered. -/
theorem named_of_spans {name : String} {body : Pattern} {stretch : List Char}
    (prefers : Prefers body cursor reached) (spans : cursor.Spans reached stretch) :
    Prefers (.named name body) cursor
      { reached with captures := (name, ⟨cursor.offset, stretch⟩) :: reached.captures } := by
  rw [← spans.captures_remember]
  exact prefers.named

theorem oneOf {character : Char} (has : set.has character = true) :
    Prefers (.oneOf set) ⟨before, character :: rest, offset, captures⟩
      ⟨some character, rest, offset + 1, captures⟩ := by
  intro next result accepted
  rw [follow, Cursor.read?]
  simp only [has, if_true, Option.bind_some]
  exact accepted

/-- A greedy stretch goes as far as its characters do. -/
theorem run {stretch : List Char} (inSet : ∀ character ∈ stretch, set.has character = true)
    (ends : ∀ character, rest.head? = some character → set.has character = false) :
    Prefers (.run set true) ⟨before, stretch ++ rest, offset, captures⟩
      ⟨stretch.getLast?.or before, rest, offset + stretch.length, captures⟩ := by
  have farthest : ∀ before offset found,
      (Cursor.reachable set captures before (stretch ++ rest) offset found).head? =
        some ⟨stretch.getLast?.or before, rest, offset + stretch.length, captures⟩ := by
    induction stretch with
    | nil =>
        intro before offset found
        cases rest with
        | nil => rfl
        | cons character rest =>
            rw [List.nil_append, Cursor.reachable, ends character rfl]
            rfl
    | cons character stretch induction =>
        intro before offset found
        rw [List.forall_mem_cons] at inSet
        rw [List.cons_append, Cursor.reachable, inSet.1]
        refine (induction inSet.2 _ _ _).trans ?_
        rw [List.getLast?_cons, List.length_cons]
        cases stretch.getLast? <;> simp [Nat.add_comm 1, Nat.add_assoc]
  intro next result accepted
  rcases List.head?_eq_some_iff.mp (farthest before offset []) with ⟨others, places⟩
  simp only [follow, places, if_true]
  rw [List.findSome?_cons, accepted]

/-- A text is read where it stands. -/
theorem text (literal : String) :
    Prefers (Pattern.text literal) ⟨before, literal.toList ++ rest, offset, captures⟩
      ⟨literal.toList.getLast?.or before, rest, offset + literal.toList.length, captures⟩ := by
  rw [Pattern.text]
  generalize literal.toList = letters
  induction letters generalizing before offset with
  | nil => exact nothing _
  | cons letter letters induction =>
      have has : (CharacterSet.single letter).has letter = true := by
        simp [CharacterSet.single, CharacterSet.has, CharacterItem.has]
      cases letters with
      | nil => exact oneOf has
      | cons next letters =>
          have later := @induction (some letter) (offset + 1)
          rw [List.getLast?_cons_cons, List.length_cons, ← Nat.add_assoc, Nat.add_right_comm]
          refine (oneOf has).seq ?_
          rwa [List.getLast?_cons, Option.some_or] at later ⊢

theorem several {stretch : List Char} (inSet : ∀ character ∈ stretch, set.has character = true)
    (some_ : stretch ≠ []) (ends : ∀ character, rest.head? = some character →
      set.has character = false) :
    Prefers (Pattern.several set) ⟨before, stretch ++ rest, offset, captures⟩
      ⟨stretch.getLast?.or before, rest, offset + stretch.length, captures⟩ := by
  cases stretch with
  | nil => exact absurd rfl some_
  | cons first stretch =>
      rw [List.forall_mem_cons] at inSet
      have later := @run set (some first) rest (offset + 1) captures stretch inSet.2 ends
      rw [List.getLast?_cons, List.length_cons, Nat.add_comm stretch.length, ← Nat.add_assoc]
      refine (oneOf inSet.1).seq ?_
      cases isLast : stretch.getLast? <;> rwa [isLast] at later

/-- A stretch is empty where its characters do not go on. -/
theorem run_nil (ends : ∀ character, cursor.rest.head? = some character →
    set.has character = false) : Prefers (.run set true) cursor cursor := by
  have none : ∀ character ∈ ([] : List Char), set.has character = true := nofun
  exact run none ends

theorem blank (ends : ∀ character, rest.head? = some character →
    Text.isBlank character = false) :
    Prefers blanks ⟨before, ' ' :: rest, offset, captures⟩
      ⟨some ' ', rest, offset + 1, captures⟩ := by
  have inSet : ∀ character ∈ [' '], (among [.blank]).has character = true :=
    List.forall_mem_singleton.mpr (by decide)
  exact run inSet fun character isNext => (has_among_blank character).trans (ends character isNext)

theorem gap (ends : ∀ character, rest.head? = some character →
    Text.isBlank character = false) :
    Prefers Pattern.gap ⟨before, ' ' :: rest, offset, captures⟩
      ⟨some ' ', rest, offset + 1, captures⟩ :=
  (oneOf (by decide)).seq
    (run_nil fun character isNext => (has_among_blank character).trans (ends character isNext))

theorem word (literal : String) (ends : ∀ character, rest.head? = some character →
    Text.isBlank character = false) :
    Prefers (Pattern.word literal) ⟨before, literal.toList ++ ' ' :: rest, offset, captures⟩
      ⟨some ' ', rest, offset + literal.toList.length + 1, captures⟩ :=
  (text literal).seq (gap ends)

end Prefers

/-- The match of a pattern that prefers a place from the start of a text on. -/
theorem find?_of_prefers {pattern : Pattern} {text : List Char} {reached : Cursor}
    (prefers : Prefers pattern ⟨none, text, 0, []⟩ reached) :
    pattern.find? text = some ⟨0, reached.offset, reached.captures⟩ := by
  have here : pattern.matchAt none text 0 = some ⟨0, reached.offset, reached.captures⟩ := by
    rw [matchAt, prefers some reached rfl]
    rfl
  cases text with
  | nil => exact here
  | cons character rest => rw [find?, findFrom, here]; rfl

/-- A pattern that prefers a place from some place of a text on occurs in the text. -/
theorem occursIn_of_prefers {pattern : Pattern} (front rest : List Char) {reached : Cursor}
    (prefers : Prefers pattern ⟨front.getLast?, rest, front.length, []⟩ reached) :
    pattern.occursIn (front ++ rest) = true := by
  have found : ∀ before offset, (pattern.matchAt (front.getLast?.or before) rest
      (offset + front.length)).isSome = true →
      (pattern.findFrom before (front ++ rest) offset).isSome = true := by
    clear prefers
    induction front with
    | nil =>
        intro before offset here
        cases rest with
        | nil => exact here
        | cons character rest =>
            rw [List.nil_append, findFrom]
            rcases Option.isSome_iff_exists.mp here with ⟨found, isHere⟩
            rw [List.length_nil, Nat.add_zero, List.getLast?_nil, Option.none_or] at isHere
            rw [isHere]
            rfl
    | cons character front induction =>
        intro before offset here
        rw [List.cons_append, findFrom]
        cases pattern.matchAt before (character :: (front ++ rest)) offset with
        | some found => rfl
        | none =>
            refine induction (some character) (offset + 1) ?_
            rw [List.getLast?_cons, List.length_cons, Nat.add_comm front.length, ← Nat.add_assoc]
              at here
            cases isLast : front.getLast? <;> rwa [isLast] at here
  refine found none 0 ?_
  rw [Option.or_none, Nat.zero_add, matchAt, prefers some reached rfl]
  rfl

end SourceIndex.Pattern
