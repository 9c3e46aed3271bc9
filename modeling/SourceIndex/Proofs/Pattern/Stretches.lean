import SourceIndex.Pattern.Building
import SourceIndex.Proofs.Pattern.Reading

/-! What a pattern reads is a stretch of the text that lies between two places. Characters without
which it reads nothing are among those of the text. -/

namespace SourceIndex

/-! ## Sets of single characters -/

/-- Whether an item has one character only, which passes a test. -/
def CharacterItem.isOne (test : Char → Bool) : CharacterItem → Bool
  | .between first last => first = last && test first
  | .word | .blank => false

theorem CharacterSet.passes_of_has {test : Char → Bool} {items : List CharacterItem}
    (ones : items.all (·.isOne test) = true) {character : Char}
    (has : (among items).has character = true) : test character = true := by
  have isOneOf : items.any (·.has character) = true := by simpa [CharacterSet.has, among] using has
  rcases List.any_eq_true.mp isOneOf with ⟨item, member, has⟩
  have one := List.all_eq_true.mp ones item member
  cases item with
  | between first last =>
      simp only [CharacterItem.isOne, CharacterItem.has, Bool.and_eq_true, decide_eq_true_eq]
        at one has
      rcases one with ⟨rfl, passes⟩
      rwa [← Char.le_antisymm has.1 has.2]
  | word | blank => cases one

/-- A set that is given by its characters. -/
theorem CharacterSet.has_characters (characters : List Char) (negated : Bool) (character : Char) :
    CharacterSet.has ⟨characters.map fun one => .between one one, negated⟩ character =
      (decide (character ∈ characters) != negated) := by
  have isOne : ∀ one,
      CharacterItem.has (.between one one) character = decide (character = one) := by
    intro one
    rw [Bool.eq_iff_iff]
    simp only [CharacterItem.has, Bool.and_eq_true, decide_eq_true_eq]
    exact ⟨fun both => Char.le_antisymm both.2 both.1,
      fun same => same ▸ ⟨Char.le_refl _, Char.le_refl _⟩⟩
  have any : characters.any (fun one => decide (character = one)) =
      decide (character ∈ characters) := by
    rw [Bool.eq_iff_iff]
    simp
  simp only [CharacterSet.has, List.any_map, Function.comp_def, isOne, any]

theorem CharacterSet.eq_of_has_single {character other : Char}
    (has : (single character).has other = true) : other = character := by
  have isOne := (has_characters [character] false other).symm.trans has
  simpa using isOne

namespace Pattern

/-! ## Stretches -/

/-- Whether a stretch of the text lies between two places. -/
structure Cursor.Spans (cursor reached : Cursor) (stretch : List Char) : Prop where
  rest : cursor.rest = stretch ++ reached.rest
  offset : reached.offset = cursor.offset + stretch.length
  before : reached.before = stretch.getLast?.or cursor.before

variable {cursor middle reached : Cursor} {set : CharacterSet}

namespace Cursor

theorem Spans.nil (cursor : Cursor) : cursor.Spans cursor [] := ⟨rfl, rfl, rfl⟩

theorem Spans.append {first second : List Char} (spans : cursor.Spans middle first)
    (spansLater : middle.Spans reached second) : cursor.Spans reached (first ++ second) where
  rest := by rw [spans.rest, spansLater.rest, List.append_assoc]
  offset := by rw [spansLater.offset, spans.offset, List.length_append, Nat.add_assoc]
  before := by rw [spansLater.before, spans.before, List.getLast?_append, Option.or_assoc]

/-- The text that is remembered between two places is the stretch between them. -/
theorem Spans.captures_remember {stretch : List Char} (spans : cursor.Spans reached stretch)
    (name : String) : (reached.remember name cursor).captures =
      (name, ⟨cursor.offset, stretch⟩) :: reached.captures := by
  have length : reached.offset - cursor.offset = stretch.length := by
    rw [spans.offset, Nat.add_sub_cancel_left]
  rw [remember, length, spans.rest, List.take_left]

theorem read?_eq_some (read : cursor.read? set = some reached) : ∃ character rest,
    set.has character = true ∧ cursor.rest = character :: rest ∧
      reached = ⟨some character, rest, cursor.offset + 1, cursor.captures⟩ := by
  unfold read? at read
  split at read
  · cases read
  · next character rest isRest =>
      split at read
      · next has =>
          cases read
          exact ⟨character, rest, has, isRest, rfl⟩
      · cases read

theorem spans_of_mem_reachable {captures : List (String × Capture)} {before : Option Char}
    {rest : List Char} {offset : Nat} {found : List Cursor}
    (member : reached ∈ reachable set captures before rest offset found) :
    reached ∈ found ∨ ∃ stretch, (∀ character ∈ stretch, set.has character = true) ∧
      Spans ⟨before, rest, offset, captures⟩ reached stretch := by
  induction rest generalizing before offset found with
  | nil =>
      rcases List.mem_cons.mp member with rfl | member
      · exact .inr ⟨[], nofun, Spans.nil _⟩
      · exact .inl member
  | cons character rest induction =>
      have here : ∀ {reached}, reached ∈ (⟨before, character :: rest, offset, captures⟩ : Cursor) ::
          found → reached ∈ found ∨ ∃ stretch, (∀ other ∈ stretch, set.has other = true) ∧
            Spans ⟨before, character :: rest, offset, captures⟩ reached stretch := by
        intro reached member
        rcases List.mem_cons.mp member with rfl | member
        · exact .inr ⟨[], nofun, Spans.nil _⟩
        · exact .inl member
      unfold reachable at member
      simp only at member
      split at member
      · next has =>
          rcases induction member with member | ⟨stretch, inSet, spans⟩
          · exact here member
          · have one : Spans ⟨before, character :: rest, offset, captures⟩
                ⟨some character, rest, offset + 1, captures⟩ [character] := ⟨rfl, rfl, rfl⟩
            exact .inr ⟨character :: stretch, List.forall_mem_cons.mpr ⟨has, inSet⟩,
              one.append spans⟩
      · exact here member

end Cursor

/-! ## Readings -/

theorem Reads.run_inv {greedy : Bool} (reads : Reads (.run set greedy) cursor reached) :
    ∃ stretch, (∀ character ∈ stretch, set.has character = true) ∧
      cursor.Spans reached stretch := by
  cases reads with
  | run member =>
      rcases Cursor.spans_of_mem_reachable member with absurd | found
      · cases absurd
      · exact found

theorem Reads.oneOf_inv (reads : Reads (.oneOf set) cursor reached) :
    ∃ character, set.has character = true ∧ cursor.Spans reached [character] := by
  cases reads with
  | oneOf read =>
      rcases Cursor.read?_eq_some read with ⟨character, rest, has, isRest, rfl⟩
      exact ⟨character, has, isRest, rfl, rfl⟩

theorem Reads.seq_inv {first second : Pattern} (reads : Reads (.seq first second) cursor reached) :
    ∃ middle, first.Reads cursor middle ∧ second.Reads middle reached := by
  cases reads with
  | seq first second => exact ⟨_, first, second⟩

theorem Reads.exists_spans {pattern : Pattern} (reads : pattern.Reads cursor reached) :
    ∃ stretch, cursor.Spans reached stretch := by
  induction reads with
  | nothing | enough | textStart | textEnd | wordEdge => exact ⟨[], Cursor.Spans.nil _⟩
  | oneOf read =>
      rcases Reads.oneOf_inv (.oneOf read) with ⟨character, -, spans⟩
      exact ⟨_, spans⟩
  | run member =>
      rcases Cursor.spans_of_mem_reachable member with absurd | ⟨stretch, -, spans⟩
      · cases absurd
      · exact ⟨_, spans⟩
  | seq _ _ first second | again _ _ first second =>
      rcases first with ⟨firstStretch, spans⟩
      rcases second with ⟨secondStretch, spansLater⟩
      exact ⟨_, spans.append spansLater⟩
  | first _ induction | second _ induction => exact induction
  | named _ induction =>
      rcases induction with ⟨stretch, spans⟩
      exact ⟨stretch, spans.rest, spans.offset, spans.before⟩

/-- The text between two places is what a part between them remembers. -/
theorem Reads.named_inv {name : String} {body : Pattern}
    (reads : Reads (.named name body) cursor reached) :
    ∃ middle stretch, body.Reads cursor middle ∧ cursor.Spans middle stretch ∧
      reached =
        { middle with captures := (name, ⟨cursor.offset, stretch⟩) :: middle.captures } := by
  cases reads with
  | named read =>
      rcases read.exists_spans with ⟨stretch, spans⟩
      exact ⟨_, stretch, read, spans, by rw [← spans.captures_remember name]; rfl⟩

/-- A stretch does not start where the next character is none of its own. -/
theorem Reads.run_rest {greedy : Bool} (reads : Reads (.run set greedy) cursor reached)
    (ends : cursor.rest.head?.any (set.has ·) = false) : reached.rest = cursor.rest := by
  rcases reads.run_inv with ⟨stretch, inSet, spans⟩
  cases stretch with
  | nil => exact spans.rest.symm
  | cons character stretch =>
      rw [spans.rest, List.cons_append, List.head?_cons, Option.any_some,
        inSet character List.mem_cons_self] at ends
      cases ends

/-- A literal text is read where it stands. -/
theorem Reads.text_rest {literal : String} (reads : (text literal).Reads cursor reached) :
    cursor.rest = literal.toList ++ reached.rest := by
  rw [text] at reads
  generalize literal.toList = letters at reads ⊢
  have one : ∀ {letter : Char} {cursor reached : Cursor},
      Reads (.oneOf (.single letter)) cursor reached → cursor.rest = letter :: reached.rest := by
    intro letter cursor reached reads
    rcases reads.oneOf_inv with ⟨character, has, spans⟩
    rw [spans.rest, CharacterSet.eq_of_has_single has, List.singleton_append]
  induction letters generalizing cursor with
  | nil =>
      cases reads
      rfl
  | cons letter letters induction =>
      cases letters with
      | nil => exact one reads
      | cons next letters =>
          rcases reads.seq_inv with ⟨middle, first, later⟩
          rw [one first, induction later]
          rfl

/-- A pattern without named parts remembers nothing. -/
theorem Reads.captures_eq {pattern : Pattern} (reads : pattern.Reads cursor reached)
    (noNames : pattern.names = []) : reached.captures = cursor.captures := by
  induction reads with
  | nothing | enough | textStart | textEnd | wordEdge => rfl
  | oneOf read =>
      rcases Cursor.read?_eq_some read with ⟨character, rest, -, -, rfl⟩
      rfl
  | run member => exact captures_of_mem_reachable (fun _ absurd => by cases absurd) member
  | seq _ _ first second =>
      rw [names, List.append_eq_nil_iff] at noNames
      rw [second noNames.2, first noNames.1]
  | first _ induction => exact induction (List.append_eq_nil_iff.mp noNames).1
  | second _ induction => exact induction (List.append_eq_nil_iff.mp noNames).2
  | again _ _ first later => rw [later noNames, first noNames]
  | named => cases noNames

/-- A choice reads what one of its parts reads. -/
theorem exists_reads_of_anyOf {choices : List Pattern}
    (reads : (anyOf choices).Reads cursor reached) :
    ∃ choice ∈ choices, choice.Reads cursor reached := by
  induction choices with
  | nil =>
      rcases Reads.oneOf_inv reads with ⟨character, has, -⟩
      cases has
  | cons choice choices induction =>
      cases choices with
      | nil => exact ⟨choice, List.mem_cons_self, reads⟩
      | cons next choices =>
          cases reads with
          | first read => exact ⟨choice, List.mem_cons_self, read⟩
          | second read =>
              rcases induction read with ⟨other, member, read⟩
              exact ⟨other, List.mem_cons_of_mem _ member, read⟩

/-! ## Characters that are needed -/

/-- Whether the pattern reads nothing without a character of the set. -/
def requires (set : CharacterSet) : Pattern → Bool
  | .oneOf own => own = set
  | .seq first second => first.requires set || second.requires set
  | .either first second => first.requires set && second.requires set
  | .named _ body => body.requires set
  | _ => false

theorem Reads.exists_of_requires {pattern : Pattern} (reads : pattern.Reads cursor reached)
    (requires : pattern.requires set = true) :
    ∃ character ∈ cursor.rest, set.has character = true := by
  induction reads with
  | oneOf read =>
      cases of_decide_eq_true requires
      rcases Reads.oneOf_inv (.oneOf read) with ⟨character, has, spans⟩
      exact ⟨character, spans.rest ▸ List.mem_cons_self, has⟩
  | seq read _ first second =>
      rcases Bool.or_eq_true_iff.mp requires with requires | requires
      · exact first requires
      · rcases second requires with ⟨character, member, has⟩
        rcases read.exists_spans with ⟨stretch, spans⟩
        exact ⟨character, spans.rest ▸ List.mem_append_right _ member, has⟩
  | first _ induction => exact induction (Bool.and_eq_true_iff.mp requires).1
  | second _ induction => exact induction (Bool.and_eq_true_iff.mp requires).2
  | named _ induction => exact induction requires
  | nothing | run | enough | again | textStart | textEnd | wordEdge => cases requires

/-- A pattern does not match a text without the characters that it needs. -/
theorem find?_eq_none_of_requires {pattern : Pattern} {text : List Char}
    (requires : pattern.requires set = true)
    (none : ∀ character ∈ text, set.has character = false) : pattern.find? text = Option.none := by
  cases matched : pattern.find? text with
  | none => rfl
  | some found =>
      rcases find?_eq_some matched with ⟨front, rest, reached, rfl, reads, -⟩
      rcases reads.exists_of_requires requires with ⟨character, member, has⟩
      rw [none character (List.mem_append_right _ member)] at has
      cases has

theorem occursIn_eq_false_of_requires (set : CharacterSet) {pattern : Pattern} {text : List Char}
    (requires : pattern.requires set = true)
    (none : ∀ character ∈ text, set.has character = false) : pattern.occursIn text = false := by
  rw [occursIn, find?_eq_none_of_requires requires none]
  rfl

/-! ## Anchored patterns -/

/-- A pattern that asks for the start of the text is tried there only. -/
theorem find?_of_textStart (pattern : Pattern) (text : List Char) :
    (Pattern.seq .textStart pattern).find? text =
      (Pattern.seq .textStart pattern).matchAt none text 0 := by
  have later : ∀ text character offset,
      (Pattern.seq .textStart pattern).findFrom (some character) text offset = none := by
    intro text
    induction text with
    | nil => exact fun _ _ => rfl
    | cons next text induction => exact fun _ _ => induction _ _
  cases text with
  | nil => rfl
  | cons character text =>
      rw [find?, findFrom, later]
      cases matchAt .. <;> rfl

theorem exists_reads_of_textStart {pattern : Pattern} {text : List Char} {found : Match}
    (matched : (Pattern.seq .textStart pattern).find? text = some found) :
    ∃ reached, (Pattern.seq .textStart pattern).Reads (.start text) reached := by
  rw [find?_of_textStart] at matched
  rcases Option.map_eq_some_iff.mp matched with ⟨reached, followed, -⟩
  rcases follow_sound _ _ _ _ followed with ⟨place, reads, -⟩
  exact ⟨place, reads⟩

end Pattern

end SourceIndex
