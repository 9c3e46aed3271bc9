import Mathlib.Data.List.Infix
import SourceIndex.Code.Brackets

/-! How deep the braces of a text lead. A closing brace that meets no open one is surplus: it leaves
the depth at zero. A text without surplus braces, seen from the depth at which it is entered, leads
as deep as the numbers of its braces tell, and a brace is left open by such a text behind it. -/

namespace SourceIndex

/-! ## Depths -/

/-- The depth behind one character. -/
def braceDepth (depth : Nat) (character : Char) : Nat :=
  if character = '\x7b' then depth + 1 else if character = '\x7d' then depth - 1 else depth

/-- The depth behind a text that is entered at a depth, character by character. -/
def depthBehind (depth : Nat) (text : List Char) : Nat := text.foldl braceDepth depth

/-- How many closing braces of a text that is entered at a depth meet no open brace. -/
def surplus : (depth : Nat) → List Char → Nat
  | _, [] => 0
  | depth, character :: rest =>
    (if character = '\x7d' ∧ depth = 0 then 1 else 0) + surplus (braceDepth depth character) rest

/-- Whether a text closes no more braces than it has opened and `depth` others in front of it. -/
def ClosesWithin (depth : Nat) (text : List Char) : Prop :=
  ∀ front, front <+: text → front.count '\x7d' ≤ depth + front.count '\x7b'

/-- Whether a text closes all the braces that it opens, and no others. -/
structure IsBalanced (text : List Char) : Prop where
  within : ClosesWithin 0 text
  even : text.count '\x7d' = text.count '\x7b'

section Depths

variable {depth : Nat} {text front back : List Char}

@[simp] theorem depthBehind_nil (depth : Nat) : depthBehind depth [] = depth := rfl

@[simp] theorem depthBehind_cons (depth : Nat) (character : Char) (text : List Char) :
    depthBehind depth (character :: text) = depthBehind (braceDepth depth character) text := rfl

@[simp] theorem depthBehind_append (depth : Nat) (front back : List Char) :
    depthBehind depth (front ++ back) = depthBehind (depthBehind depth front) back :=
  List.foldl_append

@[simp] theorem braceDepth_opening (depth : Nat) : braceDepth depth '\x7b' = depth + 1 := rfl

@[simp] theorem braceDepth_closing (depth : Nat) : braceDepth depth '\x7d' = depth - 1 := rfl

theorem braceDepth_other (depth : Nat) {character : Char} (noOpening : character ≠ '\x7b')
    (noClosing : character ≠ '\x7d') : braceDepth depth character = depth := by
  rw [braceDepth, if_neg noOpening, if_neg noClosing]

/-- A text without braces leads nowhere. -/
theorem depthBehind_of_no_brace (depth : Nat)
    (none : ∀ character ∈ text, character ≠ '\x7b' ∧ character ≠ '\x7d') :
    depthBehind depth text = depth := by
  induction text with
  | nil => rfl
  | cons character text induction =>
      have first := none character (List.mem_cons_self ..)
      rw [depthBehind_cons, braceDepth_other depth first.1 first.2]
      exact induction fun other member => none other (List.mem_cons_of_mem _ member)

/-! ## Surplus braces -/

theorem surplus_append (depth : Nat) (front back : List Char) :
    surplus depth (front ++ back) =
      surplus depth front + surplus (depthBehind depth front) back := by
  induction front generalizing depth with
  | nil => simp [surplus]
  | cons character front induction =>
      simp only [List.cons_append, surplus, depthBehind_cons, induction, Nat.add_assoc]

/-- Each brace changes the depth by one, but for surplus ones. -/
theorem depthBehind_add_count (depth : Nat) (text : List Char) :
    depthBehind depth text + text.count '\x7d' =
      depth + text.count '\x7b' + surplus depth text := by
  induction text generalizing depth with
  | nil => simp [surplus]
  | cons character text induction =>
      have later := induction (braceDepth depth character)
      simp only [depthBehind_cons, surplus, List.count_cons, beq_iff_eq]
      by_cases opening : character = '\x7b'
      · subst opening
        simp only [braceDepth_opening, Char.reduceEq] at later ⊢
        simp only [if_true, if_false, false_and] at later ⊢
        omega
      · by_cases closing : character = '\x7d'
        · subst closing
          simp only [braceDepth_closing, Char.reduceEq] at later ⊢
          by_cases zero : depth = 0
          · simp [zero] at later ⊢
            omega
          · simp [zero] at later ⊢
            omega
        · rw [braceDepth_other depth opening closing] at later ⊢
          simp [opening, closing]
          omega

theorem surplus_eq_zero_iff : surplus depth text = 0 ↔ ClosesWithin depth text := by
  constructor
  · rintro none front ⟨back, rfl⟩
    rw [surplus_append] at none
    have counts := depthBehind_add_count depth front
    omega
  · intro within
    induction text using List.reverseRecOn with
    | nil => rfl
    | append_singleton text last induction =>
        have none := induction fun front isFront => within front (isFront.trans ⟨[last], rfl⟩)
        have counts := depthBehind_add_count depth text
        have whole := within _ (List.prefix_refl _)
        rw [surplus_append, none]
        simp only [surplus, List.count_append, List.count_singleton, beq_iff_eq] at whole ⊢
        split
        · next surplusBrace =>
            rw [surplusBrace.1] at whole
            simp only [Char.reduceEq, if_true, if_false] at whole
            omega
        · rfl

instance : Decidable (ClosesWithin depth text) := decidable_of_iff _ surplus_eq_zero_iff

/-- What comes behind a text goes on at the depth to which the text leads. -/
theorem closesWithin_append : ClosesWithin depth (front ++ back) ↔
    ClosesWithin depth front ∧ ClosesWithin (depthBehind depth front) back := by
  simp only [← surplus_eq_zero_iff, surplus_append, Nat.add_eq_zero_iff]

theorem closesWithin_singleton {character : Char} :
    ClosesWithin depth [character] ↔ ¬ (character = '\x7d' ∧ depth = 0) := by
  simp [← surplus_eq_zero_iff, surplus]

/-- Other open braces around a text only lead to a greater depth. -/
theorem ClosesWithin.depthBehind_add (within : ClosesWithin depth text) (around : Nat) :
    depthBehind (around + depth) text = around + depthBehind depth text := by
  have counts := depthBehind_add_count depth text
  have counted := depthBehind_add_count (around + depth) text
  have wider : ClosesWithin (around + depth) text := by
    intro front isFront
    have := within front isFront
    omega
  rw [surplus_eq_zero_iff.mpr within] at counts
  rw [surplus_eq_zero_iff.mpr wider] at counted
  omega

/-- A text that leaves a brace in front of it open, and closes it once more text has come, closes it
at one place of the further text. -/
theorem exists_closing (isOpen : ClosesWithin 0 text) (closed : ¬ ClosesWithin 0 (text ++ back)) :
    ∃ inner outer, back = inner ++ '\x7d' :: outer ∧ IsBalanced (text ++ inner) := by
  induction back using List.reverseRecOn with
  | nil =>
      rw [List.append_nil] at closed
      exact absurd isOpen closed
  | append_singleton back last induction =>
      by_cases stays : ClosesWithin 0 (text ++ back)
      · rw [← List.append_assoc, closesWithin_append, closesWithin_singleton] at closed
        have closing : last = '\x7d' ∧ depthBehind 0 (text ++ back) = 0 := by
          by_contra other
          exact closed ⟨stays, other⟩
        have counts := depthBehind_add_count 0 (text ++ back)
        rw [surplus_eq_zero_iff.mpr stays, closing.2] at counts
        exact ⟨back, [], by rw [closing.1], stays, by omega⟩
      · rcases induction stays with ⟨inner, outer, rfl, balanced⟩
        exact ⟨inner, outer ++ [last], by simp, balanced⟩

end Depths

/-! ## Braces that a line leaves open -/

/-- What stands in front of the first opening brace that a line leaves open, and behind it. -/
def unclosedBrace? : List Char → Option (List Char × List Char)
  | [] => none
  | character :: rest =>
    if character = '\x7b' ∧ ClosesWithin 0 rest then some ([], rest)
    else (unclosedBrace? rest).map fun (before, after) => (character :: before, after)

example : unclosedBrace? "\x7d f(\x7b \x7d, \x7b a".toList =
    some ("\x7d f(\x7b \x7d, ".toList, " a".toList) := by decide

namespace BraceWalk

theorem ofLine_concat (depth : Nat) (code : List Char) (character : Char) :
    ofLine depth (code ++ [character]) = (ofLine depth code).take character :=
  List.foldl_concat ..

theorem depth_take (walk : BraceWalk) (character : Char) :
    (walk.take character).depth = braceDepth walk.depth character := by
  unfold take braceDepth
  split
  · rfl
  · split <;> rfl

theorem depth_foldl_take (walk : BraceWalk) (code : List Char) :
    (code.foldl take walk).depth = depthBehind walk.depth code := by
  induction code generalizing walk with
  | nil => rfl
  | cons character code induction => rw [List.foldl_cons, induction, depth_take, depthBehind_cons]

@[simp] theorem depth_ofLine (depth : Nat) (code : List Char) :
    (ofLine depth code).depth = depthBehind depth code :=
  depth_foldl_take _ code

/-- What a walk becomes at each kind of character. -/
theorem take_cases (walk : BraceWalk) (character : Char) :
    (character = '\x7b' ∧ walk.take character =
      { walk with
        depth := walk.depth + 1
        opens := walk.opens + 1
        openDepths := walk.depth :: walk.openDepths }) ∨
    (character = '\x7d' ∧ walk.take character =
      { walk with
        depth := walk.depth - 1
        closes := walk.closes + 1
        closeDepths := (walk.depth - 1) :: walk.closeDepths
        openDepths := walk.openDepths.tail }) ∨
    (character ≠ '\x7b' ∧ character ≠ '\x7d' ∧ walk.take character = walk) := by
  by_cases opening : character = '\x7b'
  · exact .inl ⟨opening, by rw [take, if_pos opening]⟩
  · by_cases closing : character = '\x7d'
    · exact .inr (.inl ⟨closing, by rw [take, if_neg opening, if_pos closing]⟩)
    · exact .inr (.inr ⟨opening, closing, by rw [take, if_neg opening, if_neg closing]⟩)

theorem counts_ofLine (depth : Nat) (code : List Char) :
    (ofLine depth code).opens = code.count '\x7b' ∧
      (ofLine depth code).closes = code.count '\x7d' := by
  induction code using List.reverseRecOn with
  | nil => exact ⟨rfl, rfl⟩
  | append_singleton code last induction =>
      rw [ofLine_concat, List.count_append, List.count_append]
      rcases take_cases (ofLine depth code) last with
        ⟨rfl, taken⟩ | ⟨rfl, taken⟩ | ⟨noOpening, noClosing, taken⟩
      · rw [taken]
        simp [induction.1, induction.2]
      · rw [taken]
        simp [induction.1, induction.2]
      · rw [taken]
        simp [induction.1, induction.2, noOpening, noClosing]

theorem length_closeDepths (depth : Nat) (code : List Char) :
    (ofLine depth code).closeDepths.length = (ofLine depth code).closes := by
  induction code using List.reverseRecOn with
  | nil => rfl
  | append_singleton code last induction =>
      rw [ofLine_concat]
      rcases take_cases (ofLine depth code) last with ⟨-, taken⟩ | ⟨-, taken⟩ | ⟨-, -, taken⟩ <;>
        simp [taken, induction]

/-- What is kept of the depth at a line's start, once opening braces are added and closing ones are
taken away, falls short of the depth behind the line by the surplus braces. -/
theorem depth_add_opens_sub_closes (depth : Nat) (code : List Char) :
    depth + (ofLine depth code).opens - (ofLine depth code).closes =
      depthBehind depth code - surplus depth code := by
  have counts := depthBehind_add_count depth code
  rw [(counts_ofLine depth code).1, (counts_ofLine depth code).2]
  omega

/-- A line leads back below a brace that was open in front of it if and only if it closes it. -/
theorem forall_lt_closeDepths_iff {depth key : Nat} {code : List Char} (below : key < depth)
    (within : ClosesWithin depth code) :
    (∀ target ∈ (ofLine depth code).closeDepths, key < target) ↔
      ClosesWithin (depth - (key + 1)) code := by
  induction code using List.reverseRecOn with
  | nil => simp [ofLine, ← surplus_eq_zero_iff, surplus]
  | append_singleton code last induction =>
      rw [closesWithin_append] at within ⊢
      have former := induction within.1
      rw [ofLine_concat, closesWithin_singleton]
      rcases take_cases (ofLine depth code) last with
        ⟨rfl, taken⟩ | ⟨rfl, taken⟩ | ⟨noOpening, noClosing, taken⟩
      · rw [taken]
        simpa using former
      · rw [taken, List.forall_mem_cons, former, depth_ofLine, and_comm]
        refine and_congr_right fun inner => ?_
        have counts := inner.depthBehind_add (key + 1)
        rw [Nat.add_sub_cancel' below] at counts
        rw [counts]
        simp only [true_and]
        omega
      · rw [taken, former]
        simp [noClosing]

/-! ## The first brace that a line leaves open -/

/-- A walk knows of as many open braces as there would be without any in front of the line. -/
theorem length_openDepths (depth : Nat) (code : List Char) :
    (ofLine depth code).openDepths.length = depthBehind 0 code := by
  induction code using List.reverseRecOn with
  | nil => rfl
  | append_singleton code last induction =>
      rw [ofLine_concat, depthBehind_append, ← induction]
      rcases take_cases (ofLine depth code) last with
        ⟨rfl, taken⟩ | ⟨rfl, taken⟩ | ⟨noOpening, noClosing, taken⟩
      · rw [taken]
        rfl
      · rw [taken]
        simp
      · rw [taken]
        simp [braceDepth_other _ noOpening noClosing]

/-- Of the open braces that a walk knows of in front of a text, the text closes the innermost
ones. -/
theorem openDepths_foldl_take (walk : BraceWalk) (code : List Char) :
    (code.foldl take walk).openDepths =
      (ofLine walk.depth code).openDepths ++ walk.openDepths.drop (surplus 0 code) := by
  induction code using List.reverseRecOn with
  | nil => rfl
  | append_singleton code last induction =>
      have depth := depth_foldl_take walk code
      have length := length_openDepths walk.depth code
      rw [List.foldl_concat, ofLine_concat, surplus_append]
      rcases take_cases (code.foldl take walk) last with
        ⟨rfl, taken⟩ | ⟨rfl, taken⟩ | ⟨noOpening, noClosing, taken⟩
      · rw [taken]
        simp [take, depth, induction, surplus]
      · rw [taken]
        simp only [take, surplus, Char.reduceEq, if_true, if_false, true_and, induction]
        cases known : (ofLine walk.depth code).openDepths with
        | nil =>
            rw [known, List.length_nil] at length
            simp [← length, List.tail_drop]
        | cons first others =>
            rw [known, List.length_cons] at length
            simp [← length]
      · rw [taken, induction]
        simp [take, surplus, noOpening, noClosing]

theorem openDepths_ofLine_cons (depth : Nat) (character : Char) (code : List Char) :
    (ofLine depth (character :: code)).openDepths =
      (ofLine (braceDepth depth character) code).openDepths ++
        (if character = '\x7b' then [depth] else []).drop (surplus 0 code) := by
  rw [ofLine, List.foldl_cons, openDepths_foldl_take, depth_take]
  congr 2
  unfold take
  split
  · rfl
  · split <;> rfl

/-- A brace that a line closes is none that the walk over the line leaves open. -/
theorem drop_surplus_of_closed {depth : Nat} {character : Char} {code : List Char}
    (closed : ¬ (character = '\x7b' ∧ ClosesWithin 0 code)) :
    (if character = '\x7b' then [depth] else []).drop (surplus 0 code) = [] := by
  split
  · next opening =>
      have some : surplus 0 code ≠ 0 := fun zero =>
        closed ⟨opening, surplus_eq_zero_iff.mp zero⟩
      exact List.drop_of_length_le (Nat.one_le_iff_ne_zero.mpr some)
  · exact List.drop_nil

/-- The first brace that a line leaves open stands at the depth to which the text in front of it
leads. -/
theorem unclosed?_of_unclosedBrace? {code before after : List Char} (depth : Nat)
    (splits : unclosedBrace? code = some (before, after)) :
    code = before ++ '\x7b' :: after ∧ ClosesWithin 0 after ∧
      (ofLine depth code).unclosed? = some (depthBehind depth before) := by
  induction code generalizing depth before with
  | nil => cases splits
  | cons character code induction =>
      rw [unclosedBrace?] at splits
      rw [unclosed?, openDepths_ofLine_cons]
      split at splits
      · next unclosed =>
          rcases unclosed with ⟨rfl, within⟩
          cases splits
          refine ⟨rfl, within, ?_⟩
          rw [surplus_eq_zero_iff.mpr within]
          simp
      · next closed =>
          rcases Option.map_eq_some_iff.mp splits with ⟨⟨inner, outer⟩, found, same⟩
          cases same
          rcases induction (braceDepth depth character) found with ⟨rfl, within, key⟩
          refine ⟨rfl, within, ?_⟩
          rw [drop_surplus_of_closed closed, List.append_nil]
          exact key

theorem unclosed?_of_unclosedBrace?_eq_none {code : List Char} (depth : Nat)
    (none : unclosedBrace? code = none) : (ofLine depth code).unclosed? = .none := by
  induction code generalizing depth with
  | nil => rfl
  | cons character code induction =>
      rw [unclosedBrace?] at none
      rw [unclosed?, openDepths_ofLine_cons]
      split at none
      · cases none
      · next closed =>
          rw [drop_surplus_of_closed closed, List.append_nil]
          exact induction (braceDepth depth character) (Option.map_eq_none_iff.mp none)

end BraceWalk

end SourceIndex
