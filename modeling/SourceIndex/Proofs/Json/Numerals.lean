import SourceIndex.Json.Reading
import SourceIndex.Json.Writing

/-! Reading the numbers that have been written. -/

namespace SourceIndex.Json

/-! ## Where numbers end -/

/-- Whether a number before this text ends where the text starts. -/
def EndsNumber (rest : List Char) : Prop :=
  ∀ character ∈ rest.head?, isDigit character = false ∧ character ∉ ['.', 'e', 'E']

theorem endsNumber_nil : EndsNumber [] := fun _ member => nomatch member

theorem endsNumber_cons {character : Char} (rest : List Char) (plain : isDigit character = false)
    (noPart : character ∉ ['.', 'e', 'E']) : EndsNumber (character :: rest) := by
  intro other member
  cases member
  exact ⟨plain, noPart⟩

theorem bind_eq_ok {ε α β : Type} {first : Except ε α} {next : α → Except ε β} {result : β} :
    (first >>= next) = .ok result ↔ ∃ value, first = .ok value ∧ next value = .ok result := by
  constructor
  · intro reads
    cases first with
    | error fault => cases reads
    | ok value => exact ⟨value, rfl, reads⟩
  · rintro ⟨value, rfl, reads⟩
    exact reads

theorem fractionRest_of_head {text : List Char} (noPoint : text.head? ≠ some '.') :
    fractionRest text = .ok (none, text) := by
  cases text with
  | nil => rfl
  | cons character text =>
      unfold fractionRest
      split
      · next same => cases same; exact absurd rfl noPoint
      · rfl

theorem exponentRest_of_head {text : List Char} (noLower : text.head? ≠ some 'e')
    (noUpper : text.head? ≠ some 'E') : exponentRest text = .ok (none, text) := by
  cases text with
  | nil => rfl
  | cons character text =>
      unfold exponentRest
      split
      · next same => cases same; exact absurd rfl noLower
      · next same => cases same; exact absurd rfl noUpper
      · rfl

theorem signRest_of_head {text : List Char} (noPlus : text.head? ≠ some '+')
    (noMinus : text.head? ≠ some '-') : signRest text = (false, text) := by
  cases text with
  | nil => rfl
  | cons character text =>
      unfold signRest
      split
      · next same => cases same; exact absurd rfl noPlus
      · next same => cases same; exact absurd rfl noMinus
      · rfl

theorem signRest_append {text left : List Char} {negative : Bool}
    (reads : signRest text = (negative, left)) (some : left ≠ []) (rest : List Char) :
    signRest (text ++ rest) = (negative, left ++ rest) := by
  cases text with
  | nil => cases reads; exact absurd rfl some
  | cons character text =>
      by_cases plus : character = '+'
      · subst plus; cases reads; rfl
      · by_cases minus : character = '-'
        · subst minus; cases reads; rfl
        · have noPlus : ∀ text : List Char, (character :: text).head? ≠ Option.some '+' :=
            fun text same => plus (Option.some.inj same)
          have noMinus : ∀ text : List Char, (character :: text).head? ≠ Option.some '-' :=
            fun text same => minus (Option.some.inj same)
          rw [signRest_of_head (noPlus text) (noMinus text)] at reads
          cases reads
          exact signRest_of_head (noPlus (text ++ rest)) (noMinus (text ++ rest))

section

variable {rest : List Char} (ends : EndsNumber rest)

include ends

theorem head?_ne_of_ends {character : Char} (part : character ∈ ['.', 'e', 'E']) :
    rest.head? ≠ some character :=
  fun same => (ends character same).2 part

theorem takeWhile_append_of_ends (text : List Char) :
    (text ++ rest).takeWhile isDigit = text.takeWhile isDigit := by
  have nothing : rest.takeWhile isDigit = [] := by
    cases rest with
    | nil => rfl
    | cons character rest => simp [(ends character rfl).1]
  rw [List.takeWhile_append, nothing, List.append_nil]
  split
  · next whole => exact ((List.takeWhile_prefix isDigit).eq_of_length whole).symm
  · rfl

theorem dropWhile_append_of_ends (text : List Char) :
    (text ++ rest).dropWhile isDigit = text.dropWhile isDigit ++ rest := by
  have everything : rest.dropWhile isDigit = rest := by
    cases rest with
    | nil => rfl
    | cons character rest => simp [(ends character rfl).1]
  rw [List.dropWhile_append, everything]
  split
  · next nothing => rw [List.isEmpty_iff.mp nothing, List.nil_append]
  · rfl

theorem digitsRest_append {text digits left : List Char}
    (reads : digitsRest text = .ok (digits, left)) :
    digitsRest (text ++ rest) = .ok (digits, left ++ rest) := by
  unfold digitsRest at reads ⊢
  rw [takeWhile_append_of_ends ends, dropWhile_append_of_ends ends]
  simp only at reads ⊢
  split at reads
  · cases reads
  · next some =>
      cases reads
      rw [if_neg some]

theorem fractionRest_append {text left : List Char} {fraction : Option (List Char)}
    (reads : fractionRest text = .ok (fraction, left)) :
    fractionRest (text ++ rest) = .ok (fraction, left ++ rest) := by
  cases text with
  | nil =>
      cases reads
      exact fractionRest_of_head (head?_ne_of_ends ends (by decide))
  | cons character text =>
      by_cases point : character = '.'
      · subst point
        rcases bind_eq_ok.mp reads with ⟨⟨digits, after⟩, digitsRead, same⟩
        cases same
        exact bind_eq_ok.mpr ⟨_, digitsRest_append ends digitsRead, rfl⟩
      · have noPoint : ∀ text : List Char, (character :: text).head? ≠ some '.' :=
          fun text same => point (Option.some.inj same)
        rw [fractionRest_of_head (noPoint text)] at reads
        cases reads
        exact fractionRest_of_head (noPoint (text ++ rest))

theorem powerRest_append {text left : List Char} {power : Option (Bool × List Char)}
    (reads : powerRest text = .ok (power, left)) :
    powerRest (text ++ rest) = .ok (power, left ++ rest) := by
  rcases bind_eq_ok.mp reads with ⟨⟨digits, after⟩, digitsRead, same⟩
  cases same
  have some : (signRest text).2 ≠ [] := by
    intro nothing
    rw [nothing] at digitsRead
    cases digitsRead
  have sign := signRest_append rfl some rest
  unfold powerRest
  rw [sign]
  exact bind_eq_ok.mpr ⟨_, digitsRest_append ends digitsRead, rfl⟩

theorem exponentRest_append {text left : List Char} {exponent : Option (Bool × List Char)}
    (reads : exponentRest text = .ok (exponent, left)) :
    exponentRest (text ++ rest) = .ok (exponent, left ++ rest) := by
  cases text with
  | nil =>
      cases reads
      exact exponentRest_of_head (head?_ne_of_ends ends (by decide))
        (head?_ne_of_ends ends (by decide))
  | cons character text =>
      by_cases lower : character = 'e'
      · subst lower; exact powerRest_append ends reads
      · by_cases upper : character = 'E'
        · subst upper; exact powerRest_append ends reads
        · have noLower : ∀ text : List Char, (character :: text).head? ≠ some 'e' :=
            fun text same => lower (Option.some.inj same)
          have noUpper : ∀ text : List Char, (character :: text).head? ≠ some 'E' :=
            fun text same => upper (Option.some.inj same)
          rw [exponentRest_of_head (noLower text) (noUpper text)] at reads
          cases reads
          exact exponentRest_of_head (noLower (text ++ rest)) (noUpper (text ++ rest))

/-- A numeral is read alike whatever follows it, as long as that does not go on with the number. -/
theorem numeralRest_append {negative : Bool} {text left : List Char} {numeral : Numeral}
    (reads : numeralRest negative text = .ok (numeral, left)) :
    numeralRest negative (text ++ rest) = .ok (numeral, left ++ rest) := by
  rcases bind_eq_ok.mp reads with ⟨⟨whole, afterWhole⟩, wholeRead, reads⟩
  refine bind_eq_ok.mpr ⟨_, digitsRest_append ends wholeRead, ?_⟩
  simp only at reads ⊢
  split at reads
  · cases reads
  · next plain =>
      rw [if_neg plain]
      rcases bind_eq_ok.mp reads with ⟨⟨fraction, afterFraction⟩, fractionRead, reads⟩
      refine bind_eq_ok.mpr ⟨_, fractionRest_append ends fractionRead, ?_⟩
      rcases bind_eq_ok.mp reads with ⟨⟨exponent, afterExponent⟩, exponentRead, same⟩
      cases same
      exact bind_eq_ok.mpr ⟨_, exponentRest_append ends exponentRead, rfl⟩

end

/-! ## Whole numbers -/

theorem isDigit_of_mem_toDigits {character : Char} {number : Nat}
    (member : character ∈ Nat.toDigits 10 number) : isDigit character = true := by
  have digit := Nat.isDigit_of_mem_toDigits (by decide) (by decide) member
  simp only [Char.isDigit, isDigit, Bool.and_eq_true, decide_eq_true_eq] at digit ⊢
  exact digit

theorem head?_toDigits_ne {number : Nat} (positive : 0 < number) :
    (Nat.toDigits 10 number).head? ≠ some '0' := by
  induction number using Nat.strongRecOn with
  | ind number induction =>
      by_cases small : number < 10
      · rw [Nat.toDigits_of_lt_base small]
        have first : ∀ digit < 10, 0 < digit → [Nat.digitChar digit].head? ≠ some '0' := by decide
        exact first number small positive
      · have large : 10 ≤ number := Nat.le_of_not_lt small
        have front := induction (number / 10) (by omega) (by omega)
        rw [List.head?_eq_some_head Nat.toDigits_ne_nil] at front
        rw [Nat.toDigits_of_base_le (by decide) large, List.head?_append,
          List.head?_eq_some_head Nat.toDigits_ne_nil]
        exact front

theorem numeralRest_toDigits (negative : Bool) (number : Nat) :
    numeralRest negative (Nat.toDigits 10 number) =
      .ok (⟨negative, Nat.toDigits 10 number, none, none⟩, []) := by
  have digits : ∀ character ∈ Nat.toDigits 10 number, isDigit character = true :=
    fun character member => isDigit_of_mem_toDigits member
  have whole : digitsRest (Nat.toDigits 10 number) = .ok (Nat.toDigits 10 number, []) := by
    unfold digitsRest
    have taken : (Nat.toDigits 10 number ++ []).takeWhile isDigit = Nat.toDigits 10 number ++ [] :=
      List.takeWhile_append_of_pos digits
    have dropped : (Nat.toDigits 10 number ++ []).dropWhile isDigit = [] :=
      List.dropWhile_append_of_pos digits
    rw [List.append_nil] at taken dropped
    simp [taken, dropped, Nat.toDigits_ne_nil]
  have plain : ¬ ((Nat.toDigits 10 number).head? = some '0' &&
      (Nat.toDigits 10 number).length > 1) = true := by
    cases number with
    | zero => decide
    | succ number => simp [head?_toDigits_ne (Nat.succ_pos number)]
  refine bind_eq_ok.mpr ⟨_, whole, ?_⟩
  simp only [if_neg plain]
  rfl

theorem digitsValue_toDigits (number : Nat) :
    Numeral.digitsValue (Nat.toDigits 10 number) = number := by
  have value := Nat.ofDigitChars_ten_toDigits (n := number)
  rw [Nat.ofDigitChars_eq_foldl] at value
  unfold Numeral.digitsValue digitValue
  simpa only [Nat.mul_comm] using value

end SourceIndex.Json
