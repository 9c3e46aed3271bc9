import SourceIndex.Proofs.Json.Spelling

/-! Values that are written, on one line or laid out over several, and read back. -/

namespace SourceIndex.Json

/-- Whether a value can be written and read back: every whole number in it fits in 64 bits, and
every number with a fraction is one that reading its shortest decimal gives. -/
inductive IsLossless : Json → Prop
  | null : IsLossless .null
  | bool (value : Bool) : IsLossless (.bool value)
  | integer {value : Int} (low : -0x8000000000000000 ≤ value) (high : value ≤ 0xffffffffffffffff) :
      IsLossless (.integer value)
  | decimal {value : Float} (survives : read? (decimal value).compact = some (.decimal value)) :
      IsLossless (.decimal value)
  | string (text : String) : IsLossless (.string text)
  | array {items : List Json} (each : ∀ item ∈ items, IsLossless item) : IsLossless (.array items)
  | object {members : List (String × Json)} (each : ∀ member ∈ members, IsLossless member.2) :
      IsLossless (.object members)

/-! ## Whole numbers -/

theorem toList_toString (value : Int) :
    (toString value).toList = signed (decide (value < 0)) (Nat.toDigits 10 value.natAbs) := by
  rw [Int.toString_eq_repr, Int.repr_eq_if]
  by_cases negative : value < 0
  · have isNegative : ¬ 0 ≤ value := Int.not_le.mpr negative
    have magnitude : (-value).toNat = value.natAbs := by omega
    rw [if_neg isNegative, String.toList_append, Nat.toList_repr, magnitude,
      decide_eq_true negative]
    rfl
  · have positive : 0 ≤ value := Int.not_lt.mp negative
    have magnitude : value.toNat = value.natAbs := by omega
    rw [if_pos positive, Nat.toList_repr, magnitude, decide_eq_false negative]
    rfl

theorem spells_integer {value : Int} (low : -0x8000000000000000 ≤ value)
    (high : value ≤ 0xffffffffffffffff) : Spells (.integer value) (toString value).toList := by
  rw [toList_toString]
  refine Spells.number (numeralRest_toDigits _ _) ?_
  have whole : Numeral.integer?
      ⟨decide (value < 0), Nat.toDigits 10 value.natAbs, none, none⟩ = some value := by
    unfold Numeral.integer? wordMax
    simp only [Option.isSome_none, Bool.or_self, Bool.false_eq_true, if_false, digitsValue_toDigits]
    by_cases negative : value < 0
    · have bounds : 0 < value.natAbs ∧ value.natAbs ≤ 0x8000000000000000 := by omega
      have magnitude : -(value.natAbs : Int) = value := by omega
      rw [decide_eq_true negative, if_pos rfl, if_pos bounds, magnitude]
    · have bound : value.natAbs ≤ 0xffffffffffffffff := by omega
      have magnitude : (value.natAbs : Int) = value := by omega
      rw [decide_eq_false negative, if_neg Bool.false_ne_true, if_pos bound, magnitude]
  rw [Draft.value?, whole]

/-! ## Numbers with a fraction -/

/-- The characters of which numbers are made. -/
def IsNumeric (character : Char) : Prop := isDigit character = true ∨ character ∈ ['-', '.', 'e']

theorem isNumeric_of_mem_toDigits {character : Char} {number : Nat}
    (member : character ∈ Nat.toDigits 10 number) : IsNumeric character :=
  .inl (isDigit_of_mem_toDigits member)

theorem isNumeric_of_mem_toString {character : Char} {value : Int}
    (member : character ∈ (toString value).toList) : IsNumeric character := by
  rw [toList_toString, signed] at member
  split at member
  · rcases List.mem_cons.mp member with rfl | member
    · exact .inr (by decide)
    · exact isNumeric_of_mem_toDigits member
  · exact isNumeric_of_mem_toDigits member

theorem isNumeric_of_mem_replicate {character : Char} {count : Nat}
    (member : character ∈ List.replicate count '0') : IsNumeric character := by
  rw [List.eq_of_mem_replicate member]
  exact .inl (by decide)

theorem isNumeric_of_mem_placePoint {digits : List Char}
    (numeric : ∀ character ∈ digits, IsNumeric character) {whole : Nat} {character : Char}
    (member : character ∈ placePoint digits whole) : IsNumeric character := by
  unfold placePoint at member
  rcases List.mem_append.mp member with member | member
  · exact numeric character (List.mem_of_mem_take member)
  · rcases List.mem_cons.mp member with rfl | member
    · exact .inr (by decide)
    · split at member
      · rw [List.mem_singleton.mp member]
        exact .inl (by decide)
      · exact numeric character (List.mem_of_mem_drop member)

theorem isNumeric_of_mem_render {decimal : Decimal} {character : Char}
    (member : character ∈ decimal.render) : IsNumeric character := by
  have digits : ∀ character ∈ Nat.toDigits 10 decimal.digits, IsNumeric character :=
    fun character member => isNumeric_of_mem_toDigits member
  unfold Decimal.render at member
  simp only at member
  split at member
  · refine isNumeric_of_mem_placePoint ?_ member
    intro character member
    rcases List.mem_append.mp member with member | member
    · exact digits character member
    · exact isNumeric_of_mem_replicate member
  · split at member
    · rcases List.mem_cons.mp member with rfl | member
      · exact .inl (by decide)
      · rcases List.mem_cons.mp member with rfl | member
        · exact .inr (by decide)
        · rcases List.mem_append.mp member with member | member
          · exact isNumeric_of_mem_replicate member
          · exact digits character member
    · rcases List.mem_append.mp member with member | member
      · split at member
        · exact digits character member
        · exact isNumeric_of_mem_placePoint digits member
      · rcases List.mem_cons.mp member with rfl | member
        · exact .inr (by decide)
        · exact isNumeric_of_mem_toString member

theorem isNumeric_of_mem_renderFloat {number : Float} {character : Char}
    (member : character ∈ Decimal.renderFloat number) : IsNumeric character := by
  unfold Decimal.renderFloat at member
  simp only at member
  rcases List.mem_append.mp member with member | member
  · split at member
    · rw [List.mem_singleton.mp member]
      exact .inr (by decide)
    · cases member
  · split at member
    · rcases List.mem_cons.mp member with rfl | member
      · exact .inl (by decide)
      · rcases List.mem_cons.mp member with rfl | member
        · exact .inr (by decide)
        · rw [List.mem_singleton.mp member]
          exact .inl (by decide)
    · exact isNumeric_of_mem_render member

theorem digitsRest_suffix {text digits left : List Char}
    (reads : digitsRest text = .ok (digits, left)) : left <:+ text := by
  unfold digitsRest at reads
  simp only at reads
  split at reads
  · cases reads
  · cases reads
    exact List.dropWhile_suffix isDigit

theorem signRest_suffix (text : List Char) : (signRest text).2 <:+ text := by
  unfold signRest
  split
  · exact List.suffix_cons _ _
  · exact List.suffix_cons _ _
  · exact List.suffix_refl _

theorem powerRest_suffix {text left : List Char} {power : Option (Bool × List Char)}
    (reads : powerRest text = .ok (power, left)) : left <:+ text := by
  rcases bind_eq_ok.mp reads with ⟨⟨digits, after⟩, digitsRead, same⟩
  cases same
  exact (digitsRest_suffix digitsRead).trans (signRest_suffix text)

theorem fractionRest_suffix {text left : List Char} {fraction : Option (List Char)}
    (reads : fractionRest text = .ok (fraction, left)) : left <:+ text := by
  unfold fractionRest at reads
  split at reads
  · rcases bind_eq_ok.mp reads with ⟨⟨digits, after⟩, digitsRead, same⟩
    cases same
    exact (digitsRest_suffix digitsRead).trans (List.suffix_cons _ _)
  · cases reads
    exact List.suffix_refl _

theorem exponentRest_suffix {text left : List Char} {exponent : Option (Bool × List Char)}
    (reads : exponentRest text = .ok (exponent, left)) : left <:+ text := by
  unfold exponentRest at reads
  split at reads
  · exact (powerRest_suffix reads).trans (List.suffix_cons _ _)
  · exact (powerRest_suffix reads).trans (List.suffix_cons _ _)
  · cases reads
    exact List.suffix_refl _

theorem numeralRest_suffix {negative : Bool} {text left : List Char} {numeral : Numeral}
    (reads : numeralRest negative text = .ok (numeral, left)) : left <:+ text := by
  rcases bind_eq_ok.mp reads with ⟨⟨whole, afterWhole⟩, wholeRead, reads⟩
  simp only at reads
  split at reads
  · cases reads
  · rcases bind_eq_ok.mp reads with ⟨⟨fraction, afterFraction⟩, fractionRead, reads⟩
    rcases bind_eq_ok.mp reads with ⟨⟨exponent, afterExponent⟩, exponentRead, same⟩
    cases same
    exact (exponentRest_suffix exponentRead).trans
      ((fractionRest_suffix fractionRead).trans (digitsRest_suffix wholeRead))

theorem not_isSpace_of_isNumeric {character : Char} (numeric : IsNumeric character) :
    isSpace character = false := by
  rcases numeric with digit | part
  · exact isSpace_of_isDigit digit
  · simp only [List.mem_cons, List.not_mem_nil, or_false] at part
    rcases part with rfl | rfl | rfl
    all_goals rfl

/-- Numeric text that reads as a value spells it: nothing is left behind the number. -/
theorem spells_of_numberDraft {negative : Bool} {text : List Char} {value : Json} {found : Draft}
    {left : List Char} (numeric : ∀ character ∈ text, IsNumeric character)
    (reads : numberDraft negative text = (found, .ok left))
    (blank : (skipSpaces left).isEmpty = true)
    (means : found.value? = some value) : Spells value (signed negative text) := by
  unfold numberDraft at reads
  split at reads
  · next numeral rest numeralReads =>
      cases reads
      have nothing : left = [] := by
        cases left with
        | nil => rfl
        | cons character left =>
            have member := (numeralRest_suffix numeralReads).subset List.mem_cons_self
            have plain := not_isSpace_of_isNumeric (numeric character member)
            rw [skipSpaces_of_head plain] at blank
            cases blank
      rw [nothing] at numeralReads
      exact Spells.number numeralReads means
  · cases reads

theorem spells_of_numeric {text : List Char} {value : Json}
    (numeric : ∀ character ∈ text, IsNumeric character)
    (reads : read? (String.ofList text) = some value) : Spells value text := by
  unfold read? draft at reads
  rw [String.toList_ofList] at reads
  split at reads
  · next found drafted =>
      split at drafted
      · next found rest valueReads =>
          rcases Prod.mk.inj drafted with ⟨rfl, ended⟩
          have blank : (skipSpaces rest).isEmpty = true := by
            split at ended
            · assumption
            · cases ended
          cases text with
          | nil => cases (Json.value.eq_def _ _).symm.trans valueReads
          | cons character text =>
              have rest := fun other member => numeric other (List.mem_cons_of_mem character member)
              rcases numeric character List.mem_cons_self with digit | part
              · rw [value_digit _ digit] at valueReads
                exact spells_of_numberDraft numeric valueReads blank reads
              · simp only [List.mem_cons, List.not_mem_nil, or_false] at part
                rcases part with rfl | rfl | rfl
                · have drafted : numberDraft true text = _ :=
                    (Json.value.eq_def _ _).symm.trans valueReads
                  exact spells_of_numberDraft rest drafted blank reads
                · cases (Json.value.eq_def _ _).symm.trans valueReads
                · cases (Json.value.eq_def _ _).symm.trans valueReads
      · cases drafted
  · cases reads

theorem spells_decimal {value : Float}
    (survives : read? (decimal value).compact = some (.decimal value)) :
    Spells (.decimal value) (writeDecimal value) := by
  have reads : read? (String.ofList (writeDecimal value)) = some (.decimal value) := survives
  by_cases finite : value.isFinite = true
  · have text : writeDecimal value = Decimal.renderFloat value := if_pos finite
    rw [text] at reads ⊢
    exact spells_of_numeric (fun _ member => isNumeric_of_mem_renderFloat member) reads
  · have text : writeDecimal value = "null".toList := if_neg finite
    rw [text, read?_of_spells Spells.null] at reads
    cases reads

/-! ## Values -/

theorem spells_compactItems {items : List Json}
    (each : ∀ item ∈ items, Spells item (compactText item)) :
    SpellsItems false items (compactItems items) := by
  induction items with
  | nil => exact SpellsItems.close false
  | cons item items induction =>
      have later := induction fun other member => each other (List.mem_cons_of_mem _ member)
      rw [compactItems]
      exact SpellsItems.later (each item List.mem_cons_self) later

theorem spells_compactMembers {members : List (String × Json)}
    (each : ∀ member ∈ members, Spells member.2 (compactText member.2)) :
    SpellsMembers false members (compactMembers members) := by
  induction members with
  | nil => exact SpellsMembers.close false
  | cons member members induction =>
      rcases member with ⟨name, value⟩
      have later := induction fun other member => each other (List.mem_cons_of_mem _ member)
      have spelled := each (name, value) List.mem_cons_self
      have spaces : ∀ character ∈ ([] : List Char), isSpace character = true := nofun
      rw [compactMembers]
      exact SpellsMembers.later name spaces spelled later

theorem spells_compactText {value : Json} (lossless : IsLossless value) :
    Spells value (compactText value) := by
  induction lossless with
  | null => exact Spells.null
  | bool value =>
      cases value with
      | true => exact Spells.yes
      | false => exact Spells.no
  | integer low high => exact spells_integer low high
  | decimal survives => exact spells_decimal survives
  | string text => exact Spells.string text
  | @array items _ each =>
      cases items with
      | nil => exact Spells.array (SpellsItems.close true)
      | cons item items =>
          have later := spells_compactItems fun other member =>
            each other (List.mem_cons_of_mem _ member)
          rw [compactText]
          exact Spells.array (SpellsItems.first (each item List.mem_cons_self) later)
  | @object members _ each =>
      cases members with
      | nil => exact Spells.object (SpellsMembers.close true)
      | cons member members =>
          rcases member with ⟨name, value⟩
          have later := spells_compactMembers fun other member =>
            each other (List.mem_cons_of_mem _ member)
          rw [compactText]
          have spelled := each (name, value) List.mem_cons_self
          exact Spells.object (SpellsMembers.first name spelled later)

/-- What has been written on one line is read back, unless a number is lost. -/
theorem read?_compact {value : Json} (lossless : IsLossless value) :
    read? value.compact = some value :=
  read?_of_spells (spells_compactText lossless)

/-! ## Values over several lines -/

theorem Spells.blanks {blanks text : List Char} {value : Json} (spelled : Spells value text)
    (spaces : ∀ character ∈ blanks, isSpace character = true) : Spells value (blanks ++ text) := by
  induction blanks with
  | nil => exact spelled
  | cons character blanks induction =>
      rw [List.forall_mem_cons] at spaces
      exact .blank spaces.1 (induction spaces.2)

theorem SpellsItems.blanks {blanks text : List Char} {first : Bool} {items : List Json}
    (spelled : SpellsItems first items text)
    (spaces : ∀ character ∈ blanks, isSpace character = true) :
    SpellsItems first items (blanks ++ text) := by
  induction blanks with
  | nil => exact spelled
  | cons character blanks induction =>
      rw [List.forall_mem_cons] at spaces
      exact .blank spaces.1 (induction spaces.2)

theorem SpellsMembers.blanks {blanks text : List Char} {first : Bool}
    {members : List (String × Json)} (spelled : SpellsMembers first members text)
    (spaces : ∀ character ∈ blanks, isSpace character = true) :
    SpellsMembers first members (blanks ++ text) := by
  induction blanks with
  | nil => exact spelled
  | cons character blanks induction =>
      rw [List.forall_mem_cons] at spaces
      exact .blank spaces.1 (induction spaces.2)

theorem isSpace_of_mem_newLine (depth : Nat) :
    ∀ character ∈ newLine depth, isSpace character = true := by
  intro character member
  rcases List.mem_cons.mp member with rfl | member
  · rfl
  · rw [List.eq_of_mem_replicate member]
    rfl

theorem spells_prettyItems {depth : Nat} {items : List Json}
    (each : ∀ item ∈ items, Spells item (prettyText (depth + 1) item)) :
    SpellsItems false items (prettyItems depth items) := by
  induction items with
  | nil => exact (SpellsItems.close false).blanks (isSpace_of_mem_newLine depth)
  | cons item items induction =>
      rw [List.forall_mem_cons] at each
      rw [prettyItems]
      exact .later (each.1.blanks (isSpace_of_mem_newLine _)) (induction each.2)

theorem spells_prettyMembers {depth : Nat} {members : List (String × Json)}
    (each : ∀ member ∈ members, Spells member.2 (prettyText (depth + 1) member.2)) :
    SpellsMembers false members (prettyMembers depth members) := by
  induction members with
  | nil => exact (SpellsMembers.close false).blanks (isSpace_of_mem_newLine depth)
  | cons member members induction =>
      rcases member with ⟨name, value⟩
      rw [List.forall_mem_cons] at each
      rw [prettyMembers, List.append_assoc]
      exact .later name (isSpace_of_mem_newLine _) (.blank rfl each.1) (induction each.2)

theorem spells_prettyText {value : Json} (lossless : IsLossless value) (depth : Nat) :
    Spells value (prettyText depth value) := by
  induction lossless generalizing depth with
  | null => exact spells_compactText .null
  | bool value => exact spells_compactText (.bool value)
  | integer low high => exact spells_compactText (.integer low high)
  | decimal survives => exact spells_compactText (.decimal survives)
  | string text => exact spells_compactText (.string text)
  | @array items _ each =>
      cases items with
      | nil => exact .array (.close true)
      | cons item items =>
          rw [List.forall_mem_cons] at each
          rw [prettyText]
          exact .array (.first ((each.1 _).blanks (isSpace_of_mem_newLine _))
            (spells_prettyItems fun other member => each.2 other member _))
  | @object members _ each =>
      cases members with
      | nil => exact .object (.close true)
      | cons member members =>
          rcases member with ⟨name, value⟩
          rw [List.forall_mem_cons] at each
          have blank : isSpace ' ' = true := rfl
          have spelled := SpellsMembers.first name (.blank blank (each.1 (depth + 1)))
            (spells_prettyMembers fun other member => each.2 other member (depth + 1))
          rw [prettyText, List.append_assoc]
          exact .object (spelled.blanks (isSpace_of_mem_newLine _))

end SourceIndex.Json
