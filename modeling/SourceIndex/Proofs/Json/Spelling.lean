import SourceIndex.Proofs.Json.Numerals

/-! Reading values that have been written. A value may be spelled with blanks between its parts;
whatever its spelling, reading gives the value back. -/

namespace SourceIndex.Json

/-! ## Strings -/

theorem stringRest_escape (known : List Char) (character : Char) (rest : List Char) :
    stringRest ⟨none, some known⟩ (escape character ++ rest) =
      stringRest ⟨none, some (character :: known)⟩ rest := by
  unfold escape
  split
  · rfl
  · rfl
  · rfl
  · rfl
  · rfl
  · next noQuote noSlash _ _ _ =>
      simp only
      split
      · next code => rw [← Char.ofNat_toNat character, code]; rfl
      · split
        · next code => rw [← Char.ofNat_toNat character, code]; rfl
        · split
          · next control =>
              have unit : ∀ code < 0x20, hexUnit? '0' '0' (hexDigit (code / 16))
                (hexDigit (code % 16)) =
                  some code := by decide
              have noPair : ∀ code < 0x20, isLeading code = false ∧ isTrailing code = false := by
                decide
              have plain := noPair _ control
              simp only [List.cons_append, List.nil_append, stringRest, unit _ control]
              unfold Characters.pushUnit
              simp [plain.1, plain.2]
          · next printable =>
              rw [List.singleton_append, stringRest]
              · rw [if_neg printable]
                rfl
              · exact noQuote
              · exact fun _ _ _ _ _ slash _ => noSlash slash
              · exact fun _ slash _ => noSlash slash
              · exact fun _ _ slash _ => noSlash slash
              · exact fun slash _ => noSlash slash

theorem stringRest_escaped (characters known rest : List Char) :
    stringRest ⟨none, some known⟩ (characters.flatMap escape ++ '"' :: rest) =
      (⟨none, some (characters.reverse ++ known)⟩, .ok rest) := by
  induction characters generalizing known with
  | nil => rfl
  | cons character characters induction =>
      rw [List.flatMap_cons, List.append_assoc, stringRest_escape, induction, List.reverse_cons,
        List.append_assoc, List.singleton_append]

theorem quote_append (text : String) (rest : List Char) :
    quote text ++ rest = '"' :: (text.toList.flatMap escape ++ '"' :: rest) := by
  simp [quote]

/-- A string is read back as it has been quoted. -/
theorem stringRest_quoted (text : String) (rest : List Char) :
    ∃ read, stringRest .start (text.toList.flatMap escape ++ '"' :: rest) = (read, .ok rest) ∧
      read.text? = some text := by
  refine ⟨⟨none, some (text.toList.reverse ++ [])⟩, ?_, ?_⟩
  · exact stringRest_escaped text.toList [] rest
  · simp [Characters.text?]

/-! ## Spellings -/

/-- The characters of a numeral with its sign. -/
def signed (negative : Bool) (text : List Char) : List Char :=
  if negative then '-' :: text else text

mutual

/-- Which texts spell a value. -/
inductive Spells : Json → List Char → Prop
  | null : Spells .null "null".toList
  | yes : Spells (.bool true) "true".toList
  | no : Spells (.bool false) "false".toList
  | number {negative : Bool} {text : List Char} {numeral : Numeral} {value : Json}
      (reads : numeralRest negative text = .ok (numeral, []))
      (means : (Draft.number numeral).value? = some value) : Spells value (signed negative text)
  | string (text : String) : Spells (.string text) (quote text)
  | array {items : List Json} {text : List Char} (spelled : SpellsItems true items text) :
      Spells (.array items) ('[' :: text)
  | object {members : List (String × Json)} {text : List Char}
      (spelled : SpellsMembers true members text) : Spells (.object members) ('\x7b' :: text)
  | blank {character : Char} {value : Json} {text : List Char} (space : isSpace character = true)
      (spelled : Spells value text) : Spells value (character :: text)

/-- Which texts spell the items of an array up to its closing bracket, a comma before every item
but the first. -/
inductive SpellsItems : (first : Bool) → List Json → List Char → Prop
  | close (first : Bool) : SpellsItems first [] [']']
  | first {item : Json} {items : List Json} {text more : List Char} (spelled : Spells item text)
      (rest : SpellsItems false items more) : SpellsItems true (item :: items) (text ++ more)
  | later {item : Json} {items : List Json} {text more : List Char} (spelled : Spells item text)
      (rest : SpellsItems false items more) :
      SpellsItems false (item :: items) (',' :: (text ++ more))
  | blank {character : Char} {first : Bool} {items : List Json} {text : List Char}
      (space : isSpace character = true) (spelled : SpellsItems first items text) :
      SpellsItems first items (character :: text)

/-- Which texts spell the members of an object up to its closing brace. -/
inductive SpellsMembers : (first : Bool) → List (String × Json) → List Char → Prop
  | close (first : Bool) : SpellsMembers first [] ['\x7d']
  | first (name : String) {member : Json} {members : List (String × Json)}
      {text more : List Char} (spelled : Spells member text)
      (rest : SpellsMembers false members more) :
      SpellsMembers true ((name, member) :: members) (quote name ++ ':' :: (text ++ more))
  | later {blanks : List Char} (name : String) {member : Json} {members : List (String × Json)}
      {text more : List Char} (spaces : ∀ character ∈ blanks, isSpace character = true)
      (spelled : Spells member text) (rest : SpellsMembers false members more) :
      SpellsMembers false ((name, member) :: members)
        (',' :: (blanks ++ (quote name ++ ':' :: (text ++ more))))
  | blank {character : Char} {first : Bool} {members : List (String × Json)} {text : List Char}
      (space : isSpace character = true) (spelled : SpellsMembers first members text) :
      SpellsMembers first members (character :: text)

end

/-! ## Steps of reading -/

theorem skipSpaces_cons {character : Char} (space : isSpace character = true) (text : List Char) :
    skipSpaces (character :: text) = skipSpaces text := by
  simp [skipSpaces, space]

theorem skipSpaces_of_head {character : Char} (plain : isSpace character = false)
    (text : List Char) : skipSpaces (character :: text) = character :: text := by
  simp [skipSpaces, plain]

theorem skipSpaces_append {blanks : List Char}
    (spaces : ∀ character ∈ blanks, isSpace character = true) (text : List Char) :
    skipSpaces (blanks ++ text) = skipSpaces text :=
  List.dropWhile_append_of_pos spaces

theorem value_blank (limit : Nat) {character : Char} (space : isSpace character = true)
    (text : List Char) : value limit (character :: text) = value limit text := by
  unfold value
  rw [skipSpaces_cons space]

theorem items_blank (limit : Nat) (first : Bool) {character : Char}
    (space : isSpace character = true) (text : List Char) :
    items limit first (character :: text) = items limit first text := by
  unfold items
  rw [skipSpaces_cons space]

theorem members_blank (limit : Nat) (first : Bool) {character : Char}
    (space : isSpace character = true) (text : List Char) :
    members limit first (character :: text) = members limit first text := by
  unfold members
  rw [skipSpaces_cons space]

theorem isSpace_of_isDigit {character : Char} (digit : isDigit character = true) :
    isSpace character = false := by
  simp only [isDigit, Bool.and_eq_true, decide_eq_true_eq] at digit
  simp only [isSpace, Bool.or_eq_false_iff, beq_eq_false_iff_ne]
  refine ⟨⟨⟨?_, ?_⟩, ?_⟩, ?_⟩
  all_goals
    intro same
    rw [same] at digit
    exact absurd digit (by decide)

theorem value_digit (limit : Nat) {character : Char} (digit : isDigit character = true)
    (text : List Char) :
    value (limit + 1) (character :: text) = numberDraft false (character :: text) := by
  rw [value, skipSpaces_of_head (isSpace_of_isDigit digit)]
  split
  case h_1 same => cases same
  case h_9 same =>
    cases same
    exact if_pos digit
  -- Every other character that a value may start with is no digit.
  all_goals
    next same =>
      cases same
      exact absurd digit (by decide)

theorem isDigit_of_numeralRest {negative : Bool} {character : Char} {text left : List Char}
    {numeral : Numeral} (reads : numeralRest negative (character :: text) = .ok (numeral, left)) :
    isDigit character = true := by
  rcases bind_eq_ok.mp reads with ⟨⟨whole, _⟩, wholeRead, -⟩
  cases plain : isDigit character with
  | true => rfl
  | false => simp [digitsRest, plain] at wholeRead

theorem value_number (limit : Nat) {negative : Bool} {text rest : List Char} {numeral : Numeral}
    (ends : EndsNumber rest) (reads : numeralRest negative text = .ok (numeral, [])) :
    value (limit + 1) (signed negative text ++ rest) = (.number numeral, .ok rest) := by
  have draft : numberDraft negative (text ++ rest) = (.number numeral, .ok rest) := by
    rw [numberDraft, numeralRest_append ends reads]
    rfl
  cases negative with
  | true =>
      rw [← draft]
      exact value.eq_def (limit + 1) ('-' :: (text ++ rest))
  | false =>
      cases text with
      | nil => cases reads
      | cons character text =>
          have digit := isDigit_of_numeralRest reads
          exact (value_digit limit digit (text ++ rest)).trans draft

theorem value_string (limit : Nat) (text : String) (rest : List Char) :
    value (limit + 1) (quote text ++ rest) = (.string (some text), .ok rest) := by
  rcases stringRest_quoted text rest with ⟨read, reads, known⟩
  have draft : value (limit + 1) (quote text ++ rest) =
      stringDraft (text.toList.flatMap escape ++ '"' :: rest) := by
    rw [quote_append]
    exact value.eq_def (limit + 1) _
  rw [draft, stringDraft, reads]
  simp only [known]

theorem value_skipSpaces (limit : Nat) (text : List Char) :
    value limit (skipSpaces text) = value limit text := by
  induction text with
  | nil => rfl
  | cons character text induction =>
      cases space : isSpace character with
      | true => rw [skipSpaces_cons space, induction, value_blank limit space]
      | false => rw [skipSpaces_of_head space]

theorem length_pos_of_spells {value : Json} {text : List Char} (spelled : Spells value text) :
    0 < text.length := by
  cases spelled with
  | @number negative text _ _ reads =>
      cases text with
      | nil => cases reads
      | cons character text => cases negative <;> exact Nat.succ_pos _
  | _ => exact Nat.succ_pos _

theorem length_pos_of_spellsItems {first : Bool} {items : List Json} {text : List Char}
    (spelled : SpellsItems first items text) : 0 < text.length := by
  cases spelled with
  | first spelled rest =>
      rw [List.length_append]
      exact Nat.add_pos_left (length_pos_of_spells spelled) _
  | _ => exact Nat.succ_pos _

theorem length_pos_of_spellsMembers {first : Bool} {members : List (String × Json)}
    {text : List Char} (spelled : SpellsMembers first members text) : 0 < text.length := by
  cases spelled with
  | first name spelled rest => exact Nat.succ_pos _
  | _ => exact Nat.succ_pos _

theorem endsNumber_of_isSpace {character : Char} (space : isSpace character = true)
    (rest : List Char) : EndsNumber (character :: rest) := by
  simp only [isSpace, Bool.or_eq_true, beq_iff_eq] at space
  rcases space with ((rfl | rfl) | rfl) | rfl
  all_goals exact endsNumber_cons rest (by decide) (by decide)

theorem endsNumber_of_spellsItems {items : List Json} {text : List Char}
    (spelled : SpellsItems false items text) (rest : List Char) : EndsNumber (text ++ rest) := by
  cases spelled with
  | close => exact endsNumber_cons _ (by decide) (by decide)
  | later => exact endsNumber_cons _ (by decide) (by decide)
  | blank space => exact endsNumber_of_isSpace space _

theorem endsNumber_of_spellsMembers {members : List (String × Json)} {text : List Char}
    (spelled : SpellsMembers false members text) (rest : List Char) :
    EndsNumber (text ++ rest) := by
  cases spelled with
  | close => exact endsNumber_cons _ (by decide) (by decide)
  | later => exact endsNumber_cons _ (by decide) (by decide)
  | blank space => exact endsNumber_of_isSpace space _

/-- No value starts with a bracket that closes. -/
theorem head_of_spells {value : Json} {text : List Char} (spelled : Spells value text)
    (rest : List Char) : ∃ character more, skipSpaces (text ++ rest) = character :: more ∧
      character ≠ ']' := by
  induction size : text.length using Nat.strongRecOn generalizing text with
  | ind _ induction =>
      cases spelled with
      | null => exact ⟨_, _, rfl, by decide⟩
      | yes => exact ⟨_, _, rfl, by decide⟩
      | no => exact ⟨_, _, rfl, by decide⟩
      | string text => exact ⟨_, _, by rw [quote_append]; rfl, by decide⟩
      | array => exact ⟨_, _, rfl, by decide⟩
      | object => exact ⟨_, _, rfl, by decide⟩
      | blank space spelled =>
          rw [List.cons_append, skipSpaces_cons space]
          rw [List.length_cons] at size
          exact induction _ (by omega) spelled rfl
      | @number negative text _ _ reads =>
          cases negative with
          | true => exact ⟨_, _, rfl, by decide⟩
          | false =>
              cases text with
              | nil => cases reads
              | cons character text =>
                  have digit := isDigit_of_numeralRest reads
                  refine ⟨character, text ++ rest, ?_, ?_⟩
                  · exact skipSpaces_of_head (isSpace_of_isDigit digit) _
                  · intro same
                    rw [same] at digit
                    exact absurd digit (by decide)

/-! ## Reading what is spelled -/

theorem items_first (limit : Nat) {character : Char} {text more : List Char}
    (skipped : skipSpaces text = character :: more) (noEnd : character ≠ ']') :
    items (limit + 1) true text = itemsFrom limit (skipSpaces text) := by
  unfold items
  simp only [skipped]
  split
  · next same => exact absurd (List.cons.inj same).1 noEnd
  all_goals first
    | rfl
    | next same => cases same

theorem items_comma (limit : Nat) (text : List Char) :
    items (limit + 1) false (',' :: text) = itemsFrom limit text := by
  have comma : isSpace ',' = false := rfl
  unfold items
  simp only [skipSpaces_of_head comma]

theorem members_name (limit : Nat) (name : String) (rest : List Char) :
    members (limit + 1) true (quote name ++ rest) = membersFrom limit (quote name ++ rest) := by
  have mark : isSpace '"' = false := rfl
  unfold members
  rw [quote_append]
  simp only [skipSpaces_of_head mark]
  rfl

theorem members_comma (limit : Nat) {blanks : List Char}
    (spaces : ∀ character ∈ blanks, isSpace character = true) (name : String) (rest : List Char) :
    members (limit + 1) false (',' :: (blanks ++ (quote name ++ rest))) =
      membersFrom limit (quote name ++ rest) := by
  have comma : isSpace ',' = false := rfl
  have mark : isSpace '"' = false := rfl
  unfold members
  simp only [skipSpaces_of_head comma, skipSpaces_append spaces]
  rw [quote_append, skipSpaces_of_head mark]

theorem itemsFrom_eq (limit : Nat) {text rest : List Char} {item : Draft}
    (reads : value limit text = (item, .ok rest)) :
    itemsFrom (limit + 1) text =
      (item :: (items limit false rest).1, (items limit false rest).2) := by
  unfold itemsFrom
  rw [reads]

theorem itemsFrom_skipSpaces (limit : Nat) (text : List Char) :
    itemsFrom (limit + 1) (skipSpaces text) = itemsFrom (limit + 1) text := by
  unfold itemsFrom
  rw [value_skipSpaces]

theorem membersFrom_eq (limit : Nat) (name : String) {text rest : List Char} {member : Draft}
    (reads : value limit text = (member, .ok rest)) :
    membersFrom (limit + 1) (quote name ++ ':' :: text) =
      ((some name, member) :: (members limit false rest).1, (members limit false rest).2) := by
  rcases stringRest_quoted name (':' :: text) with ⟨read, nameRead, known⟩
  have colon : isSpace ':' = false := rfl
  unfold membersFrom
  rw [quote_append]
  simp only [nameRead, skipSpaces_of_head colon, reads, known]

/-- Whether everything that is spelled in fewer characters is read, whatever follows it. -/
structure ReadsBelow (size : Nat) : Prop where
  value : ∀ {value : Json} {text : List Char}, Spells value text → text.length < size →
    ∀ {limit : Nat}, 2 * text.length ≤ limit → ∀ {rest : List Char}, EndsNumber rest →
    ∃ found, Json.value limit (text ++ rest) = (found, .ok rest) ∧ found.value? = some value
  items : ∀ {first : Bool} {items : List Json} {text : List Char}, SpellsItems first items text →
    text.length < size → ∀ {limit : Nat}, 2 * text.length ≤ limit → ∀ rest : List Char,
    ∃ found, Json.items limit first (text ++ rest) = (found, .ok rest) ∧
      Draft.values? found = some items
  members : ∀ {first : Bool} {members : List (String × Json)} {text : List Char},
    SpellsMembers first members text → text.length < size →
    ∀ {limit : Nat}, 2 * text.length ≤ limit → ∀ rest : List Char,
    ∃ found, Json.members limit first (text ++ rest) = (found, .ok rest) ∧
      Draft.memberValues? found = some members

theorem value_of_spells {value : Json} {text : List Char} (below : ReadsBelow text.length)
    (spelled : Spells value text) {limit : Nat} (enough : 2 * text.length ≤ limit)
    {rest : List Char} (ends : EndsNumber rest) :
    ∃ found, Json.value limit (text ++ rest) = (found, .ok rest) ∧ found.value? = some value := by
  have positive := length_pos_of_spells spelled
  cases limit with
  | zero => omega
  | succ limit =>
      cases spelled with
      | null => exact ⟨.null, Json.value.eq_def _ _, rfl⟩
      | yes => exact ⟨.bool true, Json.value.eq_def _ _, rfl⟩
      | no => exact ⟨.bool false, Json.value.eq_def _ _, rfl⟩
      | number reads means => exact ⟨_, value_number limit ends reads, means⟩
      | string text => exact ⟨_, value_string limit text rest, rfl⟩
      | @array items text spelled =>
          rw [List.length_cons] at enough
          have inside : 2 * text.length ≤ limit := by omega
          rcases below.items spelled (Nat.lt_succ_self _) inside rest with ⟨found, reads, means⟩
          refine ⟨.array found, ?_, ?_⟩
          · have bracket : isSpace '[' = false := rfl
            rw [List.cons_append, Json.value.eq_def]
            simp only [skipSpaces_of_head bracket, reads]
          · rw [Draft.value?, means]
            rfl
      | @object members text spelled =>
          rw [List.length_cons] at enough
          have inside : 2 * text.length ≤ limit := by omega
          rcases below.members spelled (Nat.lt_succ_self _) inside rest with ⟨found, reads, means⟩
          refine ⟨.object found, ?_, ?_⟩
          · have brace : isSpace '\x7b' = false := rfl
            rw [List.cons_append, Json.value.eq_def]
            simp only [skipSpaces_of_head brace, reads]
          · rw [Draft.value?, means]
            rfl
      | blank space spelled =>
          rw [List.length_cons] at enough
          rw [List.cons_append, value_blank _ space]
          exact below.value spelled (Nat.lt_succ_self _) (by omega) ends

theorem itemsFrom_of_spells {size limit : Nat} (below : ReadsBelow size)
    {item : Json} {items : List Json} {text more : List Char}
    (spelled : Spells item text) (spelledRest : SpellsItems false items more)
    (within : text.length + more.length ≤ size)
    (enough : 2 * (text.length + more.length) ≤ limit + 2) (rest : List Char) :
    ∃ found, itemsFrom (limit + 1) (text ++ (more ++ rest)) = (found, .ok rest) ∧
      Draft.values? found = some (item :: items) := by
  have positive := length_pos_of_spells spelled
  have positiveRest := length_pos_of_spellsItems spelledRest
  have short : text.length < size := by omega
  have inside : 2 * text.length ≤ limit := by omega
  rcases below.value spelled short inside (endsNumber_of_spellsItems spelledRest rest) with
    ⟨found, reads, means⟩
  have shortRest : more.length < size := by omega
  have insideRest : 2 * more.length ≤ limit := by omega
  rcases below.items spelledRest shortRest insideRest rest with ⟨later, laterReads, laterMeans⟩
  refine ⟨found :: later, ?_, ?_⟩
  · rw [itemsFrom_eq limit reads, laterReads]
  · rw [Draft.values?, means, laterMeans]
    rfl

theorem items_of_spells {first : Bool} {items : List Json} {text : List Char}
    (below : ReadsBelow text.length) (spelled : SpellsItems first items text) {limit : Nat}
    (enough : 2 * text.length ≤ limit) (rest : List Char) :
    ∃ found, Json.items limit first (text ++ rest) = (found, .ok rest) ∧
      Draft.values? found = some items := by
  have positive := length_pos_of_spellsItems spelled
  rcases Nat.exists_eq_add_of_le' (Nat.le_trans (Nat.mul_le_mul_left 2 positive) enough) with
    ⟨limit, rfl⟩
  cases spelled with
  | close => exact ⟨[], Json.items.eq_def _ _ _, rfl⟩
  | @first item items text more spelled spelledRest =>
      rw [List.length_append] at below enough
      rcases head_of_spells spelled (more ++ rest) with ⟨character, after, skipped, noEnd⟩
      rw [List.append_assoc, items_first _ skipped noEnd, itemsFrom_skipSpaces]
      exact itemsFrom_of_spells below spelled spelledRest (Nat.le_refl _) enough rest
  | @later item items text more spelled spelledRest =>
      rw [List.length_cons, List.length_append] at below enough
      rw [List.cons_append, List.append_assoc, items_comma]
      exact itemsFrom_of_spells below spelled spelledRest (Nat.le_succ _) (by omega) rest
  | blank space spelled =>
      rw [List.length_cons] at enough
      rw [List.cons_append, items_blank _ _ space]
      exact below.items spelled (Nat.lt_succ_self _) (by omega) rest

theorem membersFrom_of_spells {size limit : Nat} (below : ReadsBelow size) (name : String)
    {member : Json} {members : List (String × Json)} {text more : List Char}
    (spelled : Spells member text) (spelledRest : SpellsMembers false members more)
    (within : text.length + more.length < size)
    (enough : 2 * (text.length + more.length) ≤ limit + 2) (rest : List Char) :
    ∃ found, membersFrom (limit + 1) (quote name ++ ':' :: (text ++ (more ++ rest))) =
        (found, .ok rest) ∧
      Draft.memberValues? found = some ((name, member) :: members) := by
  have positive := length_pos_of_spells spelled
  have positiveRest := length_pos_of_spellsMembers spelledRest
  have short : text.length < size := by omega
  have inside : 2 * text.length ≤ limit := by omega
  rcases below.value spelled short inside (endsNumber_of_spellsMembers spelledRest rest) with
    ⟨found, reads, means⟩
  have shortRest : more.length < size := by omega
  have insideRest : 2 * more.length ≤ limit := by omega
  rcases below.members spelledRest shortRest insideRest rest with ⟨later, laterReads, laterMeans⟩
  refine ⟨(some name, found) :: later, ?_, ?_⟩
  · rw [membersFrom_eq limit name reads, laterReads]
  · rw [Draft.memberValues?, means, laterMeans]
    rfl

theorem members_of_spells {first : Bool} {members : List (String × Json)} {text : List Char}
    (below : ReadsBelow text.length) (spelled : SpellsMembers first members text) {limit : Nat}
    (enough : 2 * text.length ≤ limit) (rest : List Char) :
    ∃ found, Json.members limit first (text ++ rest) = (found, .ok rest) ∧
      Draft.memberValues? found = some members := by
  have positive := length_pos_of_spellsMembers spelled
  rcases Nat.exists_eq_add_of_le' (Nat.le_trans (Nat.mul_le_mul_left 2 positive) enough) with
    ⟨limit, rfl⟩
  cases spelled with
  | close => exact ⟨[], Json.members.eq_def _ _ _, rfl⟩
  | @first name member members text more spelled spelledRest =>
      rw [List.length_append, List.length_cons, List.length_append] at below enough
      rw [List.append_assoc, List.cons_append, List.append_assoc, members_name]
      exact membersFrom_of_spells below name spelled spelledRest (by omega) (by omega) rest
  | @later blanks name member members text more spaces spelled spelledRest =>
      rw [List.length_cons, List.length_append, List.length_append, List.length_cons,
        List.length_append] at below enough
      rw [List.cons_append, List.append_assoc, List.append_assoc, List.cons_append,
        List.append_assoc, members_comma _ spaces]
      exact membersFrom_of_spells below name spelled spelledRest (by omega) (by omega) rest
  | blank space spelled =>
      rw [List.length_cons] at enough
      rw [List.cons_append, members_blank _ _ space]
      exact below.members spelled (Nat.lt_succ_self _) (by omega) rest

theorem readsBelow (size : Nat) : ReadsBelow size := by
  induction size with
  | zero =>
      exact ⟨fun _ short => absurd short (Nat.not_lt_zero _),
        fun _ short => absurd short (Nat.not_lt_zero _),
        fun _ short => absurd short (Nat.not_lt_zero _)⟩
  | succ size induction =>
      have below : ∀ {text : List Char}, text.length < size + 1 → ReadsBelow text.length := by
        intro text short
        have within := Nat.le_of_lt_succ short
        exact ⟨fun spelled shorter => induction.value spelled (Nat.lt_of_lt_of_le shorter within),
          fun spelled shorter => induction.items spelled (Nat.lt_of_lt_of_le shorter within),
          fun spelled shorter => induction.members spelled (Nat.lt_of_lt_of_le shorter within)⟩
      exact ⟨fun spelled short => value_of_spells (below short) spelled,
        fun spelled short => items_of_spells (below short) spelled,
        fun spelled short => members_of_spells (below short) spelled⟩

/-- The draft of whatever spells a value has no fault and means that value. -/
theorem draft_of_spells {value : Json} {text : List Char} (spelled : Spells value text) :
    ∃ found, draft text = (found, none) ∧ found.value? = some value := by
  have enough : 2 * text.length ≤ 2 * text.length + 2 := Nat.le_add_right _ 2
  rcases value_of_spells (readsBelow _) spelled enough endsNumber_nil with ⟨found, reads, means⟩
  rw [List.append_nil] at reads
  refine ⟨found, ?_, means⟩
  unfold draft
  rw [reads]
  rfl

/-- Whatever spells a value is read as that value. -/
theorem read?_of_spells {value : Json} {text : List Char} (spelled : Spells value text) :
    read? (String.ofList text) = some value := by
  rcases draft_of_spells spelled with ⟨found, drafted, means⟩
  unfold read?
  rw [String.toList_ofList, drafted]
  exact means

end SourceIndex.Json
