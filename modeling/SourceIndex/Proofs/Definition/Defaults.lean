import SourceIndex.Definition.Parameters
import SourceIndex.Proofs.Code.Entries
import SourceIndex.Proofs.Text.Words

/-! Defaults of parameters. A declaration and its default are told apart by the equals sign between
them, with blanks around it or without. Blanks make no difference, but for two cases. Without them,
the sign is taken for the end of a comparison where the declaration ends in an angle bracket or an
exclamation mark. And since annotations are left out word by word before the sign is looked for, a
default that begins like an annotation loses its first word if blanks stand around the sign, and a
declaration whose last word begins so takes the sign and the default along if none do. -/

namespace SourceIndex.Parameter

/-! ## The sign -/

/-- Whether an equals sign between two characters belongs to a comparison or an arrow. -/
def belongsToOperator (before after : Option Char) : Bool :=
  before.any (· ∈ ['=', '<', '>', '!']) || after.any (· ∈ ['=', '>'])

theorem splitDefaultFrom?_of_no_sign {text : List Char} (noSign : '=' ∉ text)
    (before : Option Char) : splitDefaultFrom? before text = none := by
  induction text generalizing before with
  | nil => rfl
  | cons character text induction =>
      rw [List.mem_cons, not_or] at noSign
      simp [splitDefaultFrom?, Ne.symm noSign.1, induction noSign.2]

theorem splitDefaultFrom?_sign {front back : List Char} (noSign : '=' ∉ front)
    (noOther : '=' ∉ back) (before : Option Char) :
    splitDefaultFrom? before (front ++ '=' :: back) =
      if belongsToOperator (front.getLast?.or before) back.head? then none
      else some (front, back) := by
  induction front generalizing before with
  | nil =>
      have behind := splitDefaultFrom?_of_no_sign noOther (some '=')
      rw [List.nil_append, splitDefaultFrom?, behind, Option.map_none, List.getLast?_nil,
        Option.none_or]
      change (if true && !belongsToOperator before back.head? then some ([], back) else none) = _
      cases belongsToOperator before back.head? <;> rfl
  | cons character front induction =>
      rw [List.mem_cons, not_or] at noSign
      have last : (character :: front).getLast?.or before =
          front.getLast?.or (some character) := by
        cases front <;> simp [List.getLast?_cons]
      rw [last, List.cons_append, splitDefaultFrom?, induction noSign.2]
      simp only [Ne.symm noSign.1, decide_false, Bool.false_and, Bool.false_eq_true, if_false]
      split <;> rfl

/-- The only equals sign of a text tells a declaration and a default apart, but not as a part of an
operator. -/
theorem splitDefault?_sign {front back : List Char} (noSign : '=' ∉ front)
    (noOther : '=' ∉ back) :
    splitDefault? (front ++ '=' :: back) =
      if belongsToOperator front.getLast? back.head? then none else some (front, back) := by
  rw [splitDefault?, splitDefaultFrom?_sign noSign noOther, Option.or_none]

/-! ## Entries of a parameter list -/

/-- Words without those that begin like annotations. -/
def withoutAnnotations (words : List (List Char)) : List (List Char) :=
  words.filter (·.head? ≠ some '@')

theorem withoutAnnotations_append (earlier later : List (List Char)) :
    withoutAnnotations (earlier ++ later) =
      withoutAnnotations earlier ++ withoutAnnotations later := List.filter_append _ _

theorem withoutAnnotations_cons {word : List Char} (plain : word.head? ≠ some '@')
    (later : List (List Char)) :
    withoutAnnotations (word :: later) = word :: withoutAnnotations later :=
  List.filter_cons_of_pos (by simpa using plain)

theorem withoutAnnotations_cons_annotated {word : List Char}
    (annotated : word.head? = some '@') (later : List (List Char)) :
    withoutAnnotations (word :: later) = withoutAnnotations later :=
  List.filter_cons_of_neg (by simp [annotated])

/-- The words of an entry that are read. -/
def keptWords (text : List Char) : List (List Char) := withoutAnnotations (Text.words text)

theorem mem_words_of_mem_keptWords {text word : List Char} (member : word ∈ keptWords text) :
    word ∈ Text.words text := List.mem_of_mem_filter member

theorem isTrimmed_of_mem_keptWords {text word : List Char} (member : word ∈ keptWords text) :
    Text.IsTrimmed word := Text.isTrimmed_of_mem_words (mem_words_of_mem_keptWords member)

theorem sign_not_mem_keptWords {text : List Char} (noSign : '=' ∉ text) :
    '=' ∉ Text.joinWords (keptWords text) :=
  Text.not_mem_joinWords (by decide) fun _ member within =>
    noSign (Text.mem_of_mem_words (mem_words_of_mem_keptWords member) _ within)

/-- What a declaration is read as, with a default or without one. -/
def declared? (style : ParameterStyle) (declaration : List Char) (default : Option (List Char)) :
    Option Parameter :=
  let (written, annotation) := nameAndType style declaration
  let known := String.ofList written
  if receiverNames.contains known || written.isEmpty || known == "void" then none
  else
    let (name, isMarked) := dropQuestionMark written
    some {
      name := String.ofList name
      typeAnnotation := annotation.map String.ofList
      defaultValue := default.map String.ofList
      isOptional := default.isSome || isMarked }

theorem read?_eq (style : ParameterStyle) (entry : List Char) :
    read? style entry =
      let part := Text.joinWords (keptWords entry)
      if part.isEmpty || receiverNames.contains (String.ofList part) then none
      else match splitDefault? part with
        | some (declaration, default) =>
          declared? style (Text.trim declaration) (some (Text.trim default))
        | none => declared? style part none := by
  unfold read? keptWords withoutAnnotations
  dsimp only
  generalize Text.joinWords _ = part
  cases splitDefault? part with
  | none => rfl
  | some parts => rfl

theorem defaultValue_declared? {style : ParameterStyle} {declaration : List Char}
    {default : Option (List Char)} {parameter : Parameter}
    (isRead : declared? style declaration default = some parameter) :
    parameter.defaultValue = default.map String.ofList := by
  simp only [declared?] at isRead
  split at isRead
  · cases isRead
  · rw [← Option.some.inj isRead]

/-- No name of a receiver holds an equals sign. -/
theorem not_isReceiver_of_sign {part : List Char} (sign : '=' ∈ part) :
    receiverNames.contains (String.ofList part) = false := by
  have noSigns : ∀ name ∈ receiverNames, '=' ∉ name.toList := by decide
  rw [Bool.eq_false_iff]
  intro isReceiver
  have noSign := noSigns _ (List.contains_iff_mem.mp isReceiver)
  rw [String.toList_ofList] at noSign
  exact noSign sign

/-- An entry with one equals sign has a default, unless the sign belongs to an operator. -/
theorem read?_sign {style : ParameterStyle} {entry front back : List Char}
    (isPart : Text.joinWords (keptWords entry) = front ++ '=' :: back) (noSign : '=' ∉ front)
    (noOther : '=' ∉ back) :
    read? style entry =
      if belongsToOperator front.getLast? back.head? then
        declared? style (front ++ '=' :: back) none
      else declared? style (Text.trim front) (some (Text.trim back)) := by
  have filled : (front ++ '=' :: back).isEmpty = false := by simp
  have noReceiver := not_isReceiver_of_sign (by simp : '=' ∈ front ++ '=' :: back)
  rw [read?_eq]
  dsimp only
  rw [isPart, filled, noReceiver, splitDefault?_sign noSign noOther, Bool.or_false,
    if_neg Bool.false_ne_true]
  cases belongsToOperator front.getLast? back.head? <;> rfl

theorem defaultValue_read?_of_no_sign {style : ParameterStyle} {entry : List Char}
    (noSign : '=' ∉ Text.joinWords (keptWords entry)) {parameter : Parameter}
    (isRead : read? style entry = some parameter) : parameter.defaultValue = none := by
  rw [read?_eq] at isRead
  dsimp only at isRead
  rw [splitDefault?, splitDefaultFrom?_of_no_sign noSign] at isRead
  split at isRead
  · cases isRead
  · exact defaultValue_declared? isRead

/-! ## The two spellings -/

/-- A declaration and a default with blanks around the equals sign between them. -/
def spaced (declaration default : List Char) : List Char :=
  declaration ++ [' ', '=', ' '] ++ default

/-- A declaration and a default with nothing but the equals sign between them. -/
def tight (declaration default : List Char) : List Char := declaration ++ ['='] ++ default

section

variable {style : ParameterStyle} {declaration default : List Char}

theorem keptWords_spaced (declaration default : List Char) :
    keptWords (spaced declaration default) =
      keptWords declaration ++ ['='] :: keptWords default := by
  have blank : Text.isBlank ' ' = true := by decide
  have sign : Text.words ['='] = [['=']] := by decide
  have apart : Text.words (spaced declaration default) =
      Text.words declaration ++ ['='] :: Text.words default := by
    rw [spaced, List.append_assoc, List.cons_append, Text.words_append_blank blank]
    change _ ++ Text.words (['='] ++ ' ' :: default) = _
    rw [Text.words_append_blank blank, sign, List.singleton_append]
  rw [keptWords, apart, withoutAnnotations_append, withoutAnnotations_cons (by decide), keptWords,
    keptWords]

/-- With blanks around the sign, the declaration is read with the words that are left of the
default. -/
theorem read?_spaced (noSign : '=' ∉ declaration) (noOther : '=' ∉ default) :
    read? style (spaced declaration default) =
      declared? style (Text.joinWords (keptWords declaration))
        (some (Text.joinWords (keptWords default))) := by
  let earlier := keptWords declaration
  let later := keptWords default
  have isPart : Text.joinWords (keptWords (spaced declaration default)) =
      (Text.joinWords earlier ++ Text.gapBeside earlier) ++
        '=' :: (Text.gapBeside later ++ Text.joinWords later) := by
    rw [keptWords_spaced, Text.joinWords_append_cons]
    simp [earlier, later]
  -- the sign stands between blanks, or at an end of what is left of the entry
  have apart : belongsToOperator (Text.joinWords earlier ++ Text.gapBeside earlier).getLast?
      (Text.gapBeside later ++ Text.joinWords later).head? = false := by
    cases earlier <;> cases later <;> simp [belongsToOperator]
  have noSignInFront : '=' ∉ Text.joinWords earlier ++ Text.gapBeside earlier := by
    rw [List.mem_append, not_or]
    exact ⟨sign_not_mem_keptWords noSign, Text.not_mem_gapBeside (by decide) earlier⟩
  have noSignBehind : '=' ∉ Text.gapBeside later ++ Text.joinWords later := by
    rw [List.mem_append, not_or]
    exact ⟨Text.not_mem_gapBeside (by decide) later, sign_not_mem_keptWords noOther⟩
  rw [read?_sign isPart noSignInFront noSignBehind, apart,
    Text.trim_joinWords_gapBeside fun _ => isTrimmed_of_mem_keptWords,
    Text.trim_gapBeside_joinWords fun _ => isTrimmed_of_mem_keptWords]
  rfl

/-- The words that are left of a default behind a sign without blanks: the first one is a part of
the word that holds the sign, whatever it begins with. -/
def tightWords (default : List Char) : List (List Char) :=
  (Text.words default).take 1 ++ withoutAnnotations ((Text.words default).drop 1)

theorem mem_words_of_mem_tightWords {word : List Char} (member : word ∈ tightWords default) :
    word ∈ Text.words default := by
  rcases List.mem_append.mp member with isFirst | isLater
  · exact List.mem_of_mem_take isFirst
  · exact List.mem_of_mem_drop (List.mem_of_mem_filter isLater)

/-- The default as it is read behind a sign without blanks. -/
def tightDefault (default : List Char) : List Char := Text.joinWords (tightWords default)

/-- Without blanks around the sign, one word holds the last word of the declaration, the sign and
the first word of the default. -/
theorem exists_words_tight (isDeclaration : Text.IsTrimmed declaration)
    (isDefault : Text.IsTrimmed default) :
    ∃ earlier first later, Text.words declaration = earlier ++ [lastWord declaration] ∧
      Text.words default = first :: later ∧
        Text.words (tight declaration default) =
          earlier ++ (lastWord declaration ++ '=' :: first) :: later ∧
            (lastWord declaration).getLast? = declaration.getLast? ∧
              first.head? = default.head? := by
  rcases Text.exists_words_append (by decide : Text.isBlank '=' = false) isDeclaration.last
    isDefault.first with ⟨earlier, last, first, later, inFront, behind, whole, isLast, isFirst⟩
  have isLastWord : lastWord declaration = last := by simp [lastWord, inFront]
  rw [isLastWord, tight, List.append_assoc, List.singleton_append]
  exact ⟨earlier, first, later, inFront, behind, whole, isLast, isFirst⟩

/-- A word that begins like an annotation is left out with the sign that it holds. -/
theorem sign_not_mem_tight (isDeclaration : Text.IsTrimmed declaration)
    (isDefault : Text.IsTrimmed default) (noSign : '=' ∉ declaration) (noOther : '=' ∉ default)
    (annotated : (lastWord declaration).head? = some '@') :
    '=' ∉ Text.joinWords (keptWords (tight declaration default)) := by
  rcases exists_words_tight isDeclaration isDefault with
    ⟨earlier, first, later, inFront, behind, whole, -, -⟩
  have leads : (lastWord declaration ++ '=' :: first).head? = some '@' := by
    rw [List.head?_append, annotated, Option.some_or]
  apply Text.not_mem_joinWords (by decide)
  intro word member within
  rw [keptWords, whole, withoutAnnotations_append, withoutAnnotations_cons_annotated leads,
    List.mem_append] at member
  rcases member with inFirst | inLater
  · have isWord : word ∈ Text.words declaration :=
      inFront ▸ List.mem_append_left _ (List.mem_of_mem_filter inFirst)
    exact noSign (Text.mem_of_mem_words isWord _ within)
  · have isWord : word ∈ Text.words default :=
      behind ▸ List.mem_cons_of_mem _ (List.mem_of_mem_filter inLater)
    exact noOther (Text.mem_of_mem_words isWord _ within)

/-- Any other word is kept with the sign, which stands between the same characters as in the
entry. -/
theorem joinWords_keptWords_tight (isDeclaration : Text.IsTrimmed declaration)
    (isDefault : Text.IsTrimmed default)
    (plain : (lastWord declaration).head? ≠ some '@') :
    Text.joinWords (keptWords (tight declaration default)) =
        Text.joinWords (keptWords declaration) ++ '=' :: tightDefault default ∧
      (Text.joinWords (keptWords declaration)).getLast? = declaration.getLast? ∧
        (tightDefault default).head? = default.head? := by
  rcases exists_words_tight isDeclaration isDefault with
    ⟨earlier, first, later, inFront, behind, whole, isLast, isFirst⟩
  have lastFilled : lastWord declaration ≠ [] :=
    (@Text.isTrimmed_of_mem_words declaration _ (by simp [inFront])).ne_nil
  have firstFilled : first ≠ [] :=
    (@Text.isTrimmed_of_mem_words default _ (by simp [behind])).ne_nil
  have leads : (lastWord declaration ++ '=' :: first).head? ≠ some '@' := by
    rwa [List.head?_append_of_ne_nil _ lastFilled]
  have inDeclaration :
      keptWords declaration = withoutAnnotations earlier ++ [lastWord declaration] := by
    rw [keptWords, inFront, withoutAnnotations_append, withoutAnnotations_cons plain]
    rfl
  have inDefault : tightDefault default = first ++ (Text.gapBeside (withoutAnnotations later) ++
      Text.joinWords (withoutAnnotations later)) := by
    rw [tightDefault, tightWords, behind, ← List.append_assoc]
    exact Text.joinWords_cons _ _
  refine ⟨?_, ?_, ?_⟩
  · rw [keptWords, whole, withoutAnnotations_append, withoutAnnotations_cons leads,
      Text.joinWords_append_cons, inDeclaration, Text.joinWords_append_cons, inDefault]
    simp
  · rw [inDeclaration, Text.joinWords_append_cons, Text.gapBeside_nil, Text.joinWords_nil,
      List.append_nil, List.append_nil, List.getLast?_append_of_ne_nil _ lastFilled, isLast]
  · rw [inDefault, List.head?_append_of_ne_nil _ firstFilled, isFirst]

/-- The first word of a default is left out if it begins like an annotation, but not behind a sign
without blanks. -/
theorem tightDefault_eq_iff (isDefault : Text.IsTrimmed default) :
    tightDefault default = Text.joinWords (keptWords default) ↔ default.head? ≠ some '@' := by
  rcases Text.exists_splitAll_cons isDefault.first with ⟨first, pieces, -, isFirst, isWords⟩
  let later := withoutAnnotations (pieces.filter (! ·.isEmpty))
  have filled : 0 < first.length := List.length_pos_iff.mpr
    (@Text.isTrimmed_of_mem_words default _ (by simp [isWords])).ne_nil
  have whole : tightDefault default = Text.joinWords (first :: later) := by
    rw [tightDefault, tightWords, isWords]
    rfl
  rw [whole, ← isFirst, keptWords, isWords]
  constructor
  · intro same mark
    rw [withoutAnnotations_cons_annotated mark, Text.joinWords_cons] at same
    have longer := congrArg List.length same
    rw [List.length_append, List.length_append] at longer
    change _ = (Text.joinWords later).length at longer
    omega
  · intro plain
    rw [withoutAnnotations_cons plain]

/-! ## Blanks around the sign -/

/-- Whether blanks around the equals sign between a declaration and its default may be left out: the
sign is not taken for a part of a comparison without them, and no annotation seems to end the
declaration or to begin the default. -/
structure IsFreelySpaced (declaration default : List Char) : Prop where
  noComparison : declaration.getLast?.any (· ∈ ['<', '>', '!']) = false
  plainWord : (lastWord declaration).head? ≠ some '@'
  plainDefault : default.head? ≠ some '@'

instance (declaration default : List Char) : Decidable (IsFreelySpaced declaration default) :=
  decidable_of_iff (declaration.getLast?.any (· ∈ ['<', '>', '!']) = false ∧
      (lastWord declaration).head? ≠ some '@' ∧ default.head? ≠ some '@')
    ⟨fun ⟨noComparison, plainWord, plainDefault⟩ => ⟨noComparison, plainWord, plainDefault⟩,
      fun free => ⟨free.noComparison, free.plainWord, free.plainDefault⟩⟩

/-- What a declaration and its default are, apart from the blanks around the sign between them: it
is the only equals sign, and no arrow starts there. -/
structure AreParts (declaration default : List Char) : Prop where
  isDeclaration : Text.IsTrimmed declaration
  isDefault : Text.IsTrimmed default
  noSign : '=' ∉ declaration
  noOther : '=' ∉ default
  noArrow : default.head? ≠ some '>'

variable (parts : AreParts declaration default)

include parts

theorem belongsToOperator_eq :
    belongsToOperator declaration.getLast? default.head? =
      declaration.getLast?.any (· ∈ ['<', '>', '!']) := by
  have noOperator : default.head?.any (· ∈ ['=', '>']) = false := by
    rcases List.exists_cons_of_ne_nil parts.isDefault.ne_nil with ⟨character, rest, rfl⟩
    have noOther := parts.noOther
    rw [List.mem_cons, not_or] at noOther
    have other : character ≠ '>' := fun arrow => parts.noArrow (congrArg some arrow)
    simp [Ne.symm noOther.1, other]
  rw [belongsToOperator, noOperator, Bool.or_false]
  cases isLast : declaration.getLast? with
  | none => rfl
  | some character =>
      have other : character ≠ '=' := by
        rintro rfl
        exact parts.noSign (List.mem_of_getLast? isLast)
      simp [other]

/-- Without blanks around the sign, the default is read if the sign stands alone. -/
theorem read?_tight (plain : (lastWord declaration).head? ≠ some '@') :
    read? style (tight declaration default) =
      if declaration.getLast?.any (· ∈ ['<', '>', '!']) then
        declared? style (Text.joinWords (keptWords declaration) ++ '=' :: tightDefault default) none
      else
        declared? style (Text.joinWords (keptWords declaration)) (some (tightDefault default)) := by
  rcases joinWords_keptWords_tight parts.isDeclaration parts.isDefault plain with
    ⟨isPart, isLast, isFirst⟩
  have noSignBehind : '=' ∉ tightDefault default :=
    Text.not_mem_joinWords (by decide) fun _ member within =>
      parts.noOther (Text.mem_of_mem_words (mem_words_of_mem_tightWords member) _ within)
  have trimmed : Text.trim (tightDefault default) = tightDefault default :=
    Text.trim_joinWords fun _ member =>
      Text.isTrimmed_of_mem_words (mem_words_of_mem_tightWords member)
  rw [read?_sign isPart (sign_not_mem_keptWords parts.noSign) noSignBehind, isLast, isFirst,
    belongsToOperator_eq parts, Text.trim_joinWords fun _ => isTrimmed_of_mem_keptWords, trimmed]

theorem read?_tight_of_free (free : IsFreelySpaced declaration default) :
    read? style (tight declaration default) = read? style (spaced declaration default) := by
  rw [read?_tight parts free.plainWord, free.noComparison, if_neg Bool.false_ne_true,
    (tightDefault_eq_iff parts.isDefault).mpr free.plainDefault,
    read?_spaced parts.noSign parts.noOther]

/-- A sign that is not freely spaced leads to another default without blanks, or to none. -/
theorem defaultValue_read?_tight_ne (bound : ¬ IsFreelySpaced declaration default)
    {parameter : Parameter} (isRead : read? style (tight declaration default) = some parameter) :
    parameter.defaultValue ≠ some (String.ofList (Text.joinWords (keptWords default))) := by
  -- the sign is left out with its word, is passed over, or leads to a default with one word more
  by_cases annotated : (lastWord declaration).head? = some '@'
  · rw [defaultValue_read?_of_no_sign (sign_not_mem_tight parts.isDeclaration parts.isDefault
      parts.noSign parts.noOther annotated) isRead]
    exact nofun
  · rw [read?_tight parts annotated] at isRead
    split at isRead
    · rw [defaultValue_declared? isRead]
      exact nofun
    · next noComparison =>
        have mark : ¬ default.head? ≠ some '@' := fun plain =>
          bound ⟨Bool.eq_false_iff.mpr noComparison, annotated, plain⟩
        rw [defaultValue_declared? isRead, Option.map_some]
        intro same
        exact mark ((tightDefault_eq_iff parts.isDefault).mp
          (String.ofList_injective (Option.some.inj same)))

/-- An entry is read alike in both spellings just if its sign is freely spaced, or if neither of
them gives a parameter. -/
theorem read?_spaced_eq_tight_iff :
    read? style (spaced declaration default) = read? style (tight declaration default) ↔
      IsFreelySpaced declaration default ∨ (read? style (spaced declaration default) = none ∧
        read? style (tight declaration default) = none) := by
  constructor
  · intro same
    by_cases free : IsFreelySpaced declaration default
    · exact .inl free
    · cases isRead : read? style (spaced declaration default) with
      | none => exact .inr ⟨rfl, same ▸ isRead⟩
      | some parameter =>
          have other := defaultValue_read?_tight_ne parts free (same ▸ isRead)
          rw [read?_spaced parts.noSign parts.noOther] at isRead
          exact absurd (defaultValue_declared? isRead) other
  · rintro (free | ⟨isSpaced, isTight⟩)
    · exact (read?_tight_of_free parts free).symm
    · rw [isSpaced, isTight]

end

/-! ## Parameter lists -/

/-- The parameter that the first entry of a list is read as. -/
def readFirst? (style : ParameterStyle) (text : List Char) : Option Parameter :=
  (splitList text).head?.bind (read? style)

section

variable {declaration default : List Char}

/-- An entry reaches from its declaration over the sign to the first comma of the default that no
bracket protects. -/
theorem splitList_sign {sign first : List Char} {later : List (List Char)} {character : Char}
    (noBracket : ∀ depth, listDepthBehind depth sign = depth)
    (noComma : ∀ depth, KeepsTogether depth sign) (isDeclaration : Text.IsTrimmed declaration)
    (together : KeepsTogether 0 declaration) (isInk : Text.isBlank character = false)
    (split : splitListFrom (listDepthBehind 0 declaration) default =
      (character :: first) :: later) :
    splitList (declaration ++ sign ++ default) =
      (declaration ++ sign ++ character :: Text.trimEnd first) ::
        (later.map Text.trim).filter (! ·.isEmpty) := by
  have stretches : splitListFrom 0 (declaration ++ sign ++ default) =
      (declaration ++ sign ++ character :: first) :: later := by
    apply splitListFrom_append
    · exact (keepsTogether_append 0 declaration sign).mpr ⟨together, noComma _⟩
    · rwa [listDepthBehind_append, noBracket]
  have isPadded : IsPadded (declaration ++ sign ++ character :: Text.trimEnd first)
      (declaration ++ sign ++ character :: first) := by
    rcases Text.exists_trimEnd first with ⟨back, parts, blank⟩
    refine ⟨[], back, ?_, blank⟩
    rw [List.nil_append, List.append_assoc _ _ back, List.cons_append, ← parts]
  have whole : Text.IsTrimmed (declaration ++ sign ++ character :: Text.trimEnd first) := by
    refine ⟨?_, (Text.isTrimmed_cons_trimEnd isInk first).getLast_append _⟩
    rw [List.append_assoc]
    exact isDeclaration.head_append _
  rw [splitList, stretches, List.map_cons, isPadded.trim_eq whole,
    List.filter_cons_of_pos (by simp)]

/-- Both spellings are cut into the same entries, but for the blanks around the sign. The default
may be cut where the declaration closes more brackets than it opens, as an arrow does. -/
theorem exists_splitList (isDeclaration : Text.IsTrimmed declaration)
    (isDefault : Text.IsTrimmed default) (together : KeepsTogether 0 declaration)
    (togetherBehind : KeepsTogether 0 default) :
    ∃ written later, Text.IsTrimmed written ∧ written.head? = default.head? ∧
      (∀ character ∈ written, character ∈ default) ∧
        splitList (spaced declaration default) = spaced declaration written :: later ∧
          splitList (tight declaration default) = tight declaration written :: later := by
  cases default with
  | nil => cases isDefault.first
  | cons character rest =>
      have isInk : Text.isBlank character = false := by simpa using isDefault.first
      let depth := listDepthBehind 0 declaration
      rcases List.exists_cons_of_ne_nil (splitListFrom_ne_nil (listDepth depth character) rest) with
        ⟨first, later, isRest⟩
      have split : splitListFrom depth (character :: rest) = (character :: first) :: later :=
        splitListFrom_cons (fun comma => absurd (togetherBehind.1 comma) (Int.lt_irrefl 0)) isRest
      refine ⟨character :: Text.trimEnd first, (later.map Text.trim).filter (! ·.isEmpty),
        Text.isTrimmed_cons_trimEnd isInk first, rfl, ?_, ?_, ?_⟩
      · intro other member
        rcases Text.exists_trimEnd first with ⟨back, parts, -⟩
        apply (isPrefix_of_splitListFrom split).subset
        rw [parts, ← List.cons_append]
        exact List.mem_append_left _ member
      · exact splitList_sign (fun _ => rfl) (fun _ => by simp [KeepsTogether]) isDeclaration
          together isInk split
      · exact splitList_sign (fun _ => rfl) (fun _ => by simp [KeepsTogether]) isDeclaration
          together isInk split

/-- Blanks around the equals sign of a default make no difference to the parameters of a list just
if the sign is freely spaced, or if its entry gives no parameter in either spelling. -/
theorem readAll_ignores_spacing_iff (style : ParameterStyle) (parts : AreParts declaration default)
    (together : KeepsTogether 0 declaration) (togetherBehind : KeepsTogether 0 default) :
    readAll style (spaced declaration default) = readAll style (tight declaration default) ↔
      IsFreelySpaced declaration default ∨
        (readFirst? style (spaced declaration default) = none ∧
          readFirst? style (tight declaration default) = none) := by
  rcases exists_splitList parts.isDeclaration parts.isDefault together togetherBehind with
    ⟨written, later, isWritten, isFirst, within, isSpaced, isTight⟩
  have writtenParts : AreParts declaration written :=
    { parts with
      isDefault := isWritten
      noOther := fun member => parts.noOther (within _ member)
      noArrow := isFirst ▸ parts.noArrow }
  have free : IsFreelySpaced declaration written ↔ IsFreelySpaced declaration default :=
    ⟨fun free => { free with plainDefault := isFirst ▸ free.plainDefault },
      fun free => { free with plainDefault := isFirst ▸ free.plainDefault }⟩
  -- what follows the first entry is the same in both spellings
  have alike : readAll style (spaced declaration default) =
        readAll style (tight declaration default) ↔
      read? style (spaced declaration written) = read? style (tight declaration written) := by
    rw [readAll, readAll, isSpaced, isTight]
    cases isRead : read? style (spaced declaration written) <;>
      cases isOther : read? style (tight declaration written) <;> simp [isRead, isOther]
  rw [alike, read?_spaced_eq_tight_iff writtenParts, free, readFirst?, readFirst?, isSpaced,
    isTight]
  rfl

/-- A default that begins like an annotation, such as a verbatim string, is left out if blanks stand
around the sign, so that the parameter has an empty default. -/
theorem readAll_minds_spacing_of_verbatimString :
    let declaration := "string s".toList
    let default := "@\"x\"".toList
    AreParts declaration default ∧ KeepsTogether 0 declaration ∧ KeepsTogether 0 default ∧
      readAll .typeThenName (spaced declaration default) = [⟨"s", "string", "", true⟩] ∧
        readAll .typeThenName (tight declaration default) =
            [⟨"s", "string", "@\"x\"", true⟩] ∧
          readAll .typeThenName (spaced declaration default) ≠
            readAll .typeThenName (tight declaration default) := by
  intro declaration default
  have parts : AreParts declaration default :=
    ⟨⟨by decide, by decide⟩, ⟨by decide, by decide⟩, by decide, by decide, by decide⟩
  have together : KeepsTogether 0 declaration := by decide
  have togetherBehind : KeepsTogether 0 default := by decide
  have bound : ¬ IsFreelySpaced declaration default := by decide
  have isRead : readFirst? .typeThenName (spaced declaration default) ≠ none := by decide
  refine ⟨parts, together, togetherBehind, by decide, by decide, fun same => ?_⟩
  rcases (readAll_ignores_spacing_iff .typeThenName parts together togetherBehind).mp same with
    free | ⟨unread, -⟩
  · exact bound free
  · exact isRead unread

/-- The bracket that closes the arguments of a type hides the sign right behind it, and the default
becomes a part of the type. -/
example :
    readAll .nameColonType (spaced "a: Array<number>".toList "[]".toList) =
        [⟨"a", "Array<number>", "[]", true⟩] ∧
      readAll .nameColonType (tight "a: Array<number>".toList "[]".toList) =
        [⟨"a", "Array<number>=[]", none, false⟩] := by decide

end

end SourceIndex.Parameter
