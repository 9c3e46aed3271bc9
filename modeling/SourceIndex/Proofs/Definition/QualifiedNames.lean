import SourceIndex.Proofs.Definition.Keywords
import SourceIndex.Proofs.Definition.Parents

/-! Qualified names spell the scopes around a definition. A definition that is named neither by a
path nor with a receiver has its parent's name in front of its own, and sections of documents do not
count. What a parent is called does not change while its scope is open, and so the names of all the
scopes around a definition, from the outermost one inwards, make up its qualified name. -/

namespace SourceIndex

namespace Definition

/-- What stands in front of the names of what is defined in a definition. -/
def scopeName (definition : Definition) : String :=
  definition.qualifiedName.getD definition.name

/-- Whether a definition is named by no more than its own name: neither by a path nor with a
receiver. -/
structure IsNamedAlone (definition : Definition) : Prop where
  noOwner : "owner" ∉ definition.metadata.map (·.1)
  noReceiver : "receiver" ∉ definition.metadata.map (·.1)

/-- Whether a definition of a language has the given parent and, if it is named alone, is called
after it. -/
structure IsCalledAfter (language : Language) (parent : Option Definition)
    (definition : Definition) : Prop where
  inLanguage : definition.language = language.id
  parentId : definition.parentId = parent.map (·.id)
  qualifiedName : definition.IsNamedAlone → definition.qualifiedName =
    (parent.filter (·.kind ≠ .sectionBlock)).map fun enclosing =>
      enclosing.scopeName ++ language.separator ++ definition.name

/-! ## Lines -/

theorem keys_listEntry {key name : String} {texts : List String}
    (member : key ∈ (listEntry name texts).map (·.1)) : key = name := by
  unfold listEntry at member
  split at member
  · cases member
  · simpa using member

/-- The metadata of a definition tell whether a path or a receiver names it. -/
theorem isNamedAlone_ofCapture_iff {language : Language} {rule : DefinitionRule} {site : Site}
    {line : List Char} {found : Pattern.Match} {capture : Pattern.Capture} :
    (ofCapture language rule site line found capture).IsNamedAlone ↔
      (WrittenName.of language (Text.trim capture.text)).owner = none ∧ receiver? found = none := by
  have others : ∀ key ∈ ["owner", "receiver"],
      key ∉ ((found.text? "trait").toList.map fun name =>
          ("trait", Json.string (String.ofList (Text.trim name)))).map (·.1) ∧
        (∀ texts, key ∉ (listEntry "bases" texts).map (·.1)) ∧
        ∀ texts, key ∉ (listEntry "decorators" texts).map (·.1) := by
    intro key isKey
    have different : key ≠ "trait" ∧ key ≠ "bases" ∧ key ≠ "decorators" := by
      revert key
      decide
    refine ⟨fun member => ?_, fun texts member => different.2.1 (keys_listEntry member),
      fun texts member => different.2.2 (keys_listEntry member)⟩
    simp only [List.map_map, List.mem_map] at member
    rcases member with ⟨name, -, rfl⟩
    exact different.1 rfl
  have owner := others "owner" (by simp)
  have receiver := others "receiver" (by simp)
  have metadata : (ofCapture language rule site line found capture).metadata =
      metadataOf found (WrittenName.of language (Text.trim capture.text)) site.decorators := rfl
  constructor
  · rintro ⟨noOwner, noReceiver⟩
    rw [metadata, metadataOf] at noOwner noReceiver
    constructor
    · cases path : (WrittenName.of language (Text.trim capture.text)).owner with
      | none => rfl
      | some segments => simp [path] at noOwner
    · cases named : receiver? found with
      | none => rfl
      | some name => simp [named] at noReceiver
  · rintro ⟨noPath, unnamed⟩
    constructor <;>
      simp only [metadata, metadataOf, noPath, unnamed, Option.toList_none, List.map_nil,
        List.nil_append, List.map_append, List.mem_append, not_or]
    · exact ⟨⟨owner.1, owner.2.1 _⟩, owner.2.2 _⟩
    · exact ⟨⟨receiver.1, receiver.2.1 _⟩, receiver.2.2 _⟩

theorem isNamedAlone_iff_of_sound {language : Language} {site : Site} {line : List Char}
    {pick : Pick} (sound : pick.Sound language site line) :
    pick.definition.IsNamedAlone ↔ ¬ pick.NamesPath language ∧ receiver? pick.found = none := by
  rcases sound.made with ⟨capture, captured, -, made⟩
  rw [← made, isNamedAlone_ofCapture_iff, owner_of_eq_none_iff]
  simp [Pick.NamesPath, Pattern.Match.text?, captured]

/-- What is recognized on a line is called after the enclosing definition, unless it has no
parent. -/
theorem isCalledAfter_of_recognize? {language : Language} {site : Site} {line : List Char}
    {definition : Definition} {opensBlock : Bool}
    (recognized : recognize? language site line = some (definition, opensBlock)) :
    ∃ parent, (parent = none ∨ parent = site.parent) ∧
      definition.IsCalledAfter language parent := by
  rcases recognize?_eq_some recognized with ⟨pick, sound, rfl, -⟩
  rcases sound.made with ⟨capture, -, -, made⟩
  refine ⟨if (pick.found.capture? "recv").isSome then none else site.parent, ?_, ?_⟩
  · split
    · exact .inl rfl
    · exact .inr rfl
  · rw [← made]
    refine ⟨rfl, rfl, fun alone => ?_⟩
    rcases isNamedAlone_ofCapture_iff.mp alone with ⟨noPath, unnamed⟩
    simp only [ofCapture, qualifiedNameOf, noPath, unnamed, scopeName]

theorem isCalledAfter_sectionDefinition {language : Language} (fileId : String) (region : Region)
    (openingLine : List Char) :
    (sectionDefinition language fileId region openingLine).IsCalledAfter language none :=
  ⟨rfl, rfl, fun _ => rfl⟩

/-- Where a definition ends does not matter for what it is called. -/
theorem IsCalledAfter.withEnd {language : Language} {parent : Option Definition}
    {definition : Definition} (called : definition.IsCalledAfter language parent) (line : Nat) :
    { definition with endLine := line }.IsCalledAfter language parent :=
  ⟨called.inLanguage, called.parentId,
    fun alone => called.qualifiedName ⟨alone.noOwner, alone.noReceiver⟩⟩

/-- Where its parent ends does not matter either. -/
theorem IsCalledAfter.map {language : Language} {parent : Option Definition}
    {definition : Definition} (called : definition.IsCalledAfter language parent)
    {change : Definition → Definition}
    (ends : ∀ enclosing, ∃ line, change enclosing = { enclosing with endLine := line }) :
    definition.IsCalledAfter language (parent.map change) := by
  have same : ∀ enclosing, (change enclosing).id = enclosing.id ∧
      (change enclosing).kind = enclosing.kind ∧
      (change enclosing).scopeName = enclosing.scopeName := by
    intro enclosing
    rcases ends enclosing with ⟨line, changed⟩
    rw [changed]
    exact ⟨rfl, rfl, rfl⟩
  refine ⟨called.inLanguage, ?_, fun alone => ?_⟩
  · rw [Option.map_map]
    simpa only [Function.comp_def, same] using called.parentId
  · have named := called.qualifiedName alone
    simpa only [Option.filter_map, Option.map_map, Function.comp_def, same] using named

end Definition

/-- Whether each definition of a list is called after an earlier one or after the one around the
list, or has no parent. -/
def CalledWithin (language : Language) (outer : Option Definition)
    (definitions : List Definition) : Prop :=
  ∀ (place : Nat) (child : Definition), definitions[place]? = some child →
    ∃ parent, (parent = none ∨ parent = outer ∨ ∃ above < place, parent = definitions[above]?) ∧
      child.IsCalledAfter language parent

/-! ## Findings -/

namespace Findings

variable {language : Language} {outer : Option Definition} {findings : Findings}

/-- Whether all that has been found is called after what has been found before it. -/
def Called (language : Language) (outer : Option Definition) (findings : Findings) : Prop :=
  CalledWithin language outer findings.definitions.toList

theorem called_empty (language : Language) (outer : Option Definition) :
    Called language outer {} := by
  intro place child found
  simp at found

theorem Called.change (called : findings.Called language outer) {changed : Findings}
    {change : Nat → Definition → Definition}
    (definitions : ∀ place : Nat,
      changed.definitions[place]? = findings.definitions[place]?.map (change place))
    (ends : ∀ place definition, ∃ line,
      change place definition = { definition with endLine := line }) :
    changed.Called language outer := by
  intro place child found
  rw [Array.getElem?_toList, definitions] at found
  rcases Option.map_eq_some_iff.mp found with ⟨former, isFormer, rfl⟩
  rcases called place former (by rwa [Array.getElem?_toList]) with ⟨parent, isParent, called⟩
  rcases ends place former with ⟨last, ended⟩
  rw [ended]
  rcases isParent with none | isOuter | ⟨above, order, isAbove⟩
  · exact ⟨parent, .inl none, called.withEnd last⟩
  · exact ⟨parent, .inr (.inl isOuter), called.withEnd last⟩
  · refine ⟨parent.map (change above), .inr (.inr ⟨above, order, ?_⟩),
      (called.map (ends above)).withEnd last⟩
    rw [isAbove, Array.getElem?_toList, Array.getElem?_toList, definitions]

theorem Called.endAt (called : findings.Called language outer) (definition line : Nat) :
    (findings.endAt definition line).Called language outer := by
  apply @Called.change _ _ _ called _ fun place former =>
    if definition = place then { former with endLine := line } else former
  · intro place
    rw [getElem?_endAt]
    split
    · rfl
    · exact Option.map_id'.symm
  · intro place former
    split
    · exact ⟨line, rfl⟩
    · exact ⟨former.endLine, rfl⟩

theorem Called.endAllAt (called : findings.Called language outer) (closed : List OpenScope)
    (line : Nat) : (findings.endAllAt closed line).Called language outer := by
  apply called.change (findings.getElem?_endAllAt closed line)
  intro place former
  unfold ended
  split
  · exact ⟨_, rfl⟩
  · exact ⟨former.endLine, rfl⟩

/-- What encloses a line, if anything does, is the definition around the input or one of those that
have been found. -/
theorem enclosing_eq (findings : Findings) (outer : Option Definition) :
    findings.enclosing outer = outer ∨
      ∃ above : Nat, findings.enclosing outer = findings.definitions[above]? := by
  unfold enclosing
  split
  · next scope _ => exact .inr ⟨scope.definition, rfl⟩
  · exact .inl rfl

theorem Called.add (called : findings.Called language outer) {definition : Definition}
    {parent : Option Definition} (isParent : parent = none ∨ parent = findings.enclosing outer)
    (new : definition.IsCalledAfter language parent) :
    (findings.add definition).Called language outer := by
  have kept : ∀ above < findings.definitions.size,
      (findings.add definition).definitions.toList[above]? = findings.definitions[above]? := by
    intro above inside
    rw [Array.getElem?_toList, getElem?_add, if_neg (Nat.ne_of_lt inside)]
  intro place child found
  rw [Array.getElem?_toList, getElem?_add] at found
  split at found
  · next last =>
      cases found
      refine ⟨parent, ?_, new⟩
      rcases isParent with none | isEnclosing
      · exact .inl none
      · rcases findings.enclosing_eq outer with isOuter | ⟨above, isAbove⟩
        · exact .inr (.inl (isEnclosing.trans isOuter))
        · cases isNone : findings.definitions[above]? with
          | none => exact .inl (isEnclosing.trans (isAbove.trans isNone))
          | some enclosing =>
              have inside := (Array.getElem?_eq_some_iff.mp isNone).1
              refine .inr (.inr ⟨above, last ▸ inside, ?_⟩)
              rw [kept above inside, isEnclosing, isAbove]
  · have inside := (Array.getElem?_eq_some_iff.mp found).1
    rcases called place child (by rwa [Array.getElem?_toList]) with ⟨former, isFormer, called⟩
    refine ⟨former, isFormer.imp_right (Or.imp_right ?_), called⟩
    rintro ⟨above, order, isAbove⟩
    refine ⟨above, order, ?_⟩
    rw [kept above (Nat.lt_trans order inside), isAbove, Array.getElem?_toList]

theorem isKeptOn_called {input : ScanInput} (line : List Char) (lineNumber last : Nat) :
    IsKeptOn language input line lineNumber last (Called language input.outer) where
  closeFrom _ _ called := called.endAllAt _ last
  openScope _ _ _ called := called
  add _ _ _ _ recognized called := by
    rcases Definition.isCalledAfter_of_recognize? recognized with ⟨parent, isParent, new⟩
    exact called.add isParent new

end Findings

/-! ## Scopes -/

section Scopes

variable (language : Language) (input : ScanInput)

theorem calledWithin_scanBraces :
    CalledWithin language input.outer (scanBraces language input) := by
  rcases holds_scanBraces (fun line _ => Findings.isKeptOn_called line _ _)
    (fun _ definition line called => called.endAt definition line)
    (fun _ line called => called.endAllAt _ line)
    (Findings.called_empty language input.outer) with ⟨findings, yields, called⟩
  rw [yields]
  exact called

theorem calledWithin_scanIndentation :
    CalledWithin language input.outer (scanIndentation language input) := by
  rcases holds_scanIndentation Findings.isKeptOn_called
    (fun _ line called => called.endAllAt _ line)
    (Findings.called_empty language input.outer) with ⟨findings, yields, called⟩
  rw [yields]
  exact called

theorem calledWithin_scanPlain : CalledWithin language none (scanPlain language input) := by
  intro place child found
  rcases List.mem_filterMap.mp (List.mem_of_getElem? found) with
    ⟨⟨⟨line, stripped⟩, number⟩, -, made⟩
  simp only at made
  split at made
  · cases made
  · rcases Option.map_eq_some_iff.mp made with ⟨⟨recognized, opensBlock⟩, isRecognized, rfl⟩
    rcases Definition.isCalledAfter_of_recognize? isRecognized with ⟨parent, isParent, called⟩
    exact ⟨parent, isParent.imp_right .inl, called⟩

end Scopes

/-! ## Parents by their places -/

/-- Whether the definition at a place of a list has the one at the place `above` for its parent, or
no parent, and is called after it. Parents stand in front of their children and are in the same
language, sections of documents apart. -/
structure IsScopedAt (definitions : List Definition) (place : Nat) (child : Definition)
    (above : Option Nat) : Prop where
  earlier : ∀ parent ∈ above, parent < place
  called : child.IsCalledAfter (Language.ofName child.language) (above.bind (definitions[·]?))
  sameLanguage : ∀ parent ∈ above.bind (definitions[·]?), parent.kind ≠ .sectionBlock →
    parent.language = child.language

/-- Whether each definition of a list is called after its parent. -/
def HaveScopes (definitions : List Definition) : Prop :=
  ∀ (place : Nat) (child : Definition), definitions[place]? = some child →
    ∃ above, IsScopedAt definitions place child above

theorem CalledWithin.inLanguage {language : Language} {outer : Option Definition}
    {definitions : List Definition} (called : CalledWithin language outer definitions)
    (place : Nat) {definition : Definition} (found : definitions[place]? = some definition) :
    definition.language = language.id := by
  rcases called place definition found with ⟨parent, -, after⟩
  exact after.inLanguage

section Places

variable {language : Language} (member : language ∈ Language.plain :: Language.known)
include member

theorem isScopedAt_of_called {definitions : List Definition} {place : Nat} {child : Definition}
    {above : Option Nat} (earlier : ∀ parent ∈ above, parent < place)
    (called : child.IsCalledAfter language (above.bind (definitions[·]?)))
    (inLanguage : ∀ parent ∈ above.bind (definitions[·]?), parent.kind ≠ .sectionBlock →
      parent.language = language.id) : IsScopedAt definitions place child above := by
  have own : Language.ofName child.language = language := by
    rw [called.inLanguage, Language.ofName_id member]
  refine ⟨earlier, own.symm ▸ called, fun parent isParent noSection => ?_⟩
  rw [inLanguage parent isParent noSection, called.inLanguage]

theorem isScopedAt_none {definitions : List Definition} {place : Nat} {child : Definition}
    (called : child.IsCalledAfter language none) : IsScopedAt definitions place child none :=
  isScopedAt_of_called member (by simp) called (by simp)

theorem CalledWithin.haveScopes {definitions : List Definition}
    (called : CalledWithin language none definitions) : HaveScopes definitions := by
  intro place child found
  rcases called place child found with ⟨parent, rfl | rfl | ⟨above, order, rfl⟩, after⟩
  · exact ⟨none, isScopedAt_none member after⟩
  · exact ⟨none, isScopedAt_none member after⟩
  · refine ⟨some above, isScopedAt_of_called member ?_ after fun parent isParent _ => ?_⟩
    · simpa using order
    · exact called.inLanguage above isParent

theorem CalledWithin.section {sectionOf : Definition} {nested : List Definition}
    (called : CalledWithin language (some sectionOf) nested)
    {markup : Language} (isMarkup : markup ∈ Language.plain :: Language.known)
    (top : sectionOf.IsCalledAfter markup none) (isSection : sectionOf.kind = .sectionBlock) :
    HaveScopes (sectionOf :: nested) := by
  intro place child found
  cases place with
  | zero =>
      cases found
      exact ⟨none, isScopedAt_none isMarkup top⟩
  | succ place =>
      rw [List.getElem?_cons_succ] at found
      rcases called place child found with ⟨parent, rfl | rfl | ⟨above, order, rfl⟩, after⟩
      · exact ⟨none, isScopedAt_none member after⟩
      · refine ⟨some 0, isScopedAt_of_called member ?_ after fun parent isParent noSection => ?_⟩
        · simp
        · cases isParent
          exact absurd isSection noSection
      · refine ⟨some (above + 1), isScopedAt_of_called member ?_ after fun parent isParent _ => ?_⟩
        · simpa using order
        · exact called.inLanguage above isParent

end Places

theorem HaveScopes.append {front back : List Definition} (frontHolds : HaveScopes front)
    (backHolds : HaveScopes back) : HaveScopes (front ++ back) := by
  intro place child found
  rw [List.getElem?_append] at found
  split at found
  · next inFront =>
      rcases frontHolds place child found with ⟨above, earlier, called, sameLanguage⟩
      have same : above.bind ((front ++ back)[·]?) = above.bind (front[·]?) := by
        cases above with
        | none => rfl
        | some parent => exact List.getElem?_append_left (Nat.lt_trans (earlier parent rfl) inFront)
      exact ⟨above, earlier, same ▸ called, same ▸ sameLanguage⟩
  · next behind =>
      rcases backHolds _ child found with ⟨above, earlier, called, sameLanguage⟩
      have same : (above.map (· + front.length)).bind ((front ++ back)[·]?) =
          above.bind (back[·]?) := by
        cases above with
        | none => rfl
        | some parent =>
            rw [Option.map_some, Option.bind_some, Option.bind_some,
              List.getElem?_append_right (Nat.le_add_left _ _), Nat.add_sub_cancel]
      refine ⟨above.map (· + front.length), ?_, same ▸ called, same ▸ sameLanguage⟩
      intro parent isParent
      rcases Option.map_eq_some_iff.mp isParent with ⟨former, isFormer, rfl⟩
      have := earlier former isFormer
      omega

theorem haveScopes_flatMap {α : Type} (items : List α) (definitionsOf : α → List Definition)
    (holds : ∀ item ∈ items, HaveScopes (definitionsOf item)) :
    HaveScopes (items.flatMap definitionsOf) := by
  induction items with
  | nil => exact fun place child found => by cases found
  | cons item items induction =>
      rw [List.flatMap_cons]
      exact (holds item (by simp)).append
        (induction fun other isItem => holds other (List.mem_cons_of_mem _ isItem))

/-! ## Files -/

theorem calledWithin_scanScopes (language : Language) (input : ScanInput) :
    CalledWithin language input.outer (scanScopes language input) := by
  unfold scanScopes
  split
  · exact calledWithin_scanIndentation language input
  · exact calledWithin_scanBraces language input

theorem haveScopes_regionDefinitions {markup : Language}
    (isMarkup : markup ∈ Language.plain :: Language.known) (fileId : String)
    (lines : List (List Char)) (region : Region) :
    HaveScopes (regionDefinitions markup fileId lines region) := by
  have top : (sectionDefinition markup fileId region ((lines[region.start]?).getD [])).IsCalledAfter
      markup none := Definition.isCalledAfter_sectionDefinition fileId region _
  unfold regionDefinitions
  simp only
  split
  · next script first last isScript _ =>
      have called := calledWithin_scanScopes script ⟨fileId, first + 1,
        some (sectionDefinition markup fileId region ((lines[region.start]?).getD [])),
        (lines.drop first).take (last - first + 1)⟩
      exact called.section (List.mem_cons_of_mem _ (mem_known_of_scriptLanguage? isScript)) isMarkup
        top rfl
  · have empty : CalledWithin markup (some (sectionDefinition markup fileId region
        ((lines[region.start]?).getD []))) [] := fun place child found => by cases found
    exact empty.section isMarkup isMarkup top rfl

theorem haveScopes_extractDefinitions (name fileId content : String) :
    HaveScopes (extractDefinitions (Language.ofName name) fileId content) := by
  have member := Language.ofName_mem name
  unfold extractDefinitions
  simp only
  split
  · exact (calledWithin_scanBraces _ _).haveScopes member
  · exact (calledWithin_scanIndentation _ _).haveScopes member
  · exact (calledWithin_scanPlain _ _).haveScopes member
  · exact haveScopes_flatMap _ _ fun region _ =>
      haveScopes_regionDefinitions member fileId _ region

/-! ## Chains of scopes -/

/-- The definitions around the one at a place, from the outermost one inwards, and that one itself,
if all of them are named alone. Sections of documents are none of them. -/
inductive ScopeChain (definitions : List Definition) (parentAt : Nat → Option Nat) :
    (place : Nat) → List Definition → Prop
  | outermost {place : Nat} {definition : Definition} : definitions[place]? = some definition →
    definition.kind ≠ .sectionBlock → definition.IsNamedAlone →
    (∀ parent ∈ (parentAt place).bind (definitions[·]?), parent.kind = .sectionBlock) →
    ScopeChain definitions parentAt place [definition]
  | inner {place above : Nat} {definition : Definition} {chain : List Definition} :
    ScopeChain definitions parentAt above chain → parentAt place = some above →
    definitions[place]? = some definition → definition.kind ≠ .sectionBlock →
    definition.IsNamedAlone → ScopeChain definitions parentAt place (chain ++ [definition])

/-- The names of a chain, joined by the separator of a language. -/
def spelling (language : Language) (chain : List Definition) : String :=
  language.separator.intercalate (chain.map (·.name))

theorem spelling_concat (language : Language) {chain : List Definition} (some : chain ≠ [])
    (definition : Definition) : spelling language (chain ++ [definition]) =
      spelling language chain ++ language.separator ++ definition.name := by
  unfold spelling
  induction chain with
  | nil => exact absurd rfl some
  | cons first chain induction =>
      cases chain with
      | nil => simp
      | cons next chain =>
          have rest := induction (List.cons_ne_nil _ _)
          simp only [List.cons_append, List.map_cons, String.intercalate_cons_cons] at rest ⊢
          rw [rest]
          simp only [String.append_assoc]

variable {definitions : List Definition} {parentAt : Nat → Option Nat}

/-- The qualified name of a definition at the end of a chain: none if it stands alone. -/
def Definition.IsSpelledBy (chain : List Definition) (definition : Definition) : Prop :=
  definition.qualifiedName = if chain = [] then none
    else some (spelling (Language.ofName definition.language) (chain ++ [definition]))

theorem Definition.IsSpelledBy.scopeName_eq {chain : List Definition} {definition : Definition}
    (spelled : definition.IsSpelledBy chain) : definition.scopeName =
      spelling (Language.ofName definition.language) (chain ++ [definition]) := by
  rw [Definition.scopeName, spelled]
  split
  · next alone => simp [alone, spelling]
  · rfl

/-- Each chain ends with the definition at its place, which the chain spells. -/
theorem ScopeChain.spells (placed : ∀ (place : Nat) child, definitions[place]? = some child →
      IsScopedAt definitions place child (parentAt place))
    {place : Nat} {scopes : List Definition}
    (isChain : ScopeChain definitions parentAt place scopes) :
    ∃ chain child, scopes = chain ++ [child] ∧ definitions[place]? = some child ∧
      child.kind ≠ .sectionBlock ∧ child.IsSpelledBy chain := by
  induction isChain with
  | @outermost place definition found noSection alone outside =>
      refine ⟨[], definition, rfl, found, noSection, ?_⟩
      have named := (placed place definition found).called.qualifiedName alone
      rw [Definition.IsSpelledBy, if_pos rfl, named, Option.map_eq_none_iff,
        Option.filter_eq_none_iff]
      intro parent isParent
      simp [outside parent isParent]
  | @inner place above definition _ isChain isAbove found noSection alone induction =>
      rcases induction with ⟨chain, parent, rfl, isParent, parentNoSection, spelled⟩
      refine ⟨chain ++ [parent], definition, rfl, found, noSection, ?_⟩
      have own := placed place definition found
      rw [isAbove] at own
      have called := own.called
      rw [Option.bind_some, isParent] at called
      have named := called.qualifiedName alone
      have sameLanguage : parent.language = definition.language :=
        own.sameLanguage parent isParent parentNoSection
      rw [Option.filter_some, if_pos (by simpa using parentNoSection), Option.map_some,
        spelled.scopeName_eq, sameLanguage] at named
      rw [Definition.IsSpelledBy, if_neg (by simp), spelling_concat _ (by simp), named]

/-- Where identifiers differ, they tell the places of definitions. -/
theorem place_eq_of_id_eq (distinct : (definitions.map (·.id)).Nodup) {first second : Nat}
    {one other : Definition} (isOne : definitions[first]? = some one)
    (isOther : definitions[second]? = some other) (same : one.id = other.id) :
    first = second := by
  have inside := (List.getElem?_eq_some_iff.mp isOne).1
  apply (List.getElem?_inj (by simpa using inside) distinct).mp
  rw [List.getElem?_map, List.getElem?_map, isOne, isOther, Option.map_some, Option.map_some, same]

/-- The parents of a list by their places, if each definition is called after its parent and each
chain of scopes spells the qualified name of the definition at its end. -/
structure SpellsScopes (definitions : List Definition) (parentAt : Nat → Option Nat) : Prop where
  placed : ∀ (place : Nat) child, definitions[place]? = some child →
    IsScopedAt definitions place child (parentAt place)
  /-- Where identifiers differ, the identifiers alone tell the parents. -/
  only : (definitions.map (·.id)).Nodup → ∀ (place above : Nat) child parent,
    definitions[place]? = some child → definitions[above]? = some parent →
      child.parentId = some parent.id → parentAt place = some above
  chains : ∀ (place : Nat) chain child,
    ScopeChain definitions parentAt place (chain ++ [child]) → child.IsSpelledBy chain

theorem spellsScopes_of_placed (placed : ∀ (place : Nat) child, definitions[place]? = some child →
    IsScopedAt definitions place child (parentAt place)) : SpellsScopes definitions parentAt where
  placed := placed
  only distinct place above child parent found isParent names := by
    have own := (placed place child found).called.parentId
    rw [names] at own
    rcases Option.map_eq_some_iff.mp own.symm with ⟨other, isOther, sameId⟩
    rcases Option.bind_eq_some_iff.mp isOther with ⟨actual, isActual, atActual⟩
    rw [isActual, place_eq_of_id_eq distinct atActual isParent sameId]
  chains place chain child isChain := by
    rcases isChain.spells placed with ⟨others, last, same, -, -, spelled⟩
    rcases List.append_inj' same rfl with ⟨rfl, single⟩
    cases single
    exact spelled

theorem HaveScopes.exists_spellsScopes (holds : HaveScopes definitions) :
    ∃ parentAt, SpellsScopes definitions parentAt := by
  have everywhere : ∀ place : Nat, ∃ above, ∀ child, definitions[place]? = some child →
      IsScopedAt definitions place child above := by
    intro place
    cases found : definitions[place]? with
    | none => exact ⟨none, fun child isChild => by cases isChild⟩
    | some child =>
        rcases holds place child found with ⟨above, own⟩
        exact ⟨above, fun other isOther => by cases isOther; exact own⟩
  rcases Classical.skolem.mp everywhere with ⟨parentAt, placed⟩
  exact ⟨parentAt, spellsScopes_of_placed placed⟩

/-- Whether what has been matched on some line tells that a definition is named alone: the name
captured there is no path, and there is no receiver. -/
def Definition.IsMatchedIn (language : Language) (definition : Definition) : Prop :=
  ∃ (site : Site) (line : List Char) (pick : Pick), pick.Sound language site line ∧
    definition = { pick.definition with endLine := definition.endLine } ∧
    (definition.IsNamedAlone ↔
      ¬ pick.NamesPath language ∧ Definition.receiver? pick.found = none)

theorem Definition.isMatchedIn_of_recognize? {language : Language} {site : Site} {line : List Char}
    {definition : Definition} {opensBlock : Bool}
    (recognized : recognize? language site line = some (definition, opensBlock)) :
    definition.IsMatchedIn language := by
  rcases recognize?_eq_some recognized with ⟨pick, sound, rfl, -⟩
  exact ⟨site, line, pick, sound, rfl, isNamedAlone_iff_of_sound sound⟩

/-- In every known language and in plain text, the definitions of a file are called after their
parents: one that is named alone has its parent's qualified name, or else its name, in front of its
own, and no qualified name if it has no parent or a section for its parent. So the names of the
scopes around it, from the outermost one inwards, make up its qualified name. Whether it is named
alone can be seen from what has been matched on its line. -/
theorem qualifiedNames_spell_scopes (name fileId content : String) :
    let definitions := extractDefinitions (Language.ofName name) fileId content
    (∃ parentAt, SpellsScopes definitions parentAt) ∧
      ∀ definition ∈ definitions, definition.kind ≠ .sectionBlock →
        definition.IsMatchedIn (Language.ofName definition.language) := by
  refine ⟨(haveScopes_extractDefinitions name fileId content).exists_spellsScopes,
    fun definition found isNoSection => ?_⟩
  let holds : Definition → Prop := fun definition =>
    definition.kind = .sectionBlock ∨
      definition.IsMatchedIn (Language.ofName definition.language)
  suffices all : holds definition from all.resolve_left isNoSection
  refine forall_mem_extractDefinitions ?_ ?_ (fun _ _ => .inl rfl) content definition found
  · rintro definition last (isSection | ⟨site, line, pick, sound, same, alone⟩)
    · exact .inl isSection
    · refine .inr ⟨site, line, pick, sound, ?_, Iff.trans ?_ alone⟩
      · rw [same]
      · exact ⟨fun own => ⟨own.noOwner, own.noReceiver⟩, fun own => ⟨own.noOwner, own.noReceiver⟩⟩
  · intro script isScript site line definition opensBlock _ recognized
    have member : script ∈ Language.plain :: Language.known := by
      rcases isScript with rfl | known
      · exact Language.ofName_mem name
      · exact List.mem_cons_of_mem _ known
    have own : Language.ofName definition.language = script := by
      rw [Definition.language_of_recognize? recognized]
      exact Language.ofName_id member
    exact .inr (own.symm ▸ Definition.isMatchedIn_of_recognize? recognized)

example : (extractDefinitions (Language.ofName "cpp") "f"
    "namespace a \x7b\nclass B \x7b\nvoid f() \x7b\n\x7d\n\x7d;\n\x7d\n").map (·.qualifiedName) =
      [none, some "a::B", some "a::B::f"] := by
  decide +kernel

end SourceIndex
