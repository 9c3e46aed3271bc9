import SourceIndex.Language.Catalogue
import SourceIndex.Proofs.Definition.Recognition
import SourceIndex.Proofs.Pattern.Reading

/-! What the block of a definition holds, compared with what the rule asks for that has found it.
The rules for namespaces, modules and types say what their blocks hold; the definition has to keep
to that, or else the rules for the members of the block do not apply inside it. A name that is a
path counts as that of a member defined outside of its type, whatever the rule. -/

namespace SourceIndex

/-- Whether the blocks of a kind hold definitions: namespaces, modules and types of all sorts. -/
def DefinitionKind.isContainer (kind : DefinitionKind) : Bool :=
  kind == .namespaceBlock || kind == .moduleBlock || kind.isTypeLike

/-- Whether the block of a definition of the given kind holds what the kind of the rule promises:
the members of a type, or what stands outside of all definitions. -/
def DefinitionKind.KeepsScope (ruleKind kind : DefinitionKind) : Prop :=
  if ruleKind.isTypeLike then ScopeContext.of (some kind) = .inType kind
  else ScopeContext.of (some kind) = .topLevel

namespace Definition

/-- Whether the name that a pick has captured is a path of the language. -/
def Pick.NamesPath (language : Language) (pick : Pick) : Prop :=
  language.separator = "::" ∧ ∃ name, pick.found.text? "name" = some name ∧
    Text.contains (Text.trim name) [':', ':'] = true

theorem owner_of_eq_none_iff (language : Language) (name : List Char) :
    (WrittenName.of language name).owner = none ↔
      ¬ (language.separator = "::" ∧ Text.contains name [':', ':'] = true) := by
  unfold WrittenName.of
  split
  · next isPath => simpa using isPath
  · next isPlain => simpa using isPlain

/-! ## Kinds -/

theorem isCallable_memberKind (name : String) (owner : List (List Char)) :
    (memberKind name owner).isCallable = true := by
  unfold memberKind
  split
  · rfl
  · split <;> rfl

/-- What can be called stays so, whatever its name and site make of it. -/
theorem isCallable_callableKind {kind : DefinitionKind} (callable : kind.isCallable = true)
    (language : Language) (site : Site) (name : String) :
    (callableKind language site kind name).isCallable = true := by
  have special : ∀ kind : DefinitionKind, kind.isCallable = true →
      (if kind ∈ [.method, .function, .constructor] then
        if language.constructorNames.contains name then .constructor
        else if language.destructorNames.contains name || startsWithTilde name then .destructor
        else kind
      else kind).isCallable = true := by
    intro kind callable
    split
    · split
      · rfl
      · split
        · rfl
        · exact callable
    · exact callable
  unfold callableKind
  apply special
  split
  · rfl
  · exact callable

theorem callableKind_eq_self {kind : DefinitionKind} (container : kind.isContainer = true)
    (language : Language) (site : Site) (name : String) :
    callableKind language site kind name = kind := by
  cases kind <;> cases container <;> rfl

section KindOf

variable {language : Language} {rule : DefinitionRule} {site : Site} {found : Pattern.Match}
  {written : WrittenName} {line : List Char}

/-- Without a path the kind is that of the rule, unless the match says that it is an enumeration. -/
theorem kindOf_of_owner_none (container : rule.kind.isContainer = true)
    (plain : written.owner = none) :
    kindOf language rule site found written line =
      if (found.capture? "enumkw").isSome then .enumType else rule.kind := by
  unfold kindOf
  simp only [plain, callableKind_eq_self container]
  cases kind : rule.kind <;> rw [kind] at container <;> cases container <;> rfl

theorem kindOf_of_owner_some {owner : List (List Char)} (path : written.owner = some owner)
    (unmarked : found.capture? "enumkw" = none) :
    (kindOf language rule site found written line).isCallable = true := by
  have callable := isCallable_callableKind (isCallable_memberKind written.name owner) language site
    written.name
  unfold kindOf
  simp only [path, unmarked, Option.isNone_some, Bool.and_false, Bool.false_and]
  generalize callableKind language site _ written.name = kind at callable ⊢
  cases kind <;> cases callable <;> rfl

end KindOf

/-! ## The rules of the known languages -/

/-- In no known language does a match say of a namespace or module, or beside a path, that it is an
enumeration. -/
theorem enumkw_not_mem_names {language : Language} (known : language ∈ Language.known)
    {rule : DefinitionRule} (member : rule ∈ language.rules)
    (unmarked : rule.kind.isTypeLike = false ∨ language.separator = "::") :
    "enumkw" ∉ rule.pattern.names := by
  have checked : ∀ language ∈ Language.known, ∀ rule ∈ language.rules,
      rule.kind.isTypeLike = false ∨ language.separator = "::" →
        "enumkw" ∉ rule.pattern.names := by
    decide +kernel
  exact checked language known rule member unmarked

/-! ## Picks of containers -/

theorem scope_of_isCallable {kind : DefinitionKind} (callable : kind.isCallable = true) :
    ScopeContext.of (some kind) = .inFunction := by
  cases kind <;> cases callable <;> rfl

theorem keepsScope_self {kind : DefinitionKind} (container : kind.isContainer = true) :
    kind.KeepsScope kind := by
  cases kind <;> cases container <;> rfl

theorem not_keepsScope_of_isCallable {ruleKind kind : DefinitionKind}
    (callable : kind.isCallable = true) : ¬ ruleKind.KeepsScope kind := by
  unfold DefinitionKind.KeepsScope
  rw [scope_of_isCallable callable]
  split <;> nofun

/-- A definition made by a rule for namespaces, modules or types holds what the rule promises
exactly if its name is no path. If it is one, the block counts as the body of a function. -/
theorem keepsScope_iff_not_namesPath {language : Language} (known : language ∈ Language.known)
    {site : Site} {line : List Char} {pick : Pick}
    (picked : pick? language site line = some pick)
    (container : pick.rule.kind.isContainer = true) :
    (pick.rule.kind.KeepsScope pick.definition.kind ↔ ¬ pick.NamesPath language) ∧
      (pick.NamesPath language → ScopeContext.of (some pick.definition.kind) = .inFunction) := by
  have sound := pick?_sound picked
  rcases sound.made with ⟨capture, captured, -, made⟩
  have kind : pick.definition.kind = kindOf language pick.rule site pick.found
      (WrittenName.of language (Text.trim capture.text)) line := by
    rw [← made]
    rfl
  have path : pick.NamesPath language ↔
      (WrittenName.of language (Text.trim capture.text)).owner ≠ none := by
    rw [ne_eq, owner_of_eq_none_iff, Classical.not_not]
    unfold Pick.NamesPath Pattern.Match.text?
    simp [captured]
  cases owner : (WrittenName.of language (Text.trim capture.text)).owner with
  | none =>
      have plain : ¬ pick.NamesPath language := fun isPath => path.mp isPath owner
      refine ⟨⟨fun _ => plain, fun _ => ?_⟩, fun isPath => absurd isPath plain⟩
      rw [kind, kindOf_of_owner_none container owner]
      split
      · next marked =>
          -- The mark of an enumeration stands in rules for types only.
          cases typeLike : pick.rule.kind.isTypeLike with
          | true => rw [DefinitionKind.KeepsScope, if_pos typeLike]; rfl
          | false =>
              have foreign := enumkw_not_mem_names known sound.known (.inl typeLike)
              rw [Pattern.capture?_eq_none sound.matched foreign] at marked
              cases marked
      · exact keepsScope_self container
  | some segments =>
      have isPath : pick.NamesPath language := path.mpr (by rw [owner]; nofun)
      have unmarked := Pattern.capture?_eq_none sound.matched
        (enumkw_not_mem_names known sound.known (.inr isPath.1))
      have callable : pick.definition.kind.isCallable = true := by
        rw [kind]
        exact kindOf_of_owner_some owner unmarked
      exact ⟨⟨fun keeps => absurd keeps (not_keepsScope_of_isCallable callable),
        fun plain => absurd isPath plain⟩, fun _ => scope_of_isCallable callable⟩

/-- The site of a line outside of all definitions. -/
def topSite : Site := ⟨"f", 1, .topLevel, none, []⟩

/-- A nested namespace of C++ loses its scope, and so does an implementation for a type that Rust
names by a path. -/
theorem not_keepsScope_of_path_names :
    (∃ pick, pick? Language.cpp topSite "namespace a::b \x7b".toList = some pick ∧
      pick.rule.kind = .namespaceBlock ∧ ¬ pick.rule.kind.KeepsScope pick.definition.kind) ∧
    (∃ pick, pick? Language.rust topSite "impl a::B \x7b".toList = some pick ∧
      pick.rule.kind = .implBlock ∧ ¬ pick.rule.kind.KeepsScope pick.definition.kind) := by
  -- What is asked of a pick is evaluated beside its definition, which need not be compared.
  have decided : ∀ (language : Language) (line name : List Char) (kind : DefinitionKind),
      language ∈ Language.known → kind.isContainer = true → language.separator = "::" →
      Text.contains (Text.trim name) [':', ':'] = true →
      (pick? language topSite line).map (fun pick => (pick.rule.kind, pick.found.text? "name")) =
        some (kind, some name) →
      ∃ pick, pick? language topSite line = some pick ∧ pick.rule.kind = kind ∧
        ¬ pick.rule.kind.KeepsScope pick.definition.kind := by
    intro language line name kind known container separator path evaluated
    rcases Option.map_eq_some_iff.mp evaluated with ⟨pick, picked, same⟩
    rcases Prod.mk.inj same with ⟨rfl, captured⟩
    refine ⟨pick, picked, rfl, fun keeps => ?_⟩
    exact (keepsScope_iff_not_namesPath known picked container).1.mp keeps
      ⟨separator, name, captured, path⟩
  constructor
  · exact decided _ _ "a::b".toList _ (by simp [Language.known]) rfl rfl (by decide)
      (by decide +kernel)
  · exact decided _ _ "a::B".toList _ (by simp [Language.known]) rfl rfl (by decide)
      (by decide +kernel)

end Definition

end SourceIndex
