import SourceIndex.Proofs.Definition.Origins
import SourceIndex.Proofs.Definition.ScopeKinds
import SourceIndex.Proofs.Text.Pieces

/-! Words that a language denies as names. What a line gives as a name is never such a word, but a
path counts as a whole: its last segment, which is the name of the definition, may be one. -/

namespace SourceIndex

namespace Language

/-- The known languages and plain text are found by their names. -/
theorem ofName_id {language : Language} (member : language ∈ plain :: known) :
    ofName language.id = language := by
  simp only [known, List.mem_cons, List.not_mem_nil, or_false] at member
  rcases member with rfl | rfl | rfl | rfl | rfl | rfl | rfl | rfl | rfl | rfl | rfl | rfl | rfl |
    rfl | rfl | rfl | rfl <;> rfl

theorem ofName_mem (name : String) : ofName name ∈ plain :: known := by
  unfold ofName
  cases found : find? name with
  | none => exact List.mem_cons_self
  | some language => exact List.mem_cons_of_mem _ (mem_known_of_find? found)

/-- Where paths are written with double colons, no rule knows of receivers. -/
theorem recv_not_mem_names {language : Language} (member : language ∈ plain :: known)
    (paths : language.separator = "::") {rule : DefinitionRule} (isRule : rule ∈ language.rules) :
    "recv" ∉ rule.pattern.names := by
  have checked : ∀ language ∈ plain :: known, language.separator = "::" →
      ∀ rule ∈ language.rules, "recv" ∉ rule.pattern.names := by
    decide +kernel
  exact checked language member paths rule isRule

end Language

namespace Definition

/-- Whether a definition is named by a path that the language does not deny: its owner, double
colons, and its name. -/
structure IsNamedByPath (language : Language) (owner : String) (definition : Definition) : Prop where
  paths : language.separator = "::"
  owned : ("owner", .string owner) ∈ definition.metadata
  qualified : definition.qualifiedName = some (owner ++ "::" ++ definition.name)
  allowed : language.denies (owner ++ "::" ++ definition.name) = false

/-- A name that is no path is taken as it is written. -/
theorem WrittenName.name_of_owner_none {language : Language} {name : List Char}
    (plain : (WrittenName.of language name).owner = none) :
    (WrittenName.of language name).name = String.ofList name := by
  unfold WrittenName.of at plain ⊢
  split
  · next isPath => simp [isPath] at plain
  · rfl

/-- A path is its owner, double colons, and the name that it gives. -/
theorem WrittenName.path_of_owner_some {language : Language} {name : List Char}
    {owner : List (List Char)} (path : (WrittenName.of language name).owner = some owner) :
    language.separator = "::" ∧ String.ofList name =
      String.ofList ([':', ':'].intercalate owner) ++ "::" ++ (WrittenName.of language name).name := by
  unfold WrittenName.of at path ⊢
  split
  · next isPath =>
      simp only [if_pos isPath, Option.some.injEq] at path
      rw [Bool.and_eq_true, decide_eq_true_iff] at isPath
      rcases Text.eq_of_contains (List.cons_ne_nil ':' [':']) isPath.2 with ⟨last, isLast, whole⟩
      refine ⟨isPath.1, (congrArg String.ofList whole).trans ?_⟩
      simp only [isLast, path, Option.getD_some, String.ofList_append]
  · next noPath =>
      rw [if_neg noPath] at path
      cases path

/-- What is recognized has a name that the language does not deny, unless a path names it. -/
theorem denies_or_isNamedByPath {language : Language}
    (member : language ∈ Language.plain :: Language.known) {site : Site} {line : List Char}
    {definition : Definition} {opensBlock : Bool}
    (recognized : recognize? language site line = some (definition, opensBlock)) :
    language.denies definition.name = false ∨
      ∃ owner, definition.IsNamedByPath language owner := by
  rcases recognize?_eq_some recognized with ⟨pick, sound, rfl, -⟩
  rcases sound.made with ⟨capture, -, accepted, made⟩
  have allowed : language.denies (String.ofList (Text.trim capture.text)) = false := by
    simp only [isRefused, Bool.or_eq_false_iff] at accepted
    exact accepted.1.1.2
  rw [← made]
  cases owner : (WrittenName.of language (Text.trim capture.text)).owner with
  | none =>
      left
      rw [← WrittenName.name_of_owner_none owner] at allowed
      exact allowed
  | some segments =>
      right
      rcases WrittenName.path_of_owner_some owner with ⟨paths, whole⟩
      have noReceiver : pick.found.capture? "recv" = none :=
        Pattern.capture?_eq_none sound.matched (Language.recv_not_mem_names member paths sound.known)
      refine ⟨String.ofList ([':', ':'].intercalate segments), paths, ?_, ?_, ?_⟩
      · simp [ofCapture, metadataOf, owner]
      · rw [show (ofCapture language pick.rule site line pick.found capture).name =
          (WrittenName.of language (Text.trim capture.text)).name from rfl, ← whole]
        simp [ofCapture, qualifiedNameOf, receiver?, Pattern.Match.text?, noReceiver, owner]
      · exact whole ▸ allowed

end Definition

/-- In every known language and in plain text, what is found in a file, the sections of documents
apart, has a name that its language does not deny, or is named by a path that its language does not
deny. Only the last segment of a path may be a word that is never a name. -/
theorem names_denied_in_paths_only (name fileId content : String) :
    ∀ definition ∈ extractDefinitions (Language.ofName name) fileId content,
      definition.kind ≠ .sectionBlock →
        let own := Language.ofName definition.language
        own.denies definition.name = false ∨ ∃ owner, definition.IsNamedByPath own owner := by
  intro definition found isNoSection
  let holds : Definition → Prop := fun definition =>
    definition.kind = .sectionBlock ∨
      let own := Language.ofName definition.language
      own.denies definition.name = false ∨ ∃ owner, definition.IsNamedByPath own owner
  suffices all : holds definition from all.resolve_left isNoSection
  refine forall_mem_extractDefinitions ?_ ?_ (fun _ _ => .inl rfl) content definition found
  · intro definition line
    rintro (isSection | allowed | ⟨owner, paths, owned, qualified, allowed⟩)
    · exact .inl isSection
    · exact .inr (.inl allowed)
    · exact .inr (.inr ⟨owner, paths, owned, qualified, allowed⟩)
  · intro script isScript site line definition opensBlock _ recognized
    have member : script ∈ Language.plain :: Language.known := by
      rcases isScript with rfl | known
      · exact Language.ofName_mem name
      · exact List.mem_cons_of_mem _ known
    have named : Language.ofName definition.language = script := by
      rw [Definition.language_of_recognize? recognized]
      exact Language.ofName_id member
    have either := Definition.denies_or_isNamedByPath member recognized
    rw [← named] at either
    exact .inr either

/-- The call operator of a class, defined outside of the class: `operator` is never a name in C++. -/
theorem names_denied_of_callOperator :
    ∃ definition ∈ extractDefinitions (Language.ofName "cpp") "f"
        "void Foo::operator()(int x) \x7b\n\x7d\n",
      Language.cpp.denies definition.name = true ∧
        ∃ owner, definition.IsNamedByPath .cpp owner := by
  have shown : (extractDefinitions (Language.ofName "cpp") "f"
      "void Foo::operator()(int x) \x7b\n\x7d\n").map
        (fun definition => (definition.name, definition.kind, definition.language)) =
      [("operator", .method, "cpp")] := by
    decide +kernel
  rcases List.map_eq_singleton_iff.mp shown with ⟨definition, alone, same⟩
  simp only [Prod.mk.injEq] at same
  rcases same with ⟨isOperator, isMethod, inCpp⟩
  have member := List.mem_singleton_self definition
  rw [← alone] at member
  have denied : Language.cpp.denies definition.name = true := by
    rw [isOperator]
    decide +kernel
  have named : Language.ofName definition.language = .cpp := by
    rw [inCpp]
    rfl
  have isNoSection : definition.kind ≠ .sectionBlock := by
    rw [isMethod]
    decide
  have either := names_denied_in_paths_only "cpp" "f" _ definition member isNoSection
  rw [named] at either
  refine ⟨definition, member, denied, either.resolve_left fun allowed => ?_⟩
  rw [denied] at allowed
  cases allowed

end SourceIndex
