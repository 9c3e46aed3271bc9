import SourceIndex.Definition.Recognition

/-! What is known of a definition that has been recognized on a line. -/

namespace SourceIndex.Definition

/-! ## Matches that make a definition -/

theorem ofMatch?_eq_some {language : Language} {rule : DefinitionRule} {site : Site}
    {line : List Char} {found : Pattern.Match} {definition : Definition}
    (made : ofMatch? language rule site line found = some definition) :
    ∃ capture, found.capture? "name" = some capture ∧
      isRefused language rule site found (Text.trim capture.text) = false ∧
      ofCapture language rule site line found capture = definition := by
  simp only [ofMatch?, Option.bind_eq_bind, Option.bind_eq_some_iff] at made
  rcases made with ⟨capture, captured, made⟩
  split at made
  · cases made
  · next accepted =>
      exact ⟨capture, captured, by simpa using accepted, Option.some.inj made⟩

/-! ## Picks -/

/-- What a pick goes by: a rule of the language that the scope admits, its match, and the name
that the match has captured. -/
structure Pick.Sound (language : Language) (site : Site) (line : List Char) (pick : Pick) :
    Prop where
  known : pick.rule ∈ language.rules
  admitted : pick.rule.context.admits site.scope = true
  matched : pick.rule.pattern.find? line = some pick.found
  made : ∃ capture, pick.found.capture? "name" = some capture ∧
    isRefused language pick.rule site pick.found (Text.trim capture.text) = false ∧
    ofCapture language pick.rule site line pick.found capture = pick.definition

theorem pick?_sound {language : Language} {site : Site} {line : List Char} {pick : Pick}
    (picked : pick? language site line = some pick) : pick.Sound language site line := by
  rcases List.exists_of_findSome?_eq_some picked with ⟨rule, member, made⟩
  rcases List.mem_filter.mp member with ⟨known, admitted⟩
  simp only [Option.bind_eq_bind, Option.pure_def, Option.bind_eq_some_iff] at made
  rcases made with ⟨found, matched, definition, made, equal⟩
  cases equal
  exact ⟨known, admitted, matched, ofMatch?_eq_some made⟩

theorem recognize?_eq_some {language : Language} {site : Site} {line : List Char}
    {definition : Definition} {opensBlock : Bool}
    (recognized : recognize? language site line = some (definition, opensBlock)) :
    ∃ pick : Pick, pick.Sound language site line ∧ pick.definition = definition ∧
      pick.rule.opensBlock = opensBlock := by
  rcases Option.map_eq_some_iff.mp recognized with ⟨pick, picked, equal⟩
  cases equal
  exact ⟨pick, pick?_sound picked, rfl, rfl⟩

/-- What is picked starts on its line. It has the enclosing definition for its
parent, or none if it names a receiver. -/
theorem parentId_of_pick? {language : Language} {site : Site} {line : List Char} {pick : Pick}
    (picked : pick? language site line = some pick) :
    pick.definition.startLine = site.lineNumber ∧
      pick.definition.parentId = if (pick.found.capture? "recv").isSome then none
        else site.parent.map (·.id) := by
  rcases (pick?_sound picked).made with ⟨capture, -, -, made⟩
  rw [← made]
  refine ⟨rfl, ?_⟩
  simp only [ofCapture]
  split <;> rfl

/-! ## What a definition has from its site -/

section Site

variable {language : Language} {site : Site} {line : List Char} {definition : Definition}
  {opensBlock : Bool}

theorem startLine_of_recognize?
    (recognized : recognize? language site line = some (definition, opensBlock)) :
    definition.startLine = site.lineNumber := by
  rcases recognize?_eq_some recognized with ⟨pick, sound, rfl, -⟩
  rcases sound.made with ⟨capture, -, -, made⟩
  rw [← made]
  rfl

theorem language_of_recognize?
    (recognized : recognize? language site line = some (definition, opensBlock)) :
    definition.language = language.id := by
  rcases recognize?_eq_some recognized with ⟨pick, sound, rfl, -⟩
  rcases sound.made with ⟨capture, -, -, made⟩
  rw [← made]
  rfl

/-- A method that names its receiver has no parent; any other definition has the enclosing one. -/
theorem parentId_of_recognize?
    (recognized : recognize? language site line = some (definition, opensBlock)) :
    definition.parentId = none ∨ definition.parentId = site.parent.map (·.id) := by
  rcases recognize?_eq_some recognized with ⟨pick, sound, rfl, -⟩
  rcases sound.made with ⟨capture, -, -, made⟩
  rw [← made]
  simp only [ofCapture]
  split
  · exact .inl rfl
  · exact .inr rfl

end Site

end SourceIndex.Definition
