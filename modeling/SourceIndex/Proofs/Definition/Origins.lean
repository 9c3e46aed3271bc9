import SourceIndex.Definition.Extraction
import SourceIndex.Proofs.Definition.Operations
import SourceIndex.Proofs.Definition.Recognition

/-! Every definition of a file has been recognized on one of its lines, or it stands for a region.
What a scan changes of it afterwards is where it ends. -/

namespace SourceIndex

/-- What can be said of definitions whatever lines they end on. -/
def Definition.IgnoresEnd (holds : Definition → Prop) : Prop :=
  ∀ definition line, holds definition → holds { definition with endLine := line }

/-- Whether something holds of whatever is recognized on the lines of a file. -/
def Definition.HoldsRecognized (holds : Definition → Prop) (language : Language) (fileId : String) :
    Prop :=
  ∀ site line definition opensBlock, site.fileId = fileId →
    recognize? language site line = some (definition, opensBlock) → holds definition

variable {holds : Definition → Prop}

/-! ## Findings -/

namespace Findings

/-- Whether something holds of all definitions that have been found. -/
def Satisfy (holds : Definition → Prop) (findings : Findings) : Prop :=
  ∀ (place : Nat) definition, findings.definitions[place]? = some definition → holds definition

theorem satisfy_empty (holds : Definition → Prop) : Satisfy holds {} := by
  intro place definition found
  cases found

namespace Satisfy

variable {findings : Findings}

theorem add (satisfy : findings.Satisfy holds) {definition : Definition} (new : holds definition) :
    (findings.add definition).Satisfy holds := by
  intro place found isFound
  rw [getElem?_add] at isFound
  split at isFound
  · cases isFound
    exact new
  · exact satisfy place found isFound

theorem endAt (satisfy : findings.Satisfy holds) (ignores : Definition.IgnoresEnd holds)
    (definition line : Nat) : (findings.endAt definition line).Satisfy holds := by
  intro place found isFound
  rw [getElem?_endAt] at isFound
  split at isFound
  · rcases Option.map_eq_some_iff.mp isFound with ⟨former, formerFound, rfl⟩
    exact ignores former line (satisfy place former formerFound)
  · exact satisfy place found isFound

theorem endAllAt (satisfy : findings.Satisfy holds) (ignores : Definition.IgnoresEnd holds)
    (closed : List OpenScope) (line : Nat) : (findings.endAllAt closed line).Satisfy holds := by
  intro place found isFound
  rw [getElem?_endAllAt] at isFound
  rcases Option.map_eq_some_iff.mp isFound with ⟨former, formerFound, rfl⟩
  have formerHolds := satisfy place former formerFound
  unfold ended
  split
  · exact ignores former _ formerHolds
  · exact formerHolds

theorem closeFrom (satisfy : findings.Satisfy holds) (ignores : Definition.IgnoresEnd holds)
    (depth line : Nat) : (findings.closeFrom depth line).Satisfy holds :=
  satisfy.endAllAt ignores _ line

theorem toList (satisfy : findings.Satisfy holds) :
    ∀ definition ∈ findings.definitions.toList, holds definition := by
  intro definition member
  rcases List.getElem?_of_mem member with ⟨place, found⟩
  apply satisfy place definition
  rw [← found, Array.getElem?_toList]

end Satisfy

theorem isKeptOn_satisfy {language : Language} {input : ScanInput}
    (ignores : Definition.IgnoresEnd holds)
    (recognized : Definition.HoldsRecognized holds language input.fileId) (line : List Char)
    (lineNumber last : Nat) : IsKeptOn language input line lineNumber last (Satisfy holds) where
  closeFrom _ depth satisfy := satisfy.closeFrom ignores depth last
  openScope _ _ _ satisfy := satisfy
  add _ _ _ _ found satisfy := satisfy.add (recognized _ _ _ _ rfl found)

end Findings

/-! ## Scopes -/

section

variable {language : Language} {input : ScanInput}

theorem forall_mem_scanBraces (ignores : Definition.IgnoresEnd holds)
    (recognized : Definition.HoldsRecognized holds language input.fileId) :
    ∀ definition ∈ scanBraces language input, holds definition := by
  rcases holds_scanBraces (fun line _ => Findings.isKeptOn_satisfy ignores recognized line _ _)
    (fun _ definition line satisfy => satisfy.endAt ignores definition line)
    (fun _ line satisfy => satisfy.endAllAt ignores _ line) (Findings.satisfy_empty holds) with
    ⟨findings, yields, satisfy⟩
  rw [yields]
  exact satisfy.toList

theorem forall_mem_scanIndentation (ignores : Definition.IgnoresEnd holds)
    (recognized : Definition.HoldsRecognized holds language input.fileId) :
    ∀ definition ∈ scanIndentation language input, holds definition := by
  rcases holds_scanIndentation (Findings.isKeptOn_satisfy ignores recognized)
    (fun _ line satisfy => satisfy.endAllAt ignores _ line) (Findings.satisfy_empty holds) with
    ⟨findings, yields, satisfy⟩
  rw [yields]
  exact satisfy.toList

/-! ## Lines that are each taken alone -/

theorem forall_mem_scanPlain
    (recognized : Definition.HoldsRecognized holds language input.fileId) :
    ∀ definition ∈ scanPlain language input, holds definition := by
  intro definition member
  unfold scanPlain at member
  rcases List.mem_filterMap.mp member with ⟨⟨⟨line, stripped⟩, number⟩, -, made⟩
  simp only at made
  split at made
  · cases made
  · rcases Option.map_eq_some_iff.mp made with ⟨⟨found, opensBlock⟩, isFound, rfl⟩
    exact recognized _ _ _ _ rfl isFound

end

/-! ## Files -/

theorem Language.mem_known_of_find? {name : String} {language : Language}
    (found : find? name = some language) : language ∈ known := by
  simp only [find?] at found
  exact List.mem_of_find?_eq_some found

/-- Scripts are in known languages. -/
theorem mem_known_of_scriptLanguage? {language script : Language} {region : Region}
    (isScript : scriptLanguage? language region = some script) : script ∈ Language.known := by
  unfold scriptLanguage? at isScript
  split at isScript
  · split at isScript
    · split at isScript
      · cases isScript
        simp [Language.known]
      · split at isScript
        · cases isScript
          simp [Language.known]
        · cases isScript
    · rcases Option.bind_eq_some_iff.mp isScript with ⟨name, -, found⟩
      exact Language.mem_known_of_find? found
  · cases isScript

/-- What holds of all that is recognized in a language or in a known one, and of all regions, holds
of the definitions of a file. -/
theorem forall_mem_extractDefinitions {language : Language} {fileId : String}
    (ignores : Definition.IgnoresEnd holds)
    (recognized : ∀ script, script = language ∨ script ∈ Language.known →
      Definition.HoldsRecognized holds script fileId)
    (sections : ∀ region openingLine, holds (sectionDefinition language fileId region openingLine))
    (content : String) :
    ∀ definition ∈ extractDefinitions language fileId content, holds definition := by
  have own := recognized language (.inl rfl)
  unfold extractDefinitions
  simp only
  split
  · exact forall_mem_scanBraces ignores own
  · exact forall_mem_scanIndentation ignores own
  · exact forall_mem_scanPlain own
  · intro definition member
    rcases List.mem_flatMap.mp member with ⟨region, -, member⟩
    unfold regionDefinitions at member
    rcases List.mem_cons.mp member with rfl | member
    · exact sections region _
    · revert member
      split
      · next script _ _ isScript _ =>
          have inScript := recognized script (.inr (mem_known_of_scriptLanguage? isScript))
          simp only
          split
          · exact forall_mem_scanIndentation ignores inScript definition
          · exact forall_mem_scanBraces ignores inScript definition
      · exact fun member => absurd member List.not_mem_nil

end SourceIndex
