import SourceIndex.Proofs.Complexity.Bounds
import SourceIndex.Proofs.Decimal.WholeTexts
import SourceIndex.Proofs.Definition.Origins
import SourceIndex.Proofs.Store.Refinement

/-! Nothing that is found in a file is changed by being stored as text: the values that are stored
so are texts, flags, lists of texts and counts. -/

namespace SourceIndex

/-! ## Definitions -/

theorem Definition.isLossless_of_mem_listEntry {name : String} {texts : List String}
    {member : String × Json} (listed : member ∈ listEntry name texts) : member.2.IsLossless := by
  unfold listEntry at listed
  split at listed
  · exact absurd listed List.not_mem_nil
  · rw [List.mem_singleton.mp listed]
    apply Json.IsLossless.array
    intro item isItem
    rcases List.mem_map.mp isItem with ⟨text, -, rfl⟩
    exact .string text

theorem Definition.hasLosslessMetadata_recognized (language : Language) (fileId : String) :
    HoldsRecognized HasLosslessMetadata language fileId := by
  intro site line definition opensBlock inFile recognized
  rcases recognize?_eq_some recognized with ⟨pick, sound, rfl, -⟩
  rcases sound.made with ⟨capture, -, -, made⟩
  rw [← made]
  intro member listed
  change member ∈ metadataOf _ _ _ at listed
  unfold metadataOf at listed
  simp only [List.mem_append, List.mem_map, Option.mem_toList] at listed
  rcases listed with (((⟨_, -, rfl⟩ | ⟨_, -, rfl⟩) | ⟨_, -, rfl⟩) | listed) | listed
  · exact .string _
  · exact .string _
  · exact .string _
  · exact isLossless_of_mem_listEntry listed
  · exact isLossless_of_mem_listEntry listed

theorem hasLosslessMetadata_extractDefinitions (language : Language) (fileId content : String) :
    ∀ definition ∈ extractDefinitions language fileId content,
      definition.HasLosslessMetadata := by
  have sections : ∀ region openingLine,
      (sectionDefinition language fileId region openingLine).HasLosslessMetadata := by
    intro region openingLine member listed
    change member ∈ ("region", _) :: _ ++ _ at listed
    simp only [List.mem_append, List.mem_cons, List.mem_map, Option.mem_toList] at listed
    rcases listed with (rfl | ⟨_, -, rfl⟩) | listed
    · exact .string _
    · exact .string _
    · split at listed
      · rw [List.mem_singleton.mp listed]
        exact .bool true
      · exact absurd listed List.not_mem_nil
  have ignores : Definition.IgnoresEnd Definition.HasLosslessMetadata :=
    fun definition line lossless => lossless
  exact forall_mem_extractDefinitions ignores
    (fun script _ => Definition.hasLosslessMetadata_recognized script fileId) sections content

/-! ## Complexity -/

/-- What is said of a count that is too large consists of whole numbers. -/
theorem ComplexityLimit.isLossless_of_check? {limit : ComplexityLimit} {value : Nat}
    {issue : ComplexityIssue} (judged : limit.check? value = some issue)
    (warning : 0 < limit.warning ∧ limit.warning < 2 ^ 49)
    (error : 0 < limit.error ∧ limit.error < 2 ^ 49) (small : value < 2 ^ 49) :
    (Json.decimal issue.value).IsLossless ∧ (Json.decimal issue.threshold).IsLossless := by
  unfold ComplexityLimit.check? at judged
  simp only at judged
  split at judged
  · next above =>
      cases judged
      exact ⟨Json.isLossless_toFloat (Nat.lt_trans error.1 above) small,
        Json.isLossless_toFloat error.1 error.2⟩
  · split at judged
    · next above =>
        cases judged
        exact ⟨Json.isLossless_toFloat (Nat.lt_trans warning.1 above) small,
          Json.isLossless_toFloat warning.1 warning.2⟩
    · cases judged

theorem isLossless_of_mem_issues {language : Language} {content : String}
    (small : content.toList.length < 2 ^ 46) {issue : ComplexityIssue}
    (member : issue ∈ (measureComplexity language content).issues) :
    (Json.decimal issue.value).IsLossless ∧ (Json.decimal issue.threshold).IsLossless := by
  rcases measureComplexity_le language content with ⟨lines, cyclomatic, nesting⟩
  have tabs : tabWidth = 4 := rfl
  rw [tabs] at nesting
  change issue ∈ [cyclomaticLimit.check? _, nestingLimit.check? _, lengthLimit.check? _].filterMap
    id at member
  rcases List.mem_filterMap.mp member with ⟨judged, isJudged, same⟩
  simp only [List.mem_cons, List.not_mem_nil, or_false] at isJudged
  rcases isJudged with rfl | rfl | rfl
  · refine ComplexityLimit.isLossless_of_check? same (by decide) (by decide) ?_
    exact Nat.lt_of_le_of_lt cyclomatic (by omega)
  · refine ComplexityLimit.isLossless_of_check? same (by decide) (by decide) ?_
    exact Nat.lt_of_le_of_lt nesting (by omega)
  · refine ComplexityLimit.isLossless_of_check? same (by decide) (by decide) ?_
    exact Nat.lt_of_le_of_lt lines (by omega)

/-- What has been found in a text is stored and read back as it is, unless the text is so large that
its counts could not be told exactly. -/
theorem isLossless_analyze (config : ChunkingConfig) (fileId content languageName : String)
    (small : content.toList.length < 2 ^ 46) :
    (analyze config fileId content languageName).IsLossless where
  metadata := hasLosslessMetadata_extractDefinitions _ _ _
  issues _ member := isLossless_of_mem_issues small member

end SourceIndex
