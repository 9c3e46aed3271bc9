import SourceIndex.Proofs.Definition.Order
import SourceIndex.Proofs.Dependency.Numbering

/-! No two findings of a file have the same identifier: what tells them apart is part of what their
identifiers are made of. -/

namespace SourceIndex

/-- Whether the lists of parts of which all identifiers of an analysis are made are among some
texts. -/
structure Analysis.IdentifiesBy (analysis : Analysis) (texts : List (List String)) : Prop where
  definitions : ∀ definition ∈ analysis.definitions, definition.identity ∈ texts
  dependencies : ∃ numbered, Dependency.Numbers numbered analysis.dependencies ∧
    ∀ entry ∈ numbered, entry.1.identity entry.2 ∈ texts
  chunks : ∀ chunk ∈ analysis.chunks, chunk.identity ∈ texts

theorem eq_of_toString_eq {number other : Nat} (same : toString number = toString other) :
    number = other := by
  have digits : Nat.toDigits 10 number = Nat.toDigits 10 other := by
    rw [← Nat.toList_repr, ← Nat.toList_repr]
    exact congrArg String.toList same
  rw [← Nat.ofDigitChars_ten_toDigits (n := number), digits, Nat.ofDigitChars_ten_toDigits]

/-! ## Definitions -/

/-- Definitions whose identifiers are made of the same bytes start on one line. -/
theorem Definition.startLine_eq_of_identifierBytes {definition other : Definition}
    (same : identifierBytes definition.identity = identifierBytes other.identity) :
    definition.startLine = other.startLine := by
  have lines := @last_eq_of_identifierBytes
    [definition.fileId, definition.kind.tag, definition.qualifiedName.getD definition.name]
    [other.fileId, other.kind.tag, other.qualifiedName.getD other.name] _ _
    (zero_not_mem_bytesOf_toString _) (zero_not_mem_bytesOf_toString _) (List.cons_ne_nil _ _)
    (List.cons_ne_nil _ _) same
  exact eq_of_toString_eq lines

theorem nodup_definitionBytes {definitions : List Definition} (goUp : StartsGoUp definitions) :
    (definitions.map fun definition => identifierBytes definition.identity).Nodup := by
  rw [List.Nodup, List.pairwise_map]
  apply goUp.imp
  intro definition later before same
  exact Nat.ne_of_lt before (Definition.startLine_eq_of_identifierBytes same)

/-! ## Dependencies -/

/-- Dependencies of a file whose identifiers are made of the same bytes have the same line and the
same place in their statements. -/
theorem Dependency.place_eq_of_identifierBytes {dependency other : Dependency}
    {ordinal otherOrdinal : Nat} (sameFile : dependency.fileId = other.fileId)
    (same : identifierBytes (dependency.identity ordinal) =
      identifierBytes (other.identity otherOrdinal)) :
    dependency.line = other.line ∧ ordinal = otherOrdinal := by
  rw [identity, identity, sameFile] at same
  have behind := identifierBytes_tail (identifierBytes_tail same)
  rcases split_identifierBytes (zero_not_mem_bytesOf_toString _) (zero_not_mem_bytesOf_toString _)
    behind with ⟨lines, rest⟩
  have ordinals := (split_identifierBytes (zero_not_mem_bytesOf_toString _)
    (zero_not_mem_bytesOf_toString _) rest).1
  exact ⟨eq_of_toString_eq lines, eq_of_toString_eq ordinals⟩

theorem Dependency.Numbers.nodup_bytes {fileId : String} {dependencies : List Dependency}
    {numbered : List (Dependency × Nat)} (numbers : Numbers numbered dependencies)
    (owned : ∀ dependency ∈ dependencies, dependency.fileId = fileId) :
    (numbered.map fun entry => identifierBytes (entry.1.identity entry.2)).Nodup := by
  have fileOf : ∀ entry ∈ numbered, entry.1.fileId = fileId := by
    intro entry member
    apply owned
    rw [← numbers.all]
    exact List.mem_map_of_mem member
  rw [List.Nodup, List.pairwise_map]
  apply numbers.goUp.imp_of_mem
  intro entry later member laterMember before same
  have sameFile := (fileOf entry member).trans (fileOf later laterMember).symm
  rcases place_eq_of_identifierBytes sameFile same with ⟨lines, ordinals⟩
  omega

/-! ## Chunks -/

theorem Chunk.index_eq_of_identifierBytes {chunk other : Chunk}
    (sameFile : chunk.fileId = other.fileId)
    (same : identifierBytes chunk.identity = identifierBytes other.identity) :
    chunk.index = other.index := by
  rw [identity, identity, sameFile] at same
  have behind := identifierBytes_tail (identifierBytes_tail same)
  exact eq_of_toString_eq (split_identifierBytes (zero_not_mem_bytesOf_toString _)
    (zero_not_mem_bytesOf_toString _) behind).1

theorem pairwise_index_splitChunks (config : ChunkingConfig) (language : Language)
    (fileId content : String) :
    (splitChunks config language fileId content).Pairwise fun chunk later =>
      chunk.index < later.index := by
  unfold splitChunks
  simp only
  split
  · exact List.pairwise_singleton _ _
  · have places : ∀ ranges : List LineRange,
        ranges.zipIdx.Pairwise fun entry later => entry.2 < later.2 := by
      intro ranges
      rw [← List.pairwise_map, List.zipIdx_map_snd]
      exact List.pairwise_lt_range'
    rw [List.pairwise_map]
    exact (places _).imp id

theorem nodup_chunkBytes {fileId : String} {chunks : List Chunk}
    (goUp : chunks.Pairwise fun chunk later => chunk.index < later.index)
    (owned : ∀ chunk ∈ chunks, chunk.fileId = fileId) :
    (chunks.map fun chunk => identifierBytes chunk.identity).Nodup := by
  rw [List.Nodup, List.pairwise_map]
  apply goUp.imp_of_mem
  intro chunk later member laterMember before same
  have sameFile := (owned chunk member).trans (owned later laterMember).symm
  exact Nat.ne_of_lt before (Chunk.index_eq_of_identifierBytes sameFile same)

/-! ## Identifiers -/

/-- Findings whose identifiers are made of different bytes have different identifiers. -/
theorem IdentifiersDiffer.nodup_ids {α : Type} {texts : List (List String)}
    (differ : IdentifiersDiffer texts) {items : List α} {idOf : α → String}
    {identity : α → List String} (named : ∀ item ∈ items, idOf item = stableId (identity item))
    (known : ∀ item ∈ items, identity item ∈ texts)
    (distinct : (items.map fun item => identifierBytes (identity item)).Nodup) :
    (items.map idOf).Nodup := by
  have ids : items.map idOf = (items.map identity).map stableId := by
    rw [List.map_map]
    exact List.map_congr_left named
  rw [ids]
  apply differ.nodup_stableId
  · rwa [List.forall_mem_map]
  · rwa [List.map_map]

/-! ## Analyses -/

variable (config : ChunkingConfig) (fileId content languageName : String)

theorem Analysis.IdentifiesBy.mono {analysis : Analysis} {texts larger : List (List String)}
    (identifies : analysis.IdentifiesBy texts) (within : ∀ parts ∈ texts, parts ∈ larger) :
    analysis.IdentifiesBy larger where
  definitions definition member := within _ (identifies.definitions definition member)
  dependencies := by
    rcases identifies.dependencies with ⟨numbered, numbers, known⟩
    exact ⟨numbered, numbers, fun entry member => within _ (known entry member)⟩
  chunks chunk member := within _ (identifies.chunks chunk member)

/-- Whatever is found in a text, there are texts of which its identifiers are made. -/
theorem exists_identifiesBy :
    ∃ texts, (analyze config fileId content languageName).IdentifiesBy texts := by
  rcases Dependency.exists_numbers (Language.ofName languageName) fileId content with
    ⟨numbered, numbers⟩
  let found := analyze config fileId content languageName
  refine ⟨found.definitions.map (·.identity) ++ numbered.map (fun entry => entry.1.identity entry.2)
    ++ found.chunks.map (·.identity), ?_, ⟨numbered, numbers, ?_⟩, ?_⟩
  · exact fun definition member => List.mem_append_left _ (List.mem_append_left _
      (List.mem_map_of_mem member))
  · intro entry member
    apply List.mem_append_left
    apply List.mem_append_right
    exact List.mem_map.mpr ⟨entry, member, rfl⟩
  · exact fun chunk member => List.mem_append_right _ (List.mem_map_of_mem member)

/-- Whether all findings of an analysis have identifiers of their own. -/
structure Analysis.IsDistinct (analysis : Analysis) : Prop where
  definitions : (analysis.definitions.map (·.id)).Nodup
  dependencies : (analysis.dependencies.map (·.id)).Nodup
  chunks : (analysis.chunks.map (·.id)).Nodup

theorem isDistinct_analyze {texts : List (List String)} (differ : IdentifiersDiffer texts)
    (identifies : (analyze config fileId content languageName).IdentifiesBy texts) :
    (analyze config fileId content languageName).IsDistinct where
  definitions := differ.nodup_ids
    (fun definition member => (isIdentified_extractDefinitions _ _ _ definition member).named)
    identifies.definitions (nodup_definitionBytes (startsGoUp_extractDefinitions _ _ _))
  dependencies := by
    rcases identifies.dependencies with ⟨numbered, numbers, known⟩
    rw [← numbers.all, List.map_map]
    exact differ.nodup_ids numbers.named known (numbers.nodup_bytes fun dependency member =>
      (isIdentified_extractDependencies _ _ _ dependency member).owned)
  chunks := differ.nodup_ids
    (fun chunk member => (isIdentified_splitChunks _ _ _ _ chunk member).named)
    identifies.chunks (nodup_chunkBytes (pairwise_index_splitChunks _ _ _ _)
      fun chunk member => (isIdentified_splitChunks _ _ _ _ chunk member).owned)

end SourceIndex
