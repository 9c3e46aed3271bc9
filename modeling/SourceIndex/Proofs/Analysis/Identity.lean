import SourceIndex.Analysis
import SourceIndex.Proofs.Definition.Origins
import SourceIndex.Proofs.Identifier

/-! What the identifiers of all that is found in a file are made of: the identifier of the file
goes before all else. -/

namespace SourceIndex

/-! ## Definitions -/

/-- What the identifier of a definition is made of. -/
def Definition.identity (definition : Definition) : List String :=
  [definition.fileId, definition.kind.tag, definition.qualifiedName.getD definition.name,
    toString definition.startLine]

/-- Whether a definition has been found in a file and bears the identifier that it should. -/
structure Definition.IsIdentified (fileId : String) (definition : Definition) : Prop where
  owned : definition.fileId = fileId
  named : definition.id = stableId definition.identity

theorem Definition.isIdentified_recognized (language : Language) (fileId : String) :
    HoldsRecognized (IsIdentified fileId) language fileId := by
  intro site line definition opensBlock inFile recognized
  rcases recognize?_eq_some recognized with ⟨pick, sound, rfl, -⟩
  rcases sound.made with ⟨capture, -, -, made⟩
  rw [← made]
  exact ⟨inFile, rfl⟩

theorem isIdentified_extractDefinitions (language : Language) (fileId content : String) :
    ∀ definition ∈ extractDefinitions language fileId content,
      definition.IsIdentified fileId := by
  apply forall_mem_extractDefinitions
  · exact fun definition line identified => ⟨identified.owned, identified.named⟩
  · exact fun script _ => Definition.isIdentified_recognized script fileId
  · exact fun region openingLine => ⟨rfl, rfl⟩

/-! ## Dependencies -/

namespace Dependency

/-- What the identifier of a dependency is made of. The ordinal tells it from others of its
statement. -/
def identity (dependency : Dependency) (ordinal : Nat) : List String :=
  [dependency.fileId, "dependency", toString dependency.line, toString ordinal, dependency.target,
    dependency.kind.tag]

/-- Whether a dependency has been found in a file and bears the identifier that it should. -/
structure IsIdentified (fileId : String) (dependency : Dependency) : Prop where
  owned : dependency.fileId = fileId
  named : ∃ ordinal, dependency.id = stableId (dependency.identity ordinal)

section

variable {language : Language} {fileId : String}

theorem isIdentified_make (kind : ImportKind) (statement : Statement) (ordinal : Nat)
    (target : List Char) (names : List ImportedName) (flags : DependencyFlags) :
    (make language fileId kind statement ordinal target names flags).IsIdentified fileId :=
  ⟨rfl, ordinal, rfl⟩

theorem isIdentified_ofMatch? {kind : ImportKind} {isLocal bindsModule : Bool}
    {statement : Statement}
    {found : Pattern.Match} {dependency : Dependency}
    (made : ofMatch? language fileId kind isLocal bindsModule statement found = some dependency) :
    dependency.IsIdentified fileId := by
  unfold ofMatch? at made
  rw [Option.bind_eq_bind, Option.bind_eq_some_iff] at made
  rcases made with ⟨target, -, made⟩
  simp only at made
  split at made
  · cases made
  · cases made
    apply isIdentified_make

theorem isIdentified_ofList {rule : ImportRule} {statement : Statement} {list : List Char}
    {dependency : Dependency} (member : dependency ∈ ofList language fileId rule statement list) :
    dependency.IsIdentified fileId := by
  rcases List.mem_filterMap.mp member with ⟨⟨entry, ordinal⟩, -, made⟩
  simp only at made
  split at made
  · cases made
  · cases made
    apply isIdentified_make

theorem isIdentified_ofStatement {statement : Statement} {dependency : Dependency}
    (member : dependency ∈ ofStatement language fileId statement) :
    dependency.IsIdentified fileId := by
  unfold ofStatement at member
  simp only at member
  split at member
  · exact absurd member List.not_mem_nil
  · split at member
    · exact isIdentified_ofList member
    · exact isIdentified_ofMatch? (Option.mem_toList.mp member)

namespace Scan

variable {scan : Scan}

/-- Whether all that a scan has found bears the identifiers that it should. -/
def IsIdentified (fileId : String) (scan : Scan) : Prop :=
  ∀ dependencies ∈ scan.found, ∀ dependency ∈ dependencies, dependency.IsIdentified fileId

theorem IsIdentified.add (identified : scan.IsIdentified fileId) {dependencies : List Dependency}
    (new : ∀ dependency ∈ dependencies, dependency.IsIdentified fileId) :
    (scan.add dependencies).IsIdentified fileId := by
  intro found member
  rcases List.mem_cons.mp member with rfl | member
  · exact new
  · exact identified found member

theorem IsIdentified.addStatement (identified : scan.IsIdentified fileId) (statement : Statement) :
    (scan.add (ofStatement language fileId statement)).IsIdentified fileId :=
  identified.add fun _ member => isIdentified_ofStatement member

theorem IsIdentified.takePending (identified : scan.IsIdentified fileId) (statement : Statement)
    (line : List Char) : (scan.takePending language fileId statement line).IsIdentified fileId := by
  unfold Scan.takePending
  simp only
  split
  · refine IsIdentified.addStatement ?_ _
    exact identified
  · exact identified

theorem IsIdentified.takeBlockLine (identified : scan.IsIdentified fileId) (block : ImportBlock)
    (line : List Char) : (scan.takeBlockLine language fileId block line).IsIdentified fileId := by
  unfold Scan.takeBlockLine
  split
  · exact identified
  · split
    · apply identified.add
      exact fun dependency member => isIdentified_ofMatch? (Option.mem_toList.mp member)
    · exact identified

theorem IsIdentified.takeStatementLine (identified : scan.IsIdentified fileId) (line : List Char) :
    (scan.takeStatementLine language fileId line).IsIdentified fileId := by
  unfold Scan.takeStatementLine
  split
  · exact identified
  · split
    · exact identified
    · exact identified.addStatement _

theorem IsIdentified.take (identified : scan.IsIdentified fileId) (line : List Char) :
    (scan.take language fileId line).IsIdentified fileId := by
  unfold Scan.take
  simp only
  split
  · exact identified.takePending _ line
  · unfold takeFreeLine
    simp only
    split
    · exact identified
    · split
      · exact identified.takeBlockLine _ line
      · exact identified.takeStatementLine line

theorem IsIdentified.finish (identified : scan.IsIdentified fileId) :
    ∀ dependency ∈ scan.finish language fileId, dependency.IsIdentified fileId := by
  have all : ∀ scan : Scan, scan.IsIdentified fileId →
      ∀ dependency ∈ scan.found.reverse.flatten, dependency.IsIdentified fileId := by
    intro scan identified dependency member
    rcases List.mem_flatten.mp member with ⟨dependencies, found, member⟩
    exact identified dependencies (List.mem_reverse.mp found) dependency member
  unfold Scan.finish
  simp only
  split
  · exact all _ (identified.addStatement _)
  · exact all scan identified

end Scan

end

end Dependency

theorem isIdentified_extractDependencies (language : Language) (fileId content : String) :
    ∀ dependency ∈ extractDependencies language fileId content,
      dependency.IsIdentified fileId := by
  have all : ∀ (lines : List (List Char)) (scan : Dependency.Scan), scan.IsIdentified fileId →
      (lines.foldl (Dependency.Scan.take language fileId) scan).IsIdentified fileId := by
    intro lines
    induction lines with
    | nil => exact fun scan identified => identified
    | cons line lines induction => exact fun scan identified => induction _ (identified.take line)
  have nothing : Dependency.Scan.IsIdentified fileId {} := fun _ member =>
    absurd member List.not_mem_nil
  exact (all _ _ nothing).finish

/-! ## Chunks -/

/-- What the identifier of a chunk is made of. -/
def Chunk.identity (chunk : Chunk) : List String :=
  [chunk.fileId, "chunk", toString chunk.index, toString chunk.startLine, toString chunk.endLine]

/-- Whether a chunk has been cut from a file and bears the identifier that it should. -/
structure Chunk.IsIdentified (fileId : String) (chunk : Chunk) : Prop where
  owned : chunk.fileId = fileId
  named : chunk.id = stableId chunk.identity

theorem isIdentified_splitChunks (config : ChunkingConfig) (language : Language)
    (fileId content : String) :
    ∀ chunk ∈ splitChunks config language fileId content, chunk.IsIdentified fileId := by
  intro chunk member
  unfold splitChunks at member
  simp only at member
  split at member
  · rw [List.mem_singleton.mp member]
    exact ⟨rfl, rfl⟩
  · rcases List.mem_map.mp member with ⟨⟨range, index⟩, -, rfl⟩
    exact ⟨rfl, rfl⟩

end SourceIndex
