import SourceIndex.Proofs.Chunk.Regions
import SourceIndex.Proofs.Text.Lines

/-! Where chunks stand in a file. The offsets of a chunk are those of its text, whatever the lines
of the file end with: between them there are its lines, and carriage returns in front of line
feeds. -/

namespace SourceIndex

/-! ## Stretches of lines -/

/-- Every stretch that becomes a chunk is a window on the lines of the file. -/
theorem ChunkingConfig.isWindow_of_mem_ranges (config : ChunkingConfig) (language : Language)
    {lines : List (List Char)} (filled : lines ≠ []) {range : LineRange}
    (member : range ∈ config.ranges language lines) : range.IsWindow config 0 lines.length := by
  have positive := List.length_pos_iff.mpr filled
  have all : lines.length - 1 + 1 = lines.length := Nat.sub_add_cancel positive
  have windows : ∀ range ∈ config.windows 0 (lines.length - 1) none,
      range.IsWindow config 0 lines.length := by
    intro range isWindow
    have within := (config.of_mem_windows none (Nat.zero_le _) isWindow).1
    rwa [all] at within
  rw [ranges] at member
  split at member
  · next short =>
      rw [List.mem_singleton.mp member]
      constructor <;> simp only <;> omega
  · split at member
    · split at member
      · exact windows range member
      · exact (config.of_mem_regionWindows (Region.inOrder_findAll lines) member).1
    · exact windows range member

theorem ChunkingConfig.goUp_ranges (config : ChunkingConfig) (language : Language)
    (lines : List (List Char)) : LineRange.GoUp (config.ranges language lines) := by
  rw [ranges]
  split
  · exact List.pairwise_singleton _ _
  · split
    · split
      · exact config.goUp_windows _ _ none
      · exact config.goUp_regionWindows (Region.inOrder_findAll lines)
    · exact config.goUp_windows _ _ none

/-- A text is cut into as many stretches as it has lines at the most. -/
theorem ChunkingConfig.length_ranges_le (config : ChunkingConfig) (language : Language)
    {lines : List (List Char)} (filled : lines ≠ []) :
    (config.ranges language lines).length ≤ lines.length := by
  have distinct : ((config.ranges language lines).map (·.first)).Nodup :=
    List.pairwise_map.mpr ((config.goUp_ranges language lines).imp Nat.ne_of_lt)
  have within : (config.ranges language lines).map (·.first) ⊆ List.range lines.length := by
    intro first member
    rcases List.mem_map.mp member with ⟨range, isRange, rfl⟩
    have isWindow := config.isWindow_of_mem_ranges language filled isRange
    exact List.mem_range.mpr (Nat.lt_of_le_of_lt isWindow.order isWindow.high)
  have count := (List.subperm_of_subset distinct within).length_le
  rwa [List.length_map, List.length_range] at count

/-! ## Chunks -/

/-- Whether a chunk stands where it says in a text: its lines are lines of the text, it consists of
them, and they are what lies between its offsets. A text without lines counts as one line. -/
structure Chunk.StandsIn (content : String) (chunk : Chunk) : Prop where
  lines : 1 ≤ chunk.startLine ∧ chunk.startLine ≤ chunk.endLine ∧
    chunk.endLine ≤ max (Text.lines content.toList).length 1
  joined : chunk.content.toList =
    Text.joinLines ((Text.lines content.toList).extract (chunk.startLine - 1) chunk.endLine)
  offsets : chunk.startOffset ≤ chunk.endOffset ∧ chunk.endOffset ≤ content.length
  addressed : Text.withoutReturns (content.toList.extract chunk.startOffset chunk.endOffset) =
    chunk.content.toList

theorem Chunk.index_lt_of_mem_splitChunks {config : ChunkingConfig} {language : Language}
    {fileId content : String} {chunk : Chunk}
    (member : chunk ∈ splitChunks config language fileId content) :
    chunk.index < max (Text.lines content.toList).length 1 := by
  have isPlace := List.mem_map_of_mem (f := Chunk.index) member
  rw [map_index_splitChunks, List.mem_range] at isPlace
  apply Nat.lt_of_lt_of_le isPlace
  simp only [splitChunks, List.isEmpty_iff]
  split
  · exact Nat.le_max_right _ _
  · next filled =>
      rw [List.length_map, List.length_zipIdx]
      exact (config.length_ranges_le language filled).trans (Nat.le_max_left _ _)

/-- The last line of a stretch is the last one of its chunk. -/
theorem Chunk.getLast?_own {lines : List (List Char)} {first last : Nat} {line : List Char}
    (order : first ≤ last) (isLine : lines[last]? = some line) :
    ((lines.drop first).take (last + 1 - first)).getLast? = some line := by
  have high := (List.getElem?_eq_some_iff.mp isLine).1
  rw [List.getLast?_eq_getElem?, List.length_take, List.length_drop, ← isLine,
    List.getElem?_take_of_lt (by omega), List.getElem?_drop]
  congr 1
  omega

/-- A chunk consists of the lines of its stretch and ends where the last of them does. -/
theorem Chunk.standsIn_ofRange (config : ChunkingConfig) (fileId : String) {content : String}
    (classes : List LineClass) (index : Nat) {range : LineRange}
    (order : range.first ≤ range.last) (high : range.last < (Text.lines content.toList).length) :
    (ofRange config fileId (Text.lines content.toList) (Text.lineStarts content.toList) classes
      index range).StandsIn content := by
  let text := content.toList
  let starts := Text.lineStarts text
  have high : range.last < (Text.lines text).length := high
  let last := (Text.lines text)[range.last]
  have isLine : (Text.lines text)[range.last]? = some last := List.getElem?_eq_getElem high
  have stop : (ofRange config fileId (Text.lines text) starts classes index range).endOffset =
      (starts[range.last]?).getD 0 + last.length := by
    rw [ofRange, getLast?_own order isLine, Option.getD_some]
  constructor
  case lines => exact ⟨Nat.succ_pos _, Nat.succ_le_succ order, le_max_of_le_left high⟩
  case joined => exact String.toList_ofList
  case offsets =>
    rw [stop, ← String.length_toList]
    exact ⟨Nat.le_add_right_of_le (Text.lineStart_le_lineStart order isLine),
      Text.lineStart_add_length_le isLine⟩
  case addressed =>
    rw [stop]
    exact (Text.withoutReturns_extract_lines order isLine).trans String.toList_ofList.symm

end SourceIndex
