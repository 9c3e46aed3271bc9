import SourceIndex.Language.Markup
import SourceIndex.Proofs.Chunk.Windows
import SourceIndex.Proofs.Markup.Regions

/-! Documents cut along their regions. Each region is cut into windows of its own, and so is what
lies between two regions, without the blank lines at its ends. No chunk reaches over the edge of a
region, and nothing but blank lines is left out. -/

namespace SourceIndex

/-! ## Windows between two lines -/

namespace LineRange

/-- Whether a line belongs to a stretch. -/
def Covers (range : LineRange) (line : Nat) : Prop := range.first ≤ line ∧ line ≤ range.last

/-- Whether a stretch is a window on the lines from one line up to another. -/
structure IsWindow (config : ChunkingConfig) (low high : Nat) (range : LineRange) : Prop where
  low : low ≤ range.first
  order : range.first ≤ range.last
  high : range.last < high
  size : range.last < range.first + config.windowSize

theorem IsWindow.mono {config : ChunkingConfig} {low high lower higher : Nat} {range : LineRange}
    (isWindow : range.IsWindow config low high) (lowLe : lower ≤ low) (highLe : high ≤ higher) :
    range.IsWindow config lower higher where
  low := lowLe.trans isWindow.low
  order := isWindow.order
  high := Nat.lt_of_lt_of_le isWindow.high highLe
  size := isWindow.size

/-- Whether stretches start on lines that go up. -/
def GoUp (ranges : List LineRange) : Prop := ranges.Pairwise fun range later =>
  range.first < later.first

/-- Stretches go up if they do so in front of a line and from that line on. -/
theorem GoUp.append {ranges later : List LineRange} {line : Nat} (goUp : GoUp ranges)
    (laterGoUp : GoUp later) (above : ∀ range ∈ ranges, range.first < line)
    (below : ∀ range ∈ later, line ≤ range.first) : GoUp (ranges ++ later) :=
  List.pairwise_append.mpr ⟨goUp, laterGoUp, fun range member other otherMember =>
    Nat.lt_of_lt_of_le (above range member) (below other otherMember)⟩

end LineRange

namespace ChunkingConfig

variable (config : ChunkingConfig)

section

variable {first last : Nat} (type : Option ChunkType)

theorem of_mem_windows (order : first ≤ last) {range : LineRange}
    (member : range ∈ config.windows first last type) :
    range.IsWindow config first (last + 1) ∧ range.type = type := by
  rcases List.mem_map.mp member with ⟨window, isWindow, rfl⟩
  have within := config.of_mem_windowsFrom (last + 1) first (Nat.lt_succ_of_le order) window isWindow
  exact ⟨⟨within.1, within.2.1, within.2.2.1, within.2.2.2⟩, rfl⟩

variable (first last) in
theorem goUp_windows : LineRange.GoUp (config.windows first last type) := by
  have starts : ((config.windowsFrom (last + 1) first).map (·.1)).IsChain (· < ·) := by
    refine List.isChain_map_of_isChain _ (fun window next precedes => ?_)
      (config.isChain_windowsFrom (last + 1) first)
    rw [precedes.start]
    exact Nat.lt_add_of_pos_right config.stride_pos
  rw [LineRange.GoUp, windows, List.pairwise_map]
  exact List.pairwise_map.mp starts.pairwise

theorem exists_mem_windows {line : Nat} (low : first ≤ line) (high : line ≤ last) :
    ∃ range ∈ config.windows first last type, range.Covers line := by
  rcases config.exists_mem_windowsFrom (last + 1) first line low (Nat.lt_succ_of_le high) with
    ⟨window, isWindow, within⟩
  exact ⟨_, List.mem_map_of_mem isWindow, within⟩

end

/-! ## Windows between regions -/

variable (lines : List (List Char))

/-- Whether a line is there and has something besides blanks in it. -/
def IsInked (lines : List (List Char)) (line : Nat) : Prop :=
  ∃ text, lines[line]? = some text ∧ Text.isBlankText text = false

/-- The windows of what lies between two lines, of which the second one is left out. -/
def gap (low high : Nat) : List LineRange :=
  if low < high then config.gapWindows lines low (high - 1) else []

/-- The lines of a gap that have something in them. -/
def inkedLines (first last : Nat) : List Nat :=
  ((List.range (last + 1 - first)).map (first + ·)).filter
    fun index => ! ((lines[index]?).map Text.isBlankText).getD true

variable {lines} in
theorem mem_inkedLines {first last line : Nat} :
    line ∈ inkedLines lines first last ↔ first ≤ line ∧ line ≤ last ∧ IsInked lines line := by
  have isInked : (! ((lines[line]?).map Text.isBlankText).getD true) = true ↔
      IsInked lines line := by
    cases isText : lines[line]? <;> simp [IsInked, isText]
  rw [inkedLines, List.mem_filter, isInked, ← and_assoc]
  refine and_congr_left fun _ => ⟨fun member => ?_, fun within => ?_⟩
  · rcases List.mem_map.mp member with ⟨offset, isOffset, rfl⟩
    have := List.mem_range.mp isOffset
    omega
  · exact List.mem_map.mpr ⟨line - first, List.mem_range.mpr (by omega), by omega⟩

theorem pairwise_inkedLines (first last : Nat) :
    (inkedLines lines first last).Pairwise (· ≤ ·) := by
  apply List.Pairwise.filter
  rw [List.pairwise_map]
  exact List.pairwise_lt_range.imp fun before => Nat.add_le_add_left (Nat.le_of_lt before) first

theorem gapWindows_of_bare {first last : Nat} (bare : inkedLines lines first last = []) :
    config.gapWindows lines first last = [] := by
  rw [inkedLines] at bare
  simp only [gapWindows, bare, List.head?_nil]

theorem gapWindows_of_inked {first last : Nat} (some : inkedLines lines first last ≠ []) :
    config.gapWindows lines first last = config.windows
      ((inkedLines lines first last).head some) ((inkedLines lines first last).getLast some)
      none := by
  simp only [gapWindows]
  rw [← inkedLines, List.head?_eq_some_head some, List.getLast?_eq_some_getLast some]

/-- A gap without anything but blanks has no windows. Any other one has the windows from its first
to its last line that has something in it. -/
theorem gap_cases (low high : Nat) :
    (config.gap lines low high = [] ∧ ∀ line, low ≤ line → line < high → ¬ IsInked lines line) ∨
    ∃ first last, config.gap lines low high = config.windows first last none ∧
      low ≤ first ∧ first ≤ last ∧ last < high ∧
      ∀ line, low ≤ line → line < high → IsInked lines line → first ≤ line ∧ line ≤ last := by
  by_cases less : low < high
  · let inked := inkedLines lines low (high - 1)
    have isInkedIff : ∀ line, line ∈ inked ↔ low ≤ line ∧ line < high ∧ IsInked lines line := by
      intro line
      rw [mem_inkedLines, Nat.le_sub_one_iff_lt (by omega)]
    have isGap : config.gap lines low high = config.gapWindows lines low (high - 1) :=
      if_pos less
    by_cases bare : inked = []
    · refine .inl ⟨?_, fun line lowLe isLess isInked => ?_⟩
      · rw [isGap, config.gapWindows_of_bare lines bare]
      · have member := (isInkedIff line).mpr ⟨lowLe, isLess, isInked⟩
        rw [bare] at member
        exact List.not_mem_nil member
    · have sorted := pairwise_inkedLines lines low (high - 1)
      have first := (isInkedIff _).mp (List.head_mem bare)
      have last := (isInkedIff _).mp (List.getLast_mem bare)
      refine .inr ⟨_, _, ?_, first.1, sorted.rel_head (List.getLast_mem bare), last.2.1, ?_⟩
      · rw [isGap, config.gapWindows_of_inked lines bare]
      · intro line lowLe isLess isInked
        have member := (isInkedIff line).mpr ⟨lowLe, isLess, isInked⟩
        exact ⟨sorted.rel_head member, sorted.rel_getLast member⟩
  · exact .inl ⟨if_neg less, fun line lowLe isLess => absurd (lowLe.trans_lt isLess) less⟩

theorem of_mem_gap {low high : Nat} {range : LineRange} (member : range ∈ config.gap lines low high) :
    range.IsWindow config low high := by
  rcases config.gap_cases lines low high with
    ⟨isEmpty, -⟩ | ⟨first, last, isGap, lowLe, order, less, -⟩
  · rw [isEmpty] at member
    cases member
  · rw [isGap] at member
    exact (config.of_mem_windows none order member).1.mono lowLe less

theorem goUp_gap (low high : Nat) : LineRange.GoUp (config.gap lines low high) := by
  rcases config.gap_cases lines low high with ⟨isEmpty, -⟩ | ⟨first, last, isGap, -⟩
  · rw [isEmpty]
    exact .nil
  · rw [isGap]
    exact config.goUp_windows first last none

theorem exists_mem_gap {low high line : Nat} (lowLe : low ≤ line) (less : line < high)
    (isInked : IsInked lines line) : ∃ range ∈ config.gap lines low high, range.Covers line := by
  rcases config.gap_cases lines low high with ⟨-, bare⟩ | ⟨first, last, isGap, -, -, -, within⟩
  · exact absurd isInked (bare line lowLe less)
  · rw [isGap]
    exact config.exists_mem_windows none (within line lowLe less isInked).1
      (within line lowLe less isInked).2

/-! ## Windows along regions -/

theorem regionWindows_nil (cursor : Nat) :
    config.regionWindows lines cursor [] = config.gap lines cursor lines.length := rfl

theorem regionWindows_cons (cursor : Nat) (region : Region) (regions : List Region) :
    config.regionWindows lines cursor (region :: regions) =
      config.gap lines cursor region.start
        ++ config.windows region.start region.stop (some region.kind.chunkType)
        ++ config.regionWindows lines (region.stop + 1) regions := rfl

end ChunkingConfig

/-- Whether a stretch of lines lies inside a region, whose type it has, or outside of all regions. -/
def LineRange.KeepsTo (regions : List Region) (range : LineRange) : Prop :=
  (∃ region ∈ regions, region.start ≤ range.first ∧ range.last ≤ region.stop ∧
    range.type = some region.kind.chunkType) ∨
  ∀ region ∈ regions, range.last < region.start ∨ region.stop < range.first

namespace ChunkingConfig

variable (config : ChunkingConfig) {lines : List (List Char)}

theorem of_mem_regionWindows {cursor : Nat} {regions : List Region}
    (inOrder : Region.InOrder cursor lines.length regions) {range : LineRange}
    (member : range ∈ config.regionWindows lines cursor regions) :
    range.IsWindow config cursor lines.length ∧ range.KeepsTo regions := by
  induction regions generalizing cursor with
  | nil =>
      rw [regionWindows_nil] at member
      exact ⟨config.of_mem_gap lines member, .inr nofun⟩
  | cons region regions induction =>
      have here := inOrder.within region List.mem_cons_self
      rw [regionWindows_cons, List.append_assoc] at member
      rcases List.mem_append.mp member with isGap | member
      · have isWindow := config.of_mem_gap lines isGap
        refine ⟨isWindow.mono le_rfl (by omega), .inr fun other isOther => .inl ?_⟩
        have high := isWindow.high
        rcases List.mem_cons.mp isOther with rfl | isOther
        · exact high
        · have behind := List.rel_of_pairwise_cons inOrder.apart isOther
          omega
      rcases List.mem_append.mp member with isInside | isLater
      · rcases config.of_mem_windows _ here.2.1 isInside with ⟨isWindow, isType⟩
        exact ⟨isWindow.mono here.1 here.2.2, .inl ⟨region, List.mem_cons_self, isWindow.low,
          Nat.le_of_lt_succ isWindow.high, isType⟩⟩
      · rcases induction inOrder.tail isLater with ⟨isWindow, inside | outside⟩
        · rcases inside with ⟨other, isOther, keeps⟩
          exact ⟨isWindow.mono (by omega) le_rfl,
            .inl ⟨other, List.mem_cons_of_mem region isOther, keeps⟩⟩
        · refine ⟨isWindow.mono (by omega) le_rfl, .inr fun other isOther => ?_⟩
          rcases List.mem_cons.mp isOther with rfl | isOther
          · exact .inr isWindow.low
          · exact outside other isOther

theorem goUp_regionWindows {cursor : Nat} {regions : List Region}
    (inOrder : Region.InOrder cursor lines.length regions) :
    LineRange.GoUp (config.regionWindows lines cursor regions) := by
  induction regions generalizing cursor with
  | nil =>
      rw [regionWindows_nil]
      exact config.goUp_gap lines cursor lines.length
  | cons region regions induction =>
      have here := inOrder.within region List.mem_cons_self
      rw [regionWindows_cons]
      have front : LineRange.GoUp (config.gap lines cursor region.start
          ++ config.windows region.start region.stop (some region.kind.chunkType)) := by
        refine (config.goUp_gap lines cursor region.start).append (config.goUp_windows _ _ _)
          (fun range isGap => ?_)
          fun range isInside => (config.of_mem_windows _ here.2.1 isInside).1.low
        have isWindow := config.of_mem_gap lines isGap
        exact Nat.lt_of_le_of_lt isWindow.order isWindow.high
      refine front.append (induction inOrder.tail) (fun range member => ?_)
        fun range isLater => (config.of_mem_regionWindows inOrder.tail isLater).1.low
      rcases List.mem_append.mp member with isGap | isInside
      · have isWindow := config.of_mem_gap lines isGap
        have order := isWindow.order
        have high := isWindow.high
        omega
      · have isWindow := (config.of_mem_windows _ here.2.1 isInside).1
        exact Nat.lt_of_le_of_lt isWindow.order isWindow.high

/-- Every line of a region is in a window, and so is any other line that is not blank. -/
theorem exists_mem_regionWindows {cursor : Nat} {regions : List Region}
    (inOrder : Region.InOrder cursor lines.length regions) {line : Nat} (low : cursor ≤ line)
    (high : line < lines.length)
    (counts : (∃ region ∈ regions, region.start ≤ line ∧ line ≤ region.stop) ∨
      IsInked lines line) :
    ∃ range ∈ config.regionWindows lines cursor regions, range.Covers line := by
  induction regions generalizing cursor with
  | nil =>
      rw [regionWindows_nil]
      rcases counts with ⟨region, isRegion, -⟩ | isInked
      · cases isRegion
      · exact config.exists_mem_gap lines low high isInked
  | cons region regions induction =>
      have here := inOrder.within region List.mem_cons_self
      rw [regionWindows_cons]
      rcases Nat.lt_or_ge line region.start with before | reached
      · have isInked : IsInked lines line := counts.resolve_left fun ⟨other, isOther, inside⟩ => by
          rcases List.mem_cons.mp isOther with rfl | isLater
          · omega
          · have behind := List.rel_of_pairwise_cons inOrder.apart isLater
            omega
        rcases config.exists_mem_gap lines low before isInked with ⟨range, member, covers⟩
        exact ⟨range, List.mem_append_left _ (List.mem_append_left _ member), covers⟩
      rcases Nat.lt_or_ge region.stop line with behind | inside
      · have later : (∃ other ∈ regions, other.start ≤ line ∧ line ≤ other.stop) ∨
            IsInked lines line := counts.imp_left fun ⟨other, isOther, inside⟩ => by
          rcases List.mem_cons.mp isOther with rfl | isLater
          · omega
          · exact ⟨other, isLater, inside⟩
        rcases induction inOrder.tail behind later with ⟨range, member, covers⟩
        exact ⟨range, List.mem_append_right _ member, covers⟩
      · rcases config.exists_mem_windows (some region.kind.chunkType) reached inside with
          ⟨range, member, covers⟩
        exact ⟨range, List.mem_append_left _ (List.mem_append_right _ member), covers⟩

end ChunkingConfig

/-! ## Chunks along regions -/

section

variable {config : ChunkingConfig} {language : Language} (fileId : String) {content : String}

/-- What a chunk has from its stretch of lines. -/
structure Chunk.IsOf (range : LineRange) (chunk : Chunk) : Prop where
  start : chunk.startLine = range.first + 1
  stop : chunk.endLine = range.last + 1
  type : ∀ type, range.type = some type → chunk.type = type

theorem exists_range_of_mem (filled : Text.lines content.toList ≠ []) {chunk : Chunk}
    (member : chunk ∈ splitChunks config language fileId content) :
    ∃ range ∈ config.ranges language (Text.lines content.toList), chunk.IsOf range := by
  simp only [splitChunks, List.isEmpty_iff, filled, if_false] at member
  rcases List.mem_map.mp member with ⟨⟨range, index⟩, isRange, rfl⟩
  refine ⟨range, List.fst_mem_of_mem_zipIdx isRange, rfl, rfl, fun type isType => ?_⟩
  rw [Chunk.ofRange, isType]
  rfl

theorem exists_chunk_of_mem (filled : Text.lines content.toList ≠ []) {range : LineRange}
    (member : range ∈ config.ranges language (Text.lines content.toList)) :
    ∃ chunk ∈ splitChunks config language fileId content, chunk.bounds = range.bounds := by
  have isBounds := List.mem_map_of_mem (f := LineRange.bounds) member
  rw [← map_bounds_splitChunks config language fileId content filled] at isBounds
  exact List.mem_map.mp isBounds

end

namespace Region

/-- The lines of a region, counted from one. -/
def lineNumbers (region : Region) : Finset Nat := Finset.Icc (region.start + 1) (region.stop + 1)

theorem mem_lineNumbers {region : Region} {line : Nat} :
    line ∈ region.lineNumbers ↔ region.start + 1 ≤ line ∧ line ≤ region.stop + 1 := Finset.mem_Icc

end Region

/-- Chunks that follow the regions of a document. The lines of a chunk follow one another, so that
one without a line of any region lies in one stretch between regions. -/
structure FollowsRegions (config : ChunkingConfig) (lines : List (List Char)) (chunks : List Chunk) :
    Prop where
  numbered : chunks.map (·.index) = List.range chunks.length
  goUp : chunks.Pairwise fun chunk later => chunk.startLine < later.startLine
  filled : ∀ chunk ∈ chunks, chunk.lineNumbers.Nonempty
  fits : ∀ chunk ∈ chunks, chunk.lineNumbers.card ≤ config.windowSize
  keeps : ∀ chunk ∈ chunks,
    (∃ region ∈ Region.findAll lines, chunk.lineNumbers ⊆ region.lineNumbers) ∨
      ∀ region ∈ Region.findAll lines, Disjoint chunk.lineNumbers region.lineNumbers
  typed : ∀ chunk ∈ chunks, ∀ region ∈ Region.findAll lines,
    chunk.lineNumbers ⊆ region.lineNumbers → chunk.type = region.kind.chunkType
  regions : ∀ region ∈ Region.findAll lines, ∀ line ∈ region.lineNumbers,
    ∃ chunk ∈ chunks, line ∈ chunk.lineNumbers
  inked : ∀ index text, lines[index]? = some text → Text.isBlankText text = false →
    ∃ chunk ∈ chunks, index + 1 ∈ chunk.lineNumbers

section

variable {config : ChunkingConfig} {language : Language} (fileId : String) {content : String}

theorem ranges_of_regions {lines : List (List Char)} (markup : language.scopeStyle = .markup)
    (long : config.windowSize < lines.length) (some : Region.findAll lines ≠ []) :
    config.ranges language lines = config.regionWindows lines 0 (Region.findAll lines) := by
  rw [ChunkingConfig.ranges, if_neg (by omega), if_pos markup]
  cases found : Region.findAll lines with
  | nil => exact absurd found some
  | cons region regions => rfl

/-- A chunk keeps to the regions if its stretch of lines does. -/
theorem Chunk.IsOf.keeps {regions : List Region} {range : LineRange} {chunk : Chunk}
    (isOf : chunk.IsOf range) (keeps : range.KeepsTo regions) :
    (∃ region ∈ regions, chunk.lineNumbers ⊆ region.lineNumbers) ∨
      ∀ region ∈ regions, Disjoint chunk.lineNumbers region.lineNumbers := by
  have start := isOf.start
  have stop := isOf.stop
  rcases keeps with ⟨region, isRegion, low, high, -⟩ | apart
  · refine .inl ⟨region, isRegion, fun line member => ?_⟩
    rw [Chunk.mem_lineNumbers] at member
    rw [Region.mem_lineNumbers]
    omega
  · refine .inr fun region isRegion => Finset.disjoint_left.mpr fun line member isInside => ?_
    rw [Chunk.mem_lineNumbers] at member
    rw [Region.mem_lineNumbers] at isInside
    have := apart region isRegion
    omega

/-- A chunk in a region has the type of the region. -/
theorem Chunk.IsOf.typed {low high : Nat} {regions : List Region} {range : LineRange}
    {chunk : Chunk} (isOf : chunk.IsOf range) (inOrder : Region.InOrder low high regions)
    (order : range.first ≤ range.last) (keeps : range.KeepsTo regions) {region : Region}
    (isRegion : region ∈ regions) (within : chunk.lineNumbers ⊆ region.lineNumbers) :
    chunk.type = region.kind.chunkType := by
  have start := isOf.start
  have stop := isOf.stop
  have first : chunk.startLine ∈ chunk.lineNumbers :=
    Chunk.mem_lineNumbers.mpr ⟨le_rfl, by omega⟩
  have inside := Region.mem_lineNumbers.mp (within first)
  rcases keeps with ⟨other, isOther, low, high, isType⟩ | apart
  · have same : region = other :=
      inOrder.eq_of_mem range.first isRegion isOther (by omega) (by omega)
    rw [same]
    exact isOf.type _ isType
  · have := apart region isRegion
    omega

theorem followsRegions (markup : language.scopeStyle = .markup)
    (long : config.windowSize < (Text.lines content.toList).length)
    (some : Region.findAll (Text.lines content.toList) ≠ []) :
    FollowsRegions config (Text.lines content.toList)
      (splitChunks config language fileId content) := by
  let lines := Text.lines content.toList
  let chunks := splitChunks config language fileId content
  have inOrder := Region.inOrder_findAll lines
  have filled : lines ≠ [] := List.ne_nil_of_length_pos (Nat.zero_lt_of_lt long)
  have ranges : config.ranges language lines = config.regionWindows lines 0 (Region.findAll lines) :=
    ranges_of_regions markup long some
  have isOf : ∀ chunk ∈ chunks, ∃ range : LineRange, range.IsWindow config 0 lines.length ∧
      range.KeepsTo (Region.findAll lines) ∧ chunk.IsOf range := by
    intro chunk member
    rcases exists_range_of_mem fileId filled member with ⟨range, isRange, isOf⟩
    rw [ranges] at isRange
    have along := config.of_mem_regionWindows inOrder isRange
    exact ⟨range, along.1, along.2, isOf⟩
  have covered : ∀ line, line < lines.length →
      (∃ region ∈ Region.findAll lines, region.start ≤ line ∧ line ≤ region.stop) ∨
        ChunkingConfig.IsInked lines line → ∃ chunk ∈ chunks, line + 1 ∈ chunk.lineNumbers := by
    intro line isLine counts
    rcases config.exists_mem_regionWindows inOrder (Nat.zero_le line) isLine counts with
      ⟨range, isRange, covers⟩
    rw [← ranges] at isRange
    rcases exists_chunk_of_mem fileId filled isRange with ⟨chunk, member, bounds⟩
    rcases Prod.mk.inj bounds with ⟨start, stop⟩
    refine ⟨chunk, member, Chunk.mem_lineNumbers.mpr ⟨?_, ?_⟩⟩
    · exact start.le.trans (Nat.succ_le_succ covers.1)
    · exact (Nat.succ_le_succ covers.2).trans stop.ge
  constructor
  case numbered => exact map_index_splitChunks config language fileId content
  case goUp =>
    have bounds : (chunks.map (·.bounds)).Pairwise fun bounds later => bounds.1 < later.1 := by
      rw [map_bounds_splitChunks config language fileId content filled, ranges, List.pairwise_map]
      exact (config.goUp_regionWindows inOrder).imp Nat.succ_lt_succ
    rwa [List.pairwise_map] at bounds
  case filled =>
    intro chunk member
    rcases isOf chunk member with ⟨range, isWindow, -, isOf⟩
    have order := isWindow.order
    refine ⟨chunk.startLine, Chunk.mem_lineNumbers.mpr ⟨le_rfl, ?_⟩⟩
    rw [isOf.start, isOf.stop]
    exact Nat.succ_le_succ order
  case fits =>
    intro chunk member
    rcases isOf chunk member with ⟨range, isWindow, -, isOf⟩
    have size := isWindow.size
    rw [Chunk.card_lineNumbers, isOf.start, isOf.stop]
    omega
  case keeps =>
    intro chunk member
    rcases isOf chunk member with ⟨range, -, keeps, isOf⟩
    exact isOf.keeps keeps
  case typed =>
    intro chunk member region isRegion within
    rcases isOf chunk member with ⟨range, isWindow, keeps, isOf⟩
    exact isOf.typed inOrder isWindow.order keeps isRegion within
  case regions =>
    intro region isRegion line member
    have inside := Region.mem_lineNumbers.mp member
    have stop := (inOrder.within region isRegion).2.2
    have counted := covered (line - 1) (by omega) (.inl ⟨region, isRegion, by omega, by omega⟩)
    rwa [Nat.sub_add_cancel (by omega)] at counted
  case inked =>
    intro index text isText isInked
    exact covered index (List.getElem?_eq_some_iff.mp isText).1 (.inr ⟨text, isText, isInked⟩)

end

end SourceIndex
