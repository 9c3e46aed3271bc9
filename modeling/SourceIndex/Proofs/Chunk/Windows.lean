import Mathlib.Data.List.Chain
import Mathlib.Order.Interval.Finset.Nat
import SourceIndex.Chunk.Splitting
import SourceIndex.Language.Rust

/-! The windows that a file is cut into. Each starts one stride behind the one before and all but
the last are full, so that neighbours share as many lines as is asked for, no window lies inside the
one before, and every line is in a window. -/

namespace SourceIndex

/-- The lines of a chunk, counted from one. -/
def Chunk.lineNumbers (chunk : Chunk) : Finset Nat := Finset.Icc chunk.startLine chunk.endLine

theorem Chunk.mem_lineNumbers {chunk : Chunk} {line : Nat} :
    line ∈ chunk.lineNumbers ↔ chunk.startLine ≤ line ∧ line ≤ chunk.endLine := Finset.mem_Icc

theorem Chunk.card_lineNumbers (chunk : Chunk) :
    chunk.lineNumbers.card = chunk.endLine + 1 - chunk.startLine := Nat.card_Icc _ _

/-! ## Windows over a stretch of lines -/

namespace ChunkingConfig

variable (config : ChunkingConfig) (total start : Nat)

theorem windowSize_pos : 0 < config.windowSize := by simp [windowSize]

theorem stride_pos : 0 < config.stride := by simp [stride]

theorem stride_le_windowSize : config.stride ≤ config.windowSize := by
  simp only [stride, windowSize]
  omega

/-- How a window goes before the next one: it is full, and the next one starts one stride behind it
and reaches beyond it. -/
structure Precedes (window next : Nat × Nat) : Prop where
  full : window.2 + 1 = window.1 + config.windowSize
  start : next.1 = window.1 + config.stride
  reach : window.2 < next.2

theorem head?_windowsFrom : (config.windowsFrom total start).head? =
    some (start, min (start + config.windowSize) total - 1) := by
  rw [windowsFrom]
  split <;> rfl

theorem windowsFrom_ne_nil : config.windowsFrom total start ≠ [] := by
  intro empty
  have head := config.head?_windowsFrom total start
  simp [empty] at head

theorem getLast?_windowsFrom :
    (config.windowsFrom total start).getLast?.map (·.2) = some (total - 1) := by
  fun_induction config.windowsFrom total start with
  | case1 start stop short induction =>
      rw [List.getLast?_cons_of_ne_nil (config.windowsFrom_ne_nil _ _)]
      exact induction
  | case2 start stop reached =>
      have isEnd : stop = total := by
        have isStop : stop = min (start + config.windowSize) total := rfl
        omega
      rw [List.getLast?_singleton, Option.map_some, isEnd]

theorem isChain_windowsFrom : (config.windowsFrom total start).IsChain config.Precedes := by
  fun_induction config.windowsFrom total start with
  | case1 start stop short induction =>
      have full : stop = start + config.windowSize := by
        have isStop : stop = min (start + config.windowSize) total := rfl
        omega
      have positive := config.stride_pos
      have holds := config.windowSize_pos
      refine List.isChain_cons.mpr ⟨fun next isNext => ?_, induction⟩
      rw [head?_windowsFrom, Option.mem_some_iff] at isNext
      subst isNext
      exact ⟨by simp only; omega, rfl, by simp only; omega⟩
  | case2 start stop reached => exact List.isChain_singleton _

theorem of_mem_windowsFrom (low : start < total) :
    ∀ window ∈ config.windowsFrom total start, start ≤ window.1 ∧ window.1 ≤ window.2 ∧
      window.2 < total ∧ window.2 < window.1 + config.windowSize := by
  have holds := config.windowSize_pos
  have small := config.stride_le_windowSize
  fun_induction config.windowsFrom total start with
  | case1 start stop short induction =>
      have isStop : stop = min (start + config.windowSize) total := rfl
      intro window member
      rcases List.mem_cons.mp member with rfl | member
      · simp only
        omega
      · have := induction (by omega) window member
        omega
  | case2 start stop reached =>
      have isStop : stop = min (start + config.windowSize) total := rfl
      intro window member
      rw [List.mem_singleton.mp member]
      simp only
      omega

/-- Every line of a stretch is in a window. -/
theorem exists_mem_windowsFrom (line : Nat) (low : start ≤ line) (high : line < total) :
    ∃ window ∈ config.windowsFrom total start, window.1 ≤ line ∧ line ≤ window.2 := by
  have small := config.stride_le_windowSize
  fun_induction config.windowsFrom total start with
  | case1 start stop short induction =>
      have isStop : stop = min (start + config.windowSize) total := rfl
      by_cases inside : line < start + config.windowSize
      · have ends : line ≤ stop - 1 := by
          clear induction
          omega
        exact ⟨(start, stop - 1), List.mem_cons_self, low, ends⟩
      · have behind : start + config.stride ≤ line := by
          clear induction
          omega
        rcases induction behind with ⟨window, member, within⟩
        exact ⟨window, List.mem_cons_of_mem _ member, within⟩
  | case2 start stop reached =>
      have isStop : stop = min (start + config.windowSize) total := rfl
      have ends : line ≤ stop - 1 := by omega
      exact ⟨(start, stop - 1), List.mem_cons_self, low, ends⟩

end ChunkingConfig

/-! ## Chunks and their stretches of lines -/

/-- The lines of a window, counted from one. -/
def windowBounds (window : Nat × Nat) : Nat × Nat := (window.1 + 1, window.2 + 1)

theorem ChunkingConfig.Precedes.bounds {config : ChunkingConfig} {window next : Nat × Nat}
    (precedes : config.Precedes window next) :
    config.Precedes (windowBounds window) (windowBounds next) where
  full := by
    have full := precedes.full
    simp only [windowBounds]
    omega
  start := by
    have start := precedes.start
    simp only [windowBounds]
    omega
  reach := Nat.succ_lt_succ precedes.reach

section

variable (config : ChunkingConfig) (language : Language) (fileId content : String)

/-- The first and the last line of a chunk. -/
def Chunk.bounds (chunk : Chunk) : Nat × Nat := (chunk.startLine, chunk.endLine)

/-- The lines of a stretch as a chunk counts them. -/
def LineRange.bounds (range : LineRange) : Nat × Nat := (range.first + 1, range.last + 1)

theorem map_bounds_splitChunks (filled : Text.lines content.toList ≠ []) :
    (splitChunks config language fileId content).map (·.bounds) =
      (config.ranges language (Text.lines content.toList)).map (·.bounds) := by
  simp only [splitChunks, List.isEmpty_iff, filled, if_false, List.map_map]
  conv_rhs => rw [← List.zipIdx_map_fst 0 (config.ranges language _), List.map_map]
  rfl

/-- Chunks are numbered from zero. -/
theorem map_index_splitChunks : (splitChunks config language fileId content).map (·.index) =
    List.range (splitChunks config language fileId content).length := by
  simp only [splitChunks]
  split
  · rfl
  · rw [List.map_map, List.length_map, List.length_zipIdx, List.range_eq_range']
    exact List.zipIdx_map_snd 0 _

end

/-! ## Windows as chunks -/

/-- Chunks that are windows over the lines of a file: one that another one follows is full, and the
two have just the shared lines in common. -/
structure IsWindowed (size shared count : Nat) (chunks : List Chunk) : Prop where
  numbered : chunks.map (·.index) = List.range chunks.length
  starts : chunks.head?.map (·.startLine) = some 1
  ends : chunks.getLast?.map (·.endLine) = some count
  fits : ∀ chunk ∈ chunks, chunk.lineNumbers.card ≤ size
  steps : chunks.IsChain fun chunk next =>
    chunk.lineNumbers.card = size ∧ next.startLine = chunk.startLine + (size - shared) ∧
      (chunk.lineNumbers ∩ next.lineNumbers).card = shared ∧
      ¬ next.lineNumbers ⊆ chunk.lineNumbers

section

variable {config : ChunkingConfig} {language : Language} (fileId : String) {content : String}

/-- The chunks of a long file that has no regions are the windows over all of its lines. -/
theorem map_bounds_of_long (other : language.scopeStyle ≠ .markup)
    (long : config.windowSize < (Text.lines content.toList).length) :
    (splitChunks config language fileId content).map (·.bounds) =
      (config.windowsFrom (Text.lines content.toList).length 0).map windowBounds := by
  have filled : Text.lines content.toList ≠ [] := List.ne_nil_of_length_pos (by omega)
  have all : (Text.lines content.toList).length - 1 + 1 = (Text.lines content.toList).length := by
    omega
  rw [map_bounds_splitChunks config language fileId content filled, ChunkingConfig.ranges,
    if_neg (by omega), if_neg other, ChunkingConfig.windows, all, List.map_map]
  rfl

variable (language) in
/-- A short file is one chunk. -/
theorem splitChunks_of_short (short : (Text.lines content.toList).length ≤ config.windowSize) :
    ∃ chunk, splitChunks config language fileId content = [chunk] ∧ chunk.startLine = 1 ∧
      chunk.endLine = max (Text.lines content.toList).length 1 := by
  by_cases empty : Text.lines content.toList = []
  · refine ⟨Chunk.ofEmpty fileId, ?_, rfl, ?_⟩
    · simp [splitChunks, empty]
    · simp [empty, Chunk.ofEmpty]
  · have bounds := map_bounds_splitChunks config language fileId content empty
    rw [ChunkingConfig.ranges, if_pos short, List.map_singleton] at bounds
    rcases List.map_eq_singleton_iff.mp bounds with ⟨chunk, isOnly, isBounds⟩
    have positive := List.length_pos_iff.mpr empty
    simp only [Chunk.bounds, LineRange.bounds, Prod.mk.injEq] at isBounds
    exact ⟨chunk, isOnly, isBounds.1, by omega⟩

/-- What two chunks have in common if they are windows of which the first goes before the second. -/
theorem of_precedes {chunk next : Chunk} (order : config.overlapLines < config.windowSize)
    (precedes : config.Precedes chunk.bounds next.bounds) :
    chunk.lineNumbers.card = config.windowSize ∧
      next.startLine = chunk.startLine + (config.windowSize - config.overlapLines) ∧
      (chunk.lineNumbers ∩ next.lineNumbers).card = config.overlapLines ∧
      ¬ next.lineNumbers ⊆ chunk.lineNumbers := by
  have stride : config.stride = config.windowSize - config.overlapLines := by
    simp only [ChunkingConfig.stride]
    omega
  have full : chunk.endLine + 1 = chunk.startLine + config.windowSize := precedes.full
  have start : next.startLine = chunk.startLine + config.stride := precedes.start
  have reach : chunk.endLine < next.endLine := precedes.reach
  refine ⟨?_, by omega, ?_, fun within => ?_⟩
  · rw [Chunk.card_lineNumbers]
    omega
  · have common : chunk.lineNumbers ∩ next.lineNumbers =
        Finset.Icc next.startLine chunk.endLine := by
      ext line
      rw [Finset.mem_inter, Chunk.mem_lineNumbers, Chunk.mem_lineNumbers, Finset.mem_Icc]
      omega
    rw [common, Nat.card_Icc]
    omega
  · have last : next.endLine ∈ next.lineNumbers := Chunk.mem_lineNumbers.mpr ⟨by omega, le_rfl⟩
    have inside := Chunk.mem_lineNumbers.mp (within last)
    omega

theorem isWindowed_of_long (order : config.overlapLines < config.windowLines)
    (other : language.scopeStyle ≠ .markup)
    (long : config.windowLines < (Text.lines content.toList).length) :
    IsWindowed config.windowLines config.overlapLines (Text.lines content.toList).length
      (splitChunks config language fileId content) := by
  let count := (Text.lines content.toList).length
  let chunks := splitChunks config language fileId content
  have size : config.windowSize = config.windowLines := by
    simp only [ChunkingConfig.windowSize]
    omega
  rw [← size] at order long ⊢
  have bounds : chunks.map (·.bounds) = (config.windowsFrom count 0).map windowBounds :=
    map_bounds_of_long fileId other long
  refine ⟨map_index_splitChunks config language fileId content, ?_, ?_, ?_, ?_⟩
  · calc chunks.head?.map (·.startLine) = (chunks.map (·.bounds)).head?.map (·.1) := by
          rw [List.head?_map, Option.map_map]
          rfl
      _ = some 1 := by
          rw [bounds, List.head?_map, ChunkingConfig.head?_windowsFrom]
          rfl
  · calc chunks.getLast?.map (·.endLine) = (chunks.map (·.bounds)).getLast?.map (·.2) := by
          rw [List.getLast?_map, Option.map_map]
          rfl
      _ = ((config.windowsFrom count 0).getLast?.map (·.2)).map (· + 1) := by
          rw [bounds, List.getLast?_map, Option.map_map, Option.map_map]
          rfl
      _ = some count := by
          rw [ChunkingConfig.getLast?_windowsFrom, Option.map_some, Nat.sub_add_cancel (by omega)]
  · intro chunk member
    have isWindow := List.mem_map_of_mem (f := Chunk.bounds) member
    rw [bounds] at isWindow
    rcases List.mem_map.mp isWindow with ⟨window, isFound, same⟩
    have within := config.of_mem_windowsFrom _ 0 (by omega) window isFound
    simp only [Chunk.bounds, windowBounds, Prod.mk.injEq] at same
    rw [Chunk.card_lineNumbers]
    omega
  · have chain := List.isChain_map_of_isChain windowBounds (fun _ _ precedes => precedes.bounds)
      (config.isChain_windowsFrom count 0)
    rw [← bounds] at chain
    exact List.isChain_of_isChain_map Chunk.bounds (fun _ _ => of_precedes order) chain

end

end SourceIndex
