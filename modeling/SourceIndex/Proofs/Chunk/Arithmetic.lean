import Mathlib.Data.List.DropRight
import SourceIndex.Config.Basic
import SourceIndex.Proofs.Chunk.Offsets
import SourceIndex.Proofs.Complexity.LineClasses

/-! Chunks in words of 64 bits. Every sum, every difference and every place in a list that a file is
cut with is followed one by one. All of them stay in range, whatever the windows are, but for one:
the end of the context behind a chunk, which may lie beyond the last word. -/

namespace SourceIndex

/-! ## Words -/

namespace Word

/-- How many words there are. -/
def limit : Nat := 0x10000000000000000

/-- The sum of two words, if it is a word. -/
def add? (left right : Nat) : Option Nat :=
  if left + right < limit then some (left + right) else none

/-- The difference of two words, if it is a word. -/
def sub? (left right : Nat) : Option Nat := if right ≤ left then some (left - right) else none

/-- What stands in a list from one place up to another, if these are in order and in the list. -/
def slice? {α : Type} (items : List α) (first stop : Nat) : Option (List α) :=
  if first ≤ stop ∧ stop ≤ items.length then some ((items.drop first).take (stop - first))
  else none

variable {left right : Nat}

theorem add?_of_lt (fits : left + right < limit) : add? left right = some (left + right) :=
  if_pos fits

theorem add?_of_le (reaches : limit ≤ left + right) : add? left right = none :=
  if_neg (Nat.not_lt_of_le reaches)

theorem eq_of_add? {sum : Nat} (isSum : add? left right = some sum) : sum = left + right := by
  rw [add?] at isSum
  split at isSum
  · exact (Option.some.inj isSum).symm
  · cases isSum

theorem sub?_of_le (fits : right ≤ left) : sub? left right = some (left - right) := if_pos fits

theorem slice?_of_le {α : Type} {items : List α} {first stop : Nat} (order : first ≤ stop)
    (within : stop ≤ items.length) :
    slice? items first stop = some ((items.drop first).take (stop - first)) :=
  if_pos ⟨order, within⟩

end Word

/-! ## Windows -/

namespace ChunkingConfig

/-- The windows from line `start` on, in words. -/
def windowsFrom? (config : ChunkingConfig) (total start : Nat) : Option (List (Nat × Nat)) :=
  match _ : Word.add? start config.windowSize with
  | none => none
  | some reach =>
    match Word.sub? (min reach total) 1 with
    | none => none
    | some last =>
      if min reach total = total then some [(start, last)]
      else
        match _ : Word.add? start config.stride with
        | none => none
        | some next => (config.windowsFrom? total next).map ((start, last) :: ·)
termination_by total - start
decreasing_by
  have := Word.eq_of_add? ‹Word.add? start config.windowSize = _›
  have := Word.eq_of_add? ‹Word.add? start config.stride = _›
  have := config.stride_pos
  have := config.windowSize_pos
  omega

def windows? (config : ChunkingConfig) (first last : Nat) (type : Option ChunkType) :
    Option (List LineRange) := do
  let total ← Word.add? last 1
  let windows ← config.windowsFrom? total first
  return windows.map fun (first, last) => ⟨first, last, type⟩

/-- The first of some lines that has something besides blanks in it. The lines are looked up one
after the other. -/
def findInked? (lines : List (List Char)) : List Nat → Option (Option Nat)
  | [] => some none
  | place :: places => do
    let line ← lines[place]?
    if Text.isBlankText line then findInked? lines places else some (some place)

def gapWindows? (config : ChunkingConfig) (lines : List (List Char)) (first last : Nat) :
    Option (List LineRange) := do
  let places := (List.range (last + 1 - first)).map (first + ·)
  match ← findInked? lines places with
  | none => some []
  | some low =>
    let high ← findInked? lines places.reverse
    config.windows? low (high.getD low) none

def gap? (config : ChunkingConfig) (lines : List (List Char)) (low high : Nat) :
    Option (List LineRange) :=
  if low < high then do
    let last ← Word.sub? high 1
    config.gapWindows? lines low last
  else some []

def regionWindows? (config : ChunkingConfig) (lines : List (List Char)) :
    (cursor : Nat) → List Region → Option (List LineRange)
  | cursor, [] => config.gap? lines cursor lines.length
  | cursor, region :: regions => do
    let gap ← config.gap? lines cursor region.start
    let inside ← config.windows? region.start region.stop (some region.kind.chunkType)
    let next ← Word.add? region.stop 1
    let later ← config.regionWindows? lines next regions
    return gap ++ inside ++ later

/-- The windows over a whole text. -/
def allWindows? (config : ChunkingConfig) (lines : List (List Char)) : Option (List LineRange) := do
  let last ← Word.sub? lines.length 1
  config.windows? 0 last none

def ranges? (config : ChunkingConfig) (language : Language) (lines : List (List Char)) :
    Option (List LineRange) :=
  if lines.length ≤ config.windowSize then
    (Word.sub? lines.length 1).map fun last => [⟨0, last, none⟩]
  else if language.scopeStyle = .markup then
    match Region.findAll lines with
    | [] => config.allWindows? lines
    | regions => config.regionWindows? lines 0 regions
  else config.allWindows? lines

variable (config : ChunkingConfig)

theorem windowsFrom?_eq_bind (total start : Nat) :
    config.windowsFrom? total start =
      (Word.add? start config.windowSize).bind fun reach =>
        (Word.sub? (min reach total) 1).bind fun last =>
          if min reach total = total then some [(start, last)]
          else (Word.add? start config.stride).bind fun next =>
            (config.windowsFrom? total next).map ((start, last) :: ·) := by
  rw [windowsFrom?]
  split
  · next isReach => rw [isReach, Option.bind_none]
  · next reach isReach =>
      rw [isReach, Option.bind_some]
      cases Word.sub? (min reach total) 1 with
      | none => rfl
      | some last =>
          rw [Option.bind_some]
          refine if_congr Iff.rfl rfl ?_
          split
          · next isNext => rw [isNext, Option.bind_none]
          · next next isNext => rw [isNext, Option.bind_some]

theorem windowsFrom?_eq_some {total start : Nat} (low : start < total)
    (fits : total + config.windowSize ≤ Word.limit) :
    config.windowsFrom? total start = some (config.windowsFrom total start) := by
  have holds := config.windowSize_pos
  have small := config.stride_le_windowSize
  fun_induction config.windowsFrom total start with
  | case1 start stop short induction =>
      have isStop : stop = min (start + config.windowSize) total := rfl
      have later := induction (by omega)
      rw [windowsFrom?_eq_bind, Word.add?_of_lt (by omega), Option.bind_some, ← isStop,
        Word.sub?_of_le (by omega), Option.bind_some, if_neg (Nat.ne_of_lt short),
        Word.add?_of_lt (by omega), Option.bind_some, later, Option.map_some]
  | case2 start stop reached =>
      have isStop : stop = min (start + config.windowSize) total := rfl
      rw [windowsFrom?_eq_bind, Word.add?_of_lt (by omega), Option.bind_some, ← isStop,
        Word.sub?_of_le (by omega), Option.bind_some, if_pos (by omega)]

theorem windows?_eq_some {first last : Nat} (type : Option ChunkType) (order : first ≤ last)
    (fits : last + 1 + config.windowSize ≤ Word.limit) :
    config.windows? first last type = some (config.windows first last type) := by
  have holds := config.windowSize_pos
  simp only [windows?, Option.bind_eq_bind]
  rw [Word.add?_of_lt (by omega), Option.bind_some,
    config.windowsFrom?_eq_some (Nat.lt_succ_of_le order) fits, Option.bind_some]
  rfl

variable {lines : List (List Char)}

theorem findInked?_eq_some {places : List Nat} (within : ∀ place ∈ places, place < lines.length) :
    findInked? lines places = some (places.filter fun place =>
      ! ((lines[place]?).map Text.isBlankText).getD true).head? := by
  induction places with
  | nil => rfl
  | cons place places induction =>
      rcases List.forall_mem_cons.mp within with ⟨inside, later⟩
      have isLine := List.getElem?_eq_getElem inside
      rw [findInked?, induction later, isLine, Option.bind_eq_bind, Option.bind_some,
        List.filter_cons, isLine, Option.map_some, Option.getD_some]
      cases Text.isBlankText lines[place] <;> rfl

theorem gapWindows?_eq_some {first last : Nat} (within : last < lines.length)
    (fits : lines.length + config.windowSize ≤ Word.limit) :
    config.gapWindows? lines first last = some (config.gapWindows lines first last) := by
  let places := (List.range (last + 1 - first)).map (first + ·)
  let inked := inkedLines lines first last
  have inLines : ∀ place ∈ places, place < lines.length := by
    intro place member
    rcases List.mem_map.mp member with ⟨offset, isOffset, rfl⟩
    have := List.mem_range.mp isOffset
    omega
  have down : findInked? lines places = some inked.head? := findInked?_eq_some inLines
  have up : findInked? lines places.reverse = some inked.getLast? := by
    rw [findInked?_eq_some fun place member => inLines place (List.mem_reverse.mp member),
      List.filter_reverse, List.head?_reverse]
    rfl
  simp only [gapWindows?, Option.bind_eq_bind]
  rw [show findInked? lines _ = _ from down, show findInked? lines (List.reverse _) = _ from up,
    Option.bind_some]
  by_cases bare : inked = []
  · rw [config.gapWindows_of_bare lines bare, bare]
    rfl
  · have high := (mem_inkedLines.mp (List.getLast_mem bare)).2.1
    have order := (pairwise_inkedLines lines first last).rel_head (List.getLast_mem bare)
    have reach : inked.getLast bare + 1 + config.windowSize ≤ Word.limit := by omega
    rw [config.gapWindows_of_inked lines bare, List.head?_eq_some_head bare,
      List.getLast?_eq_some_getLast bare]
    exact config.windows?_eq_some none order reach

theorem gap?_eq_some {low high : Nat} (within : high ≤ lines.length)
    (fits : lines.length + config.windowSize ≤ Word.limit) :
    config.gap? lines low high = some (config.gap lines low high) := by
  rw [gap?, gap]
  split
  · next less =>
      rw [Word.sub?_of_le (by omega)]
      exact config.gapWindows?_eq_some (by omega) fits
  · rfl

theorem regionWindows?_eq_some {cursor : Nat} {regions : List Region}
    (inOrder : Region.InOrder cursor lines.length regions)
    (fits : lines.length + config.windowSize ≤ Word.limit) :
    config.regionWindows? lines cursor regions =
      some (config.regionWindows lines cursor regions) := by
  have holds := config.windowSize_pos
  induction regions generalizing cursor with
  | nil => rw [regionWindows?, config.gap?_eq_some le_rfl fits, regionWindows_nil]
  | cons region regions induction =>
      have here := inOrder.within region List.mem_cons_self
      simp only [regionWindows?, Option.bind_eq_bind]
      rw [config.gap?_eq_some (by omega) fits, Option.bind_some,
        config.windows?_eq_some _ here.2.1 (by omega), Option.bind_some,
        Word.add?_of_lt (by omega), Option.bind_some, induction inOrder.tail, Option.bind_some]
      rfl

/-- Windows are found in words if two texts of the length fit into them. A window that is longer
than the text is never laid out. -/
theorem ranges?_eq_some (language : Language) (filled : lines ≠ [])
    (fits : 2 * lines.length ≤ Word.limit) :
    config.ranges? language lines = some (config.ranges language lines) := by
  have positive := List.length_pos_iff.mpr filled
  rw [ranges?, ranges]
  split
  · rw [Word.sub?_of_le positive]
    rfl
  · next long =>
      have whole : config.allWindows? lines = some (config.windows 0 (lines.length - 1) none) := by
        rw [allWindows?, Word.sub?_of_le positive]
        exact config.windows?_eq_some none (Nat.zero_le _) (by omega)
      have along := config.regionWindows?_eq_some (Region.inOrder_findAll lines) (by omega)
      split
      · cases isFound : Region.findAll lines with
        | nil => exact whole
        | cons region regions => rwa [isFound] at along
      · exact whole

end ChunkingConfig

/-! ## Offsets -/

namespace Text

/-- Turns the pieces between line feeds into lines that keep their line feeds. -/
def rawLinesOfPieces : List (List Char) → List (List Char)
  | [] => []
  | [last] => if last.isEmpty then [] else [last]
  | piece :: rest => (piece ++ ['\n']) :: rawLinesOfPieces rest

/-- The lines of a text with their endings. -/
def rawLines (text : List Char) : List (List Char) :=
  rawLinesOfPieces (splitAll (· == '\n') text)

example : rawLines "a\r\nb\n".toList = ["a\r\n".toList, "b\n".toList] := by decide

/-- Where lines start that are counted with their endings, in words. -/
def startsOfRaw? (offset : Nat) : List (List Char) → Option (List Nat)
  | [] => some []
  | raw :: rest => do
    let next ← Word.add? offset raw.length
    let later ← startsOfRaw? next rest
    return offset :: later

theorem length_rawLinesOfPieces (pieces : List (List Char)) :
    (rawLinesOfPieces pieces).length = (linesOfPieces pieces).length := by
  fun_induction rawLinesOfPieces pieces with
  | case1 => rfl
  | case2 last empty => rw [linesOfPieces, if_pos empty]
  | case3 last filled => rw [linesOfPieces, if_neg filled]
  | case4 piece rest more induction =>
      rw [linesOfPieces_cons more, List.length_cons, List.length_cons, induction]

theorem flatten_rawLinesOfPieces (pieces : List (List Char)) :
    (rawLinesOfPieces pieces).flatten = joinLines pieces := by
  fun_induction rawLinesOfPieces pieces with
  | case1 => rfl
  | case2 last empty =>
      rw [List.isEmpty_iff.mp empty]
      rfl
  | case3 last filled => rw [List.flatten_singleton, joinLines, List.intercalate_singleton]
  | case4 piece rest more induction =>
      rw [List.flatten_cons, induction, joinLines_cons more, List.append_assoc,
        List.singleton_append]

theorem ne_nil_of_mem_rawLinesOfPieces (pieces : List (List Char)) :
    ∀ raw ∈ rawLinesOfPieces pieces, raw ≠ [] := by
  fun_induction rawLinesOfPieces pieces with
  | case1 => exact nofun
  | case2 last empty => exact nofun
  | case3 last filled => exact List.forall_mem_singleton.mpr (mt List.isEmpty_iff.mpr filled)
  | case4 piece rest more induction =>
      exact List.forall_mem_cons.mpr
        ⟨List.append_ne_nil_of_right_ne_nil _ (List.cons_ne_nil _ _), induction⟩

/-- A text has a character for each of its lines. -/
theorem length_lines_le (text : List Char) : (lines text).length ≤ text.length := by
  have each : ∀ length ∈ (rawLines text).map List.length, 1 ≤ length := by
    intro length member
    rcases List.mem_map.mp member with ⟨raw, isRaw, rfl⟩
    exact List.length_pos_iff.mpr (ne_nil_of_mem_rawLinesOfPieces _ raw isRaw)
  calc (lines text).length = ((rawLines text).map List.length).length := by
        rw [List.length_map, rawLines, length_rawLinesOfPieces, lines]
    _ ≤ ((rawLines text).map List.length).sum := List.length_le_sum_of_one_le _ each
    _ = text.length := by
        rw [← List.length_flatten, rawLines, flatten_rawLinesOfPieces, joinLines_splitAll]

/-- Lines start where the pieces between line feeds do, if all of the text fits into words. -/
theorem startsOfRaw?_eq_some {offset : Nat} {pieces : List (List Char)}
    (fits : offset + (joinLines pieces).length < Word.limit) :
    startsOfRaw? offset (rawLinesOfPieces pieces) =
      some ((startsOfPieces offset pieces).take (linesOfPieces pieces).length) := by
  fun_induction rawLinesOfPieces pieces generalizing offset with
  | case1 => rfl
  | case2 last empty =>
      rw [linesOfPieces, if_pos empty]
      rfl
  | case3 last filled =>
      rw [joinLines, List.intercalate_singleton] at fits
      rw [linesOfPieces, if_neg filled, startsOfRaw?, Word.add?_of_lt fits]
      rfl
  | case4 piece rest more induction =>
      rw [joinLines_cons more, List.length_append, List.length_cons] at fits
      have next : offset + (piece ++ ['\n']).length = offset + piece.length + 1 := by
        rw [List.length_append, List.length_singleton, Nat.add_assoc]
      have within : offset + piece.length + 1 + (joinLines rest).length < Word.limit := by omega
      rw [linesOfPieces_cons more, startsOfRaw?, Word.add?_of_lt (by omega), next]
      simp only [Option.bind_eq_bind, Option.bind_some, induction within, startsOfPieces,
        List.length_cons, List.take_succ_cons]
      rfl

/-- Every line has a start. -/
theorem getElem?_take_lineStarts {text : List Char} {line : Nat}
    (isLine : line < (lines text).length) :
    ((lineStarts text).take (lines text).length)[line]? =
      some (((lineStarts text)[line]?).getD 0) := by
  have isStart : line < (lineStarts text).length := by
    rw [lineStarts, length_startsOfPieces]
    exact Nat.lt_of_lt_of_le isLine (length_linesOfPieces_le _)
  rw [List.getElem?_take_of_lt isLine, List.getElem?_eq_getElem isStart, Option.getD_some]

end Text

/-! ## Chunks -/

namespace Chunk

/-- The lines from one line up to another as one text, if there are any. -/
def between? (lines : List (List Char)) (first stop : Nat) : Option (Option String) :=
  if first < stop then
    (Word.slice? lines first stop).map fun between => some (String.ofList (Text.joinLines between))
  else some none

/-- The type of the chunk of a stretch of lines, in words. -/
def typeOf? (classes : List LineClass) (range : LineRange) : Option ChunkType :=
  match range.type with
  | some type => some type
  | none => do
    let behind ← Word.add? range.last 1
    let own ← Word.slice? classes range.first behind
    return LineClass.dominantType own

/-- The chunk of a stretch of lines, in words. -/
def ofRange? (config : ChunkingConfig) (fileId : String) (lines : List (List Char))
    (starts : List Nat) (classes : List LineClass) (index : Nat) (range : LineRange) :
    Option Chunk := do
  let type ← typeOf? classes range
  let behind ← Word.add? range.last 1
  let reach ← Word.add? behind config.contextLines
  let startLine ← Word.add? range.first 1
  let endLine ← Word.add? range.last 1
  let startOffset ← starts[range.first]?
  let lastOffset ← starts[range.last]?
  let last ← lines[range.last]?
  let endOffset ← Word.add? lastOffset last.length
  let own ← Word.slice? lines range.first behind
  let before ← between? lines (range.first - config.contextLines) range.first
  let after ← between? lines behind (min reach lines.length)
  return {
    id := idOf fileId index startLine endLine
    fileId
    index
    startLine
    endLine
    startOffset
    endOffset
    content := String.ofList (Text.joinLines own)
    type
    contextBefore := before
    contextAfter := after
    embedding := none }

theorem between?_of_le {lines : List (List Char)} {first stop : Nat}
    (within : stop ≤ lines.length) :
    between? lines first stop = some (joined? ((lines.drop first).take (stop - first))) := by
  rw [between?]
  split
  · next less =>
      have filled : (lines.drop first).take (stop - first) ≠ [] := by
        rw [List.ne_nil_iff_length_pos, List.length_take, List.length_drop]
        omega
      rw [Word.slice?_of_le (Nat.le_of_lt less) within, joined?,
        if_neg (mt List.isEmpty_iff.mp filled)]
      rfl
  · next passed =>
      rw [Nat.sub_eq_zero_of_le (Nat.le_of_not_lt passed), List.take_zero]
      rfl

theorem contextStop_of_lt {config : ChunkingConfig} {last : Nat}
    (fits : last + 1 + config.contextLines < Word.limit) :
    contextStop config last = last + 1 + config.contextLines :=
  Nat.mod_eq_of_lt fits

/-- A context that would reach beyond the last word ends in front of where it starts. -/
theorem contextStop_of_le {config : ChunkingConfig} {last : Nat} (short : last < Word.limit)
    (isWord : config.contextLines < Word.limit)
    (reaches : Word.limit ≤ last + 1 + config.contextLines) :
    contextStop config last ≤ last + 1 := by
  have wrapped : contextStop config last = last + 1 + config.contextLines - Word.limit := by
    rw [contextStop]
    exact (Nat.mod_eq_sub_mod reaches).trans (Nat.mod_eq_of_lt (by omega))
  omega

theorem typeOf?_eq_some {lines : List (List Char)} {classes : List LineClass}
    (classified : classes.length = lines.length) {range : LineRange}
    (order : range.first ≤ range.last) (high : range.last < lines.length)
    (fits : lines.length < Word.limit) :
    typeOf? classes range = some (range.type.getD (LineClass.dominantType
      ((classes.drop range.first).take (range.last + 1 - range.first)))) := by
  rw [typeOf?]
  cases range.type with
  | some type => rfl
  | none =>
      simp only [Option.bind_eq_bind]
      rw [Word.add?_of_lt (by omega), Option.bind_some, Word.slice?_of_le (by omega) (by omega),
        Option.bind_some]
      rfl

/-- A chunk is made in words just if the end of the context behind it is a word. -/
theorem ofRange?_eq (config : ChunkingConfig) (fileId : String) {text : List Char}
    {classes : List LineClass} (classified : classes.length = (Text.lines text).length)
    (index : Nat) {range : LineRange} (order : range.first ≤ range.last)
    (high : range.last < (Text.lines text).length) (fits : text.length < Word.limit) :
    ofRange? config fileId (Text.lines text)
        ((Text.lineStarts text).take (Text.lines text).length) classes index range =
      if range.last + 1 + config.contextLines < Word.limit then
        some (ofRange config fileId (Text.lines text) (Text.lineStarts text) classes index range)
      else none := by
  have short := Text.length_lines_le text
  have isLine := List.getElem?_eq_getElem high
  have within := Text.lineStart_add_length_le isLine
  simp only [ofRange?, Option.bind_eq_bind]
  rw [typeOf?_eq_some classified order high (by omega), Option.bind_some,
    Word.add?_of_lt (by omega), Option.bind_some]
  split
  · next reach =>
      rw [Word.add?_of_lt reach, Option.bind_some, Word.add?_of_lt (by omega), Option.bind_some,
        Option.bind_some, Text.getElem?_take_lineStarts (by omega), Option.bind_some,
        Text.getElem?_take_lineStarts high, Option.bind_some, isLine, Option.bind_some,
        Word.add?_of_lt (by omega), Option.bind_some, Word.slice?_of_le (by omega) (by omega),
        Option.bind_some, between?_of_le (by omega), Option.bind_some,
        between?_of_le (Nat.min_le_right _ _), Option.bind_some]
      have after : ((Text.lines text).drop (range.last + 1)).take
          (min (range.last + 1 + config.contextLines) (Text.lines text).length - (range.last + 1)) =
          ((Text.lines text).drop (range.last + 1)).take
            (contextStop config range.last - (range.last + 1)) := by
        rw [contextStop_of_lt reach, List.take_eq_take_iff, List.length_drop]
        omega
      rw [after, ofRange, getLast?_own order isLine]
      rfl
  · next reach =>
      rw [Word.add?_of_le (Nat.le_of_not_lt reach)]
      rfl

/-! ## Context -/

/-- The lines right in front of a chunk: as many as are asked for, or all of them. -/
def linesBefore (chunk : Chunk) (lines : List (List Char)) (count : Nat) : List (List Char) :=
  (lines.take (chunk.startLine - 1)).rtake count

/-- The lines right behind a chunk: as many as are asked for, or all of them. -/
def linesBehind (chunk : Chunk) (lines : List (List Char)) (count : Nat) : List (List Char) :=
  (lines.drop chunk.endLine).take count

/-- Whether a chunk is given the lines around it as its context. The end of the context behind it
has to be a word, or there are no lines behind it. -/
structure IsSurrounded (config : ChunkingConfig) (lines : List (List Char)) (chunk : Chunk) :
    Prop where
  before : chunk.contextBefore = joined? (chunk.linesBefore lines config.contextLines)
  behind : chunk.contextAfter = joined? (chunk.linesBehind lines config.contextLines) ↔
    chunk.endLine + config.contextLines < Word.limit ∨ lines.length ≤ chunk.endLine

theorem joined?_eq_none_iff {lines : List (List Char)} : joined? lines = none ↔ lines = [] := by
  simp [joined?]

theorem isSurrounded_ofEmpty (config : ChunkingConfig) (fileId : String) :
    (ofEmpty fileId).IsSurrounded config [] where
  before := by simp [ofEmpty, linesBefore, joined?]
  behind := by simp [ofEmpty, linesBehind, joined?]

theorem isSurrounded_ofRange (config : ChunkingConfig) (fileId : String)
    {lines : List (List Char)} (starts : List Nat) (classes : List LineClass) (index : Nat)
    {range : LineRange} (order : range.first ≤ range.last) (high : range.last < lines.length)
    (isWord : config.contextLines < Word.limit) (fits : lines.length < Word.limit) :
    (ofRange config fileId lines starts classes index range).IsSurrounded config lines := by
  let chunk := ofRange config fileId lines starts classes index range
  let behind := lines.drop (range.last + 1)
  have isContext : chunk.contextAfter =
      joined? (behind.take (contextStop config range.last - (range.last + 1))) := rfl
  have isBehind : chunk.linesBehind lines config.contextLines = behind.take config.contextLines :=
    rfl
  constructor
  case before =>
    have length : (lines.take range.first).length = range.first := List.length_take_of_le (by omega)
    show joined? _ = joined? ((lines.take range.first).rtake config.contextLines)
    rw [List.rtake, length, List.drop_take]
  case behind =>
    show chunk.contextAfter = joined? (chunk.linesBehind lines config.contextLines) ↔
      range.last + 1 + config.contextLines < Word.limit ∨ lines.length ≤ range.last + 1
    rw [isContext, isBehind]
    by_cases reach : range.last + 1 + config.contextLines < Word.limit
    · rw [contextStop_of_lt reach, Nat.add_sub_cancel_left]
      exact iff_of_true rfl (.inl reach)
    · have stops := contextStop_of_le (by omega) isWord (Nat.le_of_not_lt reach)
      have asked : config.contextLines ≠ 0 := by omega
      rw [Nat.sub_eq_zero_of_le stops, List.take_zero, or_iff_right reach]
      calc joined? [] = joined? (behind.take config.contextLines)
          ↔ joined? (behind.take config.contextLines) = none := eq_comm
        _ ↔ behind = [] := by rw [joined?_eq_none_iff, List.take_eq_nil_iff, or_iff_right asked]
        _ ↔ lines.length ≤ range.last + 1 := List.drop_eq_nil_iff

end Chunk

/-! ## Files -/

/-- The chunks of a text, in words. -/
def splitChunks? (config : ChunkingConfig) (language : Language) (fileId content : String) :
    Option (List Chunk) :=
  let characters := content.toList
  let lines := Text.lines characters
  if lines.isEmpty then some [Chunk.ofEmpty fileId]
  else do
    let classes := LineClass.ofLines language lines
    let ranges ← config.ranges? language lines
    -- The list of the starts has room for one more.
    let _ ← Word.add? lines.length 1
    let starts ← Text.startsOfRaw? 0 (Text.rawLines characters)
    ranges.zipIdx.mapM fun (range, index) =>
      Chunk.ofRange? config fileId lines starts classes index range

/-- Steps that each give their result just if it is fine give all results just if all are fine. -/
theorem mapM_eq_ite {α β : Type} {step? : α → Option β} {step : α → β} {IsFine : β → Prop}
    [DecidablePred IsFine] {items : List α}
    (each : ∀ item ∈ items, step? item = if IsFine (step item) then some (step item) else none) :
    items.mapM step? =
      if ∀ result ∈ items.map step, IsFine result then some (items.map step) else none := by
  induction items with
  | nil => rfl
  | cons item items induction =>
      rw [List.forall_mem_cons] at each
      rw [List.mapM_cons, each.1, induction each.2, List.map_cons]
      by_cases here : IsFine (step item)
      · by_cases later : ∀ result ∈ items.map step, IsFine result
        · rw [if_pos here, if_pos later, if_pos (List.forall_mem_cons.mpr ⟨here, later⟩)]
          rfl
        · rw [if_neg later, if_neg (later <| List.forall_mem_cons.mp · |>.2), if_pos here]
          rfl
      · rw [if_neg here, if_neg (here <| List.forall_mem_cons.mp · |>.1)]
        rfl

/-- The chunks of a text with lines are made in words just if the ends of their contexts are. -/
theorem splitChunks?_eq (config : ChunkingConfig) (language : Language) (fileId : String)
    {content : String} (filled : Text.lines content.toList ≠ [])
    (held : content.length < Word.limit / 2) :
    splitChunks? config language fileId content =
      if ∀ chunk ∈ splitChunks config language fileId content,
          chunk.endLine + config.contextLines < Word.limit then
        some (splitChunks config language fileId content)
      else none := by
  rw [← String.length_toList] at held
  have short := Text.length_lines_le content.toList
  have unfit : (Text.lines content.toList).isEmpty ≠ true := mt List.isEmpty_iff.mp filled
  have started : Text.startsOfRaw? 0 (Text.rawLines content.toList) =
      some ((Text.lineStarts content.toList).take (Text.lines content.toList).length) := by
    apply Text.startsOfRaw?_eq_some
    rw [Text.joinLines_splitAll]
    omega
  simp only [splitChunks?, splitChunks, if_neg unfit, Option.bind_eq_bind]
  rw [config.ranges?_eq_some language filled (by omega), Option.bind_some,
    Word.add?_of_lt (by omega), Option.bind_some, started, Option.bind_some]
  apply mapM_eq_ite
  rintro ⟨range, index⟩ member
  have isWindow := config.isWindow_of_mem_ranges language filled
    (List.fst_mem_of_mem_zipIdx member)
  exact Chunk.ofRange?_eq config fileId (LineClass.length_ofLines language _) index
    isWindow.order isWindow.high (by omega)

theorem isSurrounded_of_mem_splitChunks {config : ChunkingConfig} {language : Language}
    {fileId content : String} (isWord : config.contextLines < Word.limit)
    (held : content.length < Word.limit / 2) {chunk : Chunk}
    (member : chunk ∈ splitChunks config language fileId content) :
    chunk.IsSurrounded config (Text.lines content.toList) := by
  rw [← String.length_toList] at held
  have short := Text.length_lines_le content.toList
  by_cases empty : Text.lines content.toList = []
  · simp only [splitChunks, empty, List.isEmpty_nil, if_true, List.mem_singleton] at member
    rw [member, empty]
    exact Chunk.isSurrounded_ofEmpty config fileId
  · simp only [splitChunks, List.isEmpty_iff, empty, if_false] at member
    rcases List.mem_map.mp member with ⟨⟨range, index⟩, isRange, rfl⟩
    have isWindow := config.isWindow_of_mem_ranges language empty
      (List.fst_mem_of_mem_zipIdx isRange)
    exact Chunk.isSurrounded_ofRange config fileId _ _ index isWindow.order isWindow.high isWord
      (by omega)

end SourceIndex
