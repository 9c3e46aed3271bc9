import SourceIndex.Chunk.LineClass
import SourceIndex.Identifier
import SourceIndex.Markup.Region
import SourceIndex.Text.Lines

/-! A file cut into chunks: windows of lines that overlap, and in documents windows within regions
and within the stretches between them. -/

namespace SourceIndex

/-- A stretch of lines, counted from zero, both ends included, and the type that its chunk is
given in advance. -/
structure LineRange where
  first : Nat
  last : Nat
  type : Option ChunkType
  deriving DecidableEq, Repr

namespace ChunkingConfig

/-- A window holds at least one line. -/
def windowSize (config : ChunkingConfig) : Nat := max config.windowLines 1

/-- Each window starts at least one line behind the one before. -/
def stride (config : ChunkingConfig) : Nat := max (config.windowSize - config.overlapLines) 1

def windowsFrom (config : ChunkingConfig) (total start : Nat) : List (Nat × Nat) :=
  let stop := min (start + config.windowSize) total
  if stop < total then (start, stop - 1) :: config.windowsFrom total (start + config.stride)
  else [(start, stop - 1)]
termination_by total - start
decreasing_by
  have : 1 ≤ config.stride := by unfold stride; omega
  have : 1 ≤ config.windowSize := by unfold windowSize; omega
  omega

def windows (config : ChunkingConfig) (first last : Nat) (type : Option ChunkType) :
    List LineRange :=
  (config.windowsFrom (last + 1) first).map fun (first, last) => ⟨first, last, type⟩

/-- Windows over a stretch between regions, without the blank lines at its ends. -/
def gapWindows (config : ChunkingConfig) (lines : List (List Char)) (first last : Nat) :
    List LineRange :=
  let isBlank := fun index => ((lines[index]?).map Text.isBlankText).getD true
  let inked := ((List.range (last + 1 - first)).map (first + ·)).filter (! isBlank ·)
  match inked.head?, inked.getLast? with
  | some first, some last => config.windows first last none
  | _, _ => []

/-- Windows over the regions and the stretches between them, from line `cursor` on. -/
def regionWindows (config : ChunkingConfig) (lines : List (List Char)) :
    (cursor : Nat) → List Region → List LineRange
  | cursor, [] =>
    if cursor < lines.length then config.gapWindows lines cursor (lines.length - 1) else []
  | cursor, region :: regions =>
    let gap :=
      if region.start > cursor then config.gapWindows lines cursor (region.start - 1) else []
    gap ++ config.windows region.start region.stop (some region.kind.chunkType)
      ++ config.regionWindows lines (region.stop + 1) regions

/-- The stretches of lines that become chunks. A short file is one chunk. -/
def ranges (config : ChunkingConfig) (language : Language) (lines : List (List Char)) :
    List LineRange :=
  if lines.length ≤ config.windowSize then [⟨0, lines.length - 1, none⟩]
  else if language.scopeStyle = .markup then
    match Region.findAll lines with
    | [] => config.windows 0 (lines.length - 1) none
    | regions => config.regionWindows lines 0 regions
  else config.windows 0 (lines.length - 1) none

end ChunkingConfig

namespace Chunk

def joined? (lines : List (List Char)) : Option String :=
  if lines.isEmpty then none else some (String.ofList (Text.joinLines lines))

def idOf (fileId : String) (index startLine endLine : Nat) : String :=
  stableId [fileId, "chunk", toString index, toString startLine, toString endLine]

/-- The line behind the context that follows line `last`. Line numbers are words of 64 bits, so a
context that would reach beyond the last word ends in front of where it starts. -/
def contextStop (config : ChunkingConfig) (last : Nat) : Nat :=
  (last + 1 + config.contextLines) % 0x10000000000000000

/-- The chunk of a stretch of lines. `starts` holds the offset of each line. -/
def ofRange (config : ChunkingConfig) (fileId : String) (lines : List (List Char))
    (starts : List Nat) (classes : List LineClass) (index : Nat) (range : LineRange) : Chunk :=
  let count := range.last + 1 - range.first
  let own := (lines.drop range.first).take count
  let contextStart := range.first - config.contextLines
  let before := (lines.drop contextStart).take (range.first - contextStart)
  let after := (lines.drop (range.last + 1)).take (contextStop config range.last - (range.last + 1))
  let offset := fun line => (starts[line]?).getD 0
  { id := idOf fileId index (range.first + 1) (range.last + 1)
    fileId
    index
    startLine := range.first + 1
    endLine := range.last + 1
    startOffset := offset range.first
    endOffset := offset range.last + (own.getLast?.getD []).length
    content := String.ofList (Text.joinLines own)
    type := range.type.getD (LineClass.dominantType ((classes.drop range.first).take count))
    contextBefore := joined? before
    contextAfter := joined? after
    embedding := none }

def ofEmpty (fileId : String) : Chunk :=
  { id := idOf fileId 0 1 1
    fileId
    index := 0
    startLine := 1
    endLine := 1
    startOffset := 0
    endOffset := 0
    content := ""
    type := .code
    contextBefore := none
    contextAfter := none
    embedding := none }

end Chunk

def splitChunks (config : ChunkingConfig) (language : Language) (fileId content : String) :
    List Chunk :=
  let characters := content.toList
  let lines := Text.lines characters
  if lines.isEmpty then [Chunk.ofEmpty fileId]
  else
    let starts := Text.lineStarts characters
    let classes := LineClass.ofLines language lines
    (config.ranges language lines).zipIdx.map fun (range, index) =>
      Chunk.ofRange config fileId lines starts classes index range

end SourceIndex
