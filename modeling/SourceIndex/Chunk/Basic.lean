import SourceIndex.Embedding.Vector

/-! Chunks: stretches of lines into which a file is cut, each with a little of what surrounds it. -/

namespace SourceIndex

/-- What the lines of a chunk mostly are. -/
inductive ChunkType
  | code
  | comment
  | imports
  | mixed
  | structural
  | style
  deriving DecidableEq, Repr

namespace ChunkType

def tag : ChunkType → String
  | code => "code"
  | comment => "comment"
  | imports => "import"
  | mixed => "mixed"
  | structural => "structural"
  | style => "style"

def values : List ChunkType := [code, comment, imports, mixed, structural, style]

def ofTag? (word : String) : Option ChunkType := values.find? (·.tag == word)

end ChunkType

/-- A stretch of lines, counted from one, which is the text between two character offsets. -/
structure Chunk where
  id : String
  fileId : String
  index : Nat
  startLine : Nat
  endLine : Nat
  startOffset : Nat
  /-- The offset behind the last character. -/
  endOffset : Nat
  content : String
  type : ChunkType
  contextBefore : Option String
  contextAfter : Option String
  embedding : Option Embedding

/-- How a file is cut: the lines of a chunk, the lines that neighbours share, and the lines of
context that a chunk is given on either side. -/
structure ChunkingConfig where
  windowLines : Nat := 50
  overlapLines : Nat := 10
  contextLines : Nat := 3
  deriving DecidableEq, Repr

end SourceIndex
