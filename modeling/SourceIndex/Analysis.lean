import SourceIndex.Chunk.Splitting
import SourceIndex.Complexity.Measurement
import SourceIndex.Definition.Extraction
import SourceIndex.Dependency.Extraction

/-! All that is taken from one file. -/

namespace SourceIndex

/-- What one pass over a file yields. -/
structure Analysis where
  definitions : List Definition
  dependencies : List Dependency
  chunks : List Chunk
  complexity : ComplexityReport

def analyze (config : ChunkingConfig) (fileId content languageName : String) : Analysis :=
  let language := Language.ofName languageName
  { definitions := extractDefinitions language fileId content
    dependencies := extractDependencies language fileId content
    chunks := splitChunks config language fileId content
    complexity := measureComplexity language content }

end SourceIndex
