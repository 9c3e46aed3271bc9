import SourceIndex.Analysis
import SourceIndex.Json.Members

/-! Analyses read from JSON. A value that lacks a member, or has one that does not fit, is no
analysis; only what may be missing may be left out. -/

namespace SourceIndex

def Parameter.ofJson? (value : Json) : Option Parameter := do
  let name ← value.textAt? "name"
  let typeAnnotation ← Json.optionAt? Json.string? value "type_annotation"
  let defaultValue ← Json.optionAt? Json.string? value "default_value"
  let isOptional ← value.boolAt? "optional"
  return { name, typeAnnotation, defaultValue, isOptional }

def Definition.ofJson? (value : Json) : Option Definition := do
  let metadata ← match ← value.member? "metadata" with
    | .object members => some members
    | _ => none
  return {
    id := ← value.textAt? "id"
    fileId := ← value.textAt? "file_id"
    name := ← value.textAt? "name"
    qualifiedName := ← Json.optionAt? Json.string? value "qualified_name"
    kind := ← DefinitionKind.ofTag? (← value.textAt? "kind")
    startLine := ← value.naturalAt? "start_line"
    endLine := ← value.naturalAt? "end_line"
    signature := ← value.textAt? "signature"
    isExported := ← value.boolAt? "is_exported"
    isAsync := ← value.boolAt? "is_async"
    isStatic := ← value.boolAt? "is_static"
    isAbstract := ← value.boolAt? "is_abstract"
    visibility := ← Json.optionAt? (·.string?.bind Visibility.ofTag?) value "visibility"
    parentId := ← Json.optionAt? Json.string? value "parent_definition_id"
    parameters := ← Json.itemsAt? Parameter.ofJson? value "parameters"
    language := ← value.textAt? "language"
    metadata }

def ImportedName.ofJson? (value : Json) : Option ImportedName := do
  let name ← value.textAt? "name"
  let alias? ← Json.optionAt? Json.string? value "alias"
  return { name, alias? }

def DependencyFlags.ofJson? (value : Json) : Option DependencyFlags := do
  return {
    isExternal := ← value.boolAt? "is_external"
    isBuiltin := ← value.boolAt? "is_builtin"
    isRelative := ← value.boolAt? "is_relative"
    isAbsolute := ← value.boolAt? "is_absolute"
    isDynamic := ← value.boolAt? "is_dynamic"
    isDefault := ← value.boolAt? "is_default"
    isNamespace := ← value.boolAt? "is_namespace"
    isTypeOnly := ← value.boolAt? "is_type_only"
    isSideEffect := ← value.boolAt? "is_side_effect" }

def Dependency.ofJson? (value : Json) : Option Dependency := do
  return {
    id := ← value.textAt? "id"
    fileId := ← value.textAt? "source_file_id"
    target := ← value.textAt? "target_path"
    resolvedPath := ← Json.optionAt? Json.string? value "resolved_path"
    kind := ← ImportKind.ofTag? (← value.textAt? "import_kind")
    statement := ← value.textAt? "statement"
    importedNames := ← Json.itemsAt? ImportedName.ofJson? value "imported_names"
    flags := ← DependencyFlags.ofJson? (← value.member? "flags")
    line := ← value.naturalAt? "line"
    language := ← value.textAt? "language" }

/-- A vector is given as the hexadecimal digits of its bytes or as a list of numbers. -/
def Embedding.ofJson? : Json → Option Embedding
  | .string digits => (bytesOfHex? digits).map Embedding.ofBytes
  | .array numbers => (numbers.mapM Json.singleFloat?).map Embedding.ofFloats
  | _ => none

def Chunk.ofJson? (value : Json) : Option Chunk := do
  return {
    id := ← value.textAt? "id"
    fileId := ← value.textAt? "file_id"
    index := ← value.naturalAt? "chunk_index"
    startLine := ← value.naturalAt? "start_line"
    endLine := ← value.naturalAt? "end_line"
    startOffset := ← value.naturalAt? "start_char"
    endOffset := ← value.naturalAt? "end_char"
    content := ← value.textAt? "content"
    type := ← ChunkType.ofTag? (← value.textAt? "chunk_type")
    contextBefore := ← Json.optionAt? Json.string? value "context_before"
    contextAfter := ← Json.optionAt? Json.string? value "context_after"
    embedding := ← Json.optionAt? Embedding.ofJson? value "embedding" }

def ComplexityIssue.ofJson? (value : Json) : Option ComplexityIssue := do
  return {
    metric := ← value.textAt? "metric"
    severity := ← IssueSeverity.ofTag? (← value.textAt? "severity")
    value := ← value.floatAt? "value"
    threshold := ← value.floatAt? "threshold"
    message := ← value.textAt? "message" }

def ComplexityReport.ofJson? (value : Json) : Option ComplexityReport := do
  return {
    logicalLines := ← value.naturalAt? "logical_lines"
    commentLines := ← value.naturalAt? "comment_lines"
    blankLines := ← value.naturalAt? "blank_lines"
    cyclomatic := ← value.naturalAt? "cyclomatic"
    maxNesting := ← value.naturalAt? "max_nesting"
    returnCount := ← value.naturalAt? "return_count"
    maintainabilityIndex := ← value.floatAt? "maintainability_index"
    issues := ← Json.itemsAt? ComplexityIssue.ofJson? value "issues" }

def Analysis.ofJson? (value : Json) : Option Analysis := do
  return {
    definitions := ← Json.itemsAt? Definition.ofJson? value "definitions"
    dependencies := ← Json.itemsAt? Dependency.ofJson? value "dependencies"
    chunks := ← Json.itemsAt? Chunk.ofJson? value "chunks"
    complexity := ← ComplexityReport.ofJson? (← value.member? "complexity") }

end SourceIndex
