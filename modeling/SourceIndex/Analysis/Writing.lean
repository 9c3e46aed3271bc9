import SourceIndex.Analysis
import SourceIndex.Json.Value

/-! Analyses written as JSON. -/

namespace SourceIndex

def Parameter.toJson (parameter : Parameter) : Json :=
  .object [("name", .string parameter.name),
    ("type_annotation", .ofOption .string parameter.typeAnnotation),
    ("default_value", .ofOption .string parameter.defaultValue),
    ("optional", .bool parameter.isOptional)]

def Definition.toJson (definition : Definition) : Json :=
  .object [("id", .string definition.id), ("file_id", .string definition.fileId),
    ("name", .string definition.name),
    ("qualified_name", .ofOption .string definition.qualifiedName),
    ("kind", .string definition.kind.tag), ("start_line", .ofNat definition.startLine),
    ("end_line", .ofNat definition.endLine), ("signature", .string definition.signature),
    ("is_exported", .bool definition.isExported), ("is_async", .bool definition.isAsync),
    ("is_static", .bool definition.isStatic), ("is_abstract", .bool definition.isAbstract),
    ("visibility", .ofOption (fun visibility => .string visibility.tag) definition.visibility),
    ("parent_definition_id", .ofOption .string definition.parentId),
    ("parameters", .array (definition.parameters.map (·.toJson))),
    ("language", .string definition.language), ("metadata", .object definition.metadata)]

def ImportedName.toJson (name : ImportedName) : Json :=
  .object [("name", .string name.name), ("alias", .ofOption .string name.alias?)]

def DependencyFlags.toJson (flags : DependencyFlags) : Json :=
  .object [("is_external", .bool flags.isExternal), ("is_builtin", .bool flags.isBuiltin),
    ("is_relative", .bool flags.isRelative), ("is_absolute", .bool flags.isAbsolute),
    ("is_dynamic", .bool flags.isDynamic), ("is_default", .bool flags.isDefault),
    ("is_namespace", .bool flags.isNamespace), ("is_type_only", .bool flags.isTypeOnly),
    ("is_side_effect", .bool flags.isSideEffect)]

def Dependency.toJson (dependency : Dependency) : Json :=
  .object [("id", .string dependency.id), ("source_file_id", .string dependency.fileId),
    ("target_path", .string dependency.target),
    ("resolved_path", .ofOption .string dependency.resolvedPath),
    ("import_kind", .string dependency.kind.tag), ("statement", .string dependency.statement),
    ("imported_names", .array (dependency.importedNames.map (·.toJson))),
    ("flags", dependency.flags.toJson), ("line", .ofNat dependency.line),
    ("language", .string dependency.language)]

/-- A vector is written as the hexadecimal digits of its bytes, so that every bit is kept. -/
def Embedding.toJson (vector : Embedding) : Json := .string vector.toHex

namespace Chunk

/-- What is written of a chunk besides its identifier and that of its file. -/
def members (chunk : Chunk) : List (String × Json) :=
  [("chunk_index", .ofNat chunk.index), ("start_line", .ofNat chunk.startLine),
    ("end_line", .ofNat chunk.endLine), ("start_char", .ofNat chunk.startOffset),
    ("end_char", .ofNat chunk.endOffset), ("content", .string chunk.content),
    ("chunk_type", .string chunk.type.tag),
    ("context_before", .ofOption .string chunk.contextBefore),
    ("context_after", .ofOption .string chunk.contextAfter),
    ("embedding", .ofOption Embedding.toJson chunk.embedding)]

def toJson (chunk : Chunk) : Json :=
  .object (("id", .string chunk.id) :: ("file_id", .string chunk.fileId) :: chunk.members)

end Chunk

def ComplexityIssue.toJson (issue : ComplexityIssue) : Json :=
  .object [("metric", .string issue.metric), ("severity", .string issue.severity.tag),
    ("value", .decimal issue.value), ("threshold", .decimal issue.threshold),
    ("message", .string issue.message)]

def ComplexityReport.toJson (report : ComplexityReport) : Json :=
  .object [("logical_lines", .ofNat report.logicalLines),
    ("comment_lines", .ofNat report.commentLines), ("blank_lines", .ofNat report.blankLines),
    ("cyclomatic", .ofNat report.cyclomatic), ("max_nesting", .ofNat report.maxNesting),
    ("return_count", .ofNat report.returnCount),
    ("maintainability_index", .decimal report.maintainabilityIndex),
    ("issues", .array (report.issues.map (·.toJson)))]

def Analysis.toJson (analysis : Analysis) : Json :=
  .object [("definitions", .array (analysis.definitions.map (·.toJson))),
    ("dependencies", .array (analysis.dependencies.map (·.toJson))),
    ("chunks", .array (analysis.chunks.map (·.toJson))),
    ("complexity", analysis.complexity.toJson)]

end SourceIndex
