import SourceIndex.Definition.Braces
import SourceIndex.Definition.Indentation
import SourceIndex.Markup.Region
import SourceIndex.Language.Catalogue
import SourceIndex.Text.Lines

/-! The definitions of a whole file, found in the way that its language delimits scopes. -/

namespace SourceIndex

/-- The definitions of lines that are each taken alone. -/
def scanPlain (language : Language) (input : ScanInput) : List Definition :=
  let stripped := language.lexicon.stripLines .code input.lines
  let numbered := (input.lines.zip stripped).zipIdx input.firstLine
  numbered.filterMap fun ((line, stripped), number) =>
    if Text.isBlankText stripped.code then none
    else (Definition.recognize? language ⟨input.fileId, number, .topLevel, none, []⟩ line).map (·.1)

/-- The language of a script region, if it is known and the script is part of the document. -/
def scriptLanguage? (language : Language) (region : Region) : Option Language :=
  if region.kind = .script && !region.isExternal then
    match region.language.map String.ofList with
    | some name =>
      if ["ts", "typescript", "tsx"].contains name then some .typescript
      else if ["js", "javascript", "jsx"].contains name then some .javascript
      else none
    | none => language.embeddedScript.bind Language.find?
  else none

def sectionDefinition (language : Language) (fileId : String) (region : Region)
    (openingLine : List Char) : Definition :=
  let name := String.ofList region.tag
  let named := region.language.toList.map fun name => ("lang", Json.string (String.ofList name))
  let external := if region.isExternal then [("external", Json.bool true)] else []
  { id := stableId [fileId, DefinitionKind.sectionBlock.tag, name, toString (region.start + 1)]
    fileId
    name
    qualifiedName := none
    kind := .sectionBlock
    startLine := region.start + 1
    endLine := region.stop + 1
    signature := String.ofList ((Text.trim openingLine).take Definition.maxSignatureLength)
    isExported := false
    isAsync := false
    isStatic := false
    isAbstract := false
    visibility := none
    parentId := none
    parameters := []
    language := language.id
    metadata := ("region", .string region.kind.tag) :: named ++ external }

/-- The definitions of a region: the section itself and, if it is a script of a known language, what
its lines define. -/
def regionDefinitions (language : Language) (fileId : String) (lines : List (List Char))
    (region : Region) : List Definition :=
  let sectionOf := sectionDefinition language fileId region ((lines[region.start]?).getD [])
  let nested := match scriptLanguage? language region, region.innerLines? with
    | some script, some (first, last) =>
      let inner := (lines.drop first).take (last - first + 1)
      let input : ScanInput := ⟨fileId, first + 1, some sectionOf, inner⟩
      match script.scopeStyle with
      | .indentation => scanIndentation script input
      | _ => scanBraces script input
    | _, _ => []
  sectionOf :: nested

def scanMarkup (language : Language) (fileId : String) (lines : List (List Char)) :
    List Definition :=
  (Region.findAll lines).flatMap (regionDefinitions language fileId lines)

def extractDefinitions (language : Language) (fileId content : String) : List Definition :=
  let lines := Text.lines content.toList
  let input : ScanInput := ⟨fileId, 1, none, lines⟩
  match language.scopeStyle with
  | .braces => scanBraces language input
  | .indentation => scanIndentation language input
  | .plain => scanPlain language input
  | .markup => scanMarkup language fileId lines

end SourceIndex
