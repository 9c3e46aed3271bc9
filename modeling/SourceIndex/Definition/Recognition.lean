import SourceIndex.Definition.Parameters
import SourceIndex.Identifier

/-! Definitions recognized on a line: the first rule of the language that fits the line and makes a
definition of it decides. -/

namespace SourceIndex

structure Site where
  fileId : String
  lineNumber : Nat
  /-- What the innermost open scope holds. -/
  scope : ScopeContext
  parent : Option Definition
  decorators : List String

namespace Definition

/-! ## Names -/

/-- A name as a line gives it. A member that is defined outside of its type is named by a path;
`owner` is that path without its last segment. -/
structure WrittenName where
  name : String
  owner : Option (List (List Char)) := none

/-- Splits a path of a language that writes paths with double colons. -/
def WrittenName.of (language : Language) (name : List Char) : WrittenName :=
  if language.separator = "::" && Text.contains name [':', ':'] then
    let segments := Text.splitText [':', ':'] name
    { name := String.ofList ((segments.getLast?).getD []), owner := some segments.dropLast }
  else { name := String.ofList name }

def startsWithTilde (name : String) : Bool := name.toList.head? == some '~'

/-- At least two characters, of which one is an upper-case letter and none a lower-case one. -/
def isScreaming (name : String) : Bool :=
  let characters := name.toList
  Text.byteSize characters > 1 && characters.any Text.isAsciiUpper
    && !characters.any Text.isAsciiLower

/-! ## Kinds -/

def memberKind (name : String) (owner : List (List Char)) : DefinitionKind :=
  if startsWithTilde name then .destructor
  else if owner.getLast?.map String.ofList == some name then .constructor
  else .method

/-- A function that stands in a type is a method, and special names make constructors and
destructors of functions and methods. -/
def callableKind (language : Language) (site : Site) (kind : DefinitionKind) (name : String) :
    DefinitionKind :=
  let kind := match kind, site.scope with
    | .function, .inType _ => .method
    | _, _ => kind
  if kind ∈ [.method, .function, .constructor] then
    if language.constructorNames.contains name then .constructor
    else if language.destructorNames.contains name || startsWithTilde name then .destructor
    else kind
  else kind

/-- Whether a line that looks like a constructor is none: where constructors are named like their
type, its name has to be that of the enclosing definition. -/
def isForeignConstructor (language : Language) (rule : DefinitionRule) (site : Site)
    (written : WrittenName) : Bool :=
  rule.kind == .constructor && language.classNamedConstructor && written.owner.isNone
    && (site.parent.map (·.name)).getD "" != String.ofList (written.name.toList.dropWhile (· = '~'))

/-- Whether a variable or property is a constant: by its keyword, its spelling, or the marks of its
line. -/
def isConstant (language : Language) (found : Pattern.Match) (name : String) (line : List Char) :
    Bool :=
  (found.capture? "constant").isSome || isScreaming name
    || (!language.constantMarks.isEmpty
      && language.constantMarks.all fun mark => Text.contains line mark.toList)

def kindOf (language : Language) (rule : DefinitionRule) (site : Site) (found : Pattern.Match)
    (written : WrittenName) (line : List Char) : DefinitionKind :=
  let ruleKind := match written.owner with
    | some owner => memberKind written.name owner
    | none => rule.kind
  let kind := callableKind language site ruleKind written.name
  let kind :=
    if rule.kind == .constructor && language.classNamedConstructor && written.owner.isNone
      && startsWithTilde written.name then .destructor
    else kind
  let kind :=
    if kind ∈ [.variableBinding, .property] && isConstant language found written.name line then
      .constant
    else kind
  if (found.capture? "enumkw").isSome then .enumType else kind

/-! ## Visibility -/

def statedVisibility? (words : List String) : Option Visibility :=
  if words.contains "private" || words.contains "fileprivate" then some .privateAccess
  else if words.contains "protected" then some .protectedAccess
  else if words.contains "internal" then some .internalAccess
  else if words.contains "public" || words.contains "open" then some .publicAccess
  else none

/-- The text in front of a name, and the words in it. -/
structure Lead where
  text : List Char
  words : List String

/-- The lead of the given length. Words are stretches of alphanumeric characters and low lines. -/
def Lead.of (line : List Char) (length : Nat) : Lead :=
  let text := line.take length
  let pieces := Text.splitAll (fun character => !(Text.isAlphanumeric character || character == '_')) text
  ⟨text, (pieces.filter (! ·.isEmpty)).map String.ofList⟩

def visibilityOf (language : Language) (site : Site) (name : String) (lead : Lead)
    (hasParent : Bool) : Option Visibility × Bool :=
  let stated := statedVisibility? lead.words
  let atTopLevel := site.scope == .topLevel
  match language.exportStyle with
  | .exportKeyword =>
    let visibility :=
      if name.toList.head? = some '#' then some .privateAccess
      else match stated, site.scope with
        | some visibility, _ => some visibility
        | none, .inType _ => some .publicAccess
        | none, _ => none
    (visibility, atTopLevel && lead.words.head? == some "export")
  | .pubKeyword =>
    let visibility : Visibility :=
      if Text.contains lead.text "pub(".toList then .internalAccess
      else if lead.words.contains "pub" then .publicAccess
      else .privateAccess
    (some visibility, visibility == .publicAccess)
  | .capitalized =>
    let isPublic := name.toList.head?.any Text.isUppercase
    (some (if isPublic then .publicAccess else .privateAccess), isPublic)
  | .publicModifier => (stated, stated == some .publicAccess)
  | .defaultPublic =>
    let visibility := stated.getD .publicAccess
    (some visibility, visibility != .privateAccess)
  | .lowLine =>
    let characters := name.toList
    let isSpecial := Text.startsWith characters ['_', '_'] && Text.endsWith characters ['_', '_']
    let isPrivate := characters.head? == some '_' && !isSpecial
    (some (if isPrivate then .privateAccess else .publicAccess), !isPrivate && !hasParent)
  | .notStatic => (stated, atTopLevel && !lead.words.contains "static")
  | .unmarked => (none, false)

/-! ## Signatures and metadata -/

def maxSignatureLength : Nat := 240

/-- The line up to its block, in one line of single blanks and of limited length. -/
def signatureOf (language : Language) (line : List Char) (opensBlock : Bool) : String :=
  let text := Text.trim line
  let text := if opensBlock then text.takeWhile (· ≠ '\x7b') else text
  let text :=
    if language.scopeStyle = .indentation then Text.dropEndWhile (· = ':') (Text.trimEnd text)
    else text
  String.ofList ((Text.collapse text).take maxSignatureLength)

/-- The type of a method's receiver: the last word, without pointer marks and type arguments. -/
def receiverType (receiver : List Char) : List Char :=
  ((Parameter.lastWord receiver).dropWhile (· = '*')).takeWhile (· ≠ '[')

def receiver? (found : Pattern.Match) : Option (List Char) :=
  (found.text? "recv").bind fun receiver => Parameter.nonEmpty? (receiverType receiver)

def listEntry (name : String) (texts : List String) : List (String × Json) :=
  if texts.isEmpty then [] else [(name, .array (texts.map .string))]

/-- What a line says beyond what every definition has. -/
def metadataOf (found : Pattern.Match) (written : WrittenName) (decorators : List String) :
    List (String × Json) :=
  let owner := written.owner.toList.map fun segments =>
    ("owner", Json.string (String.ofList (List.intercalate [':', ':'] segments)))
  let receiver := (receiver? found).toList.map fun name =>
    ("receiver", Json.string (String.ofList name))
  let implemented := (found.text? "trait").toList.map fun name =>
    ("trait", Json.string (String.ofList (Text.trim name)))
  let bases := listEntry "bases"
    ((splitList ((found.text? "bases").getD [])).map String.ofList)
  owner ++ receiver ++ implemented ++ bases ++ listEntry "decorators" decorators

/-- The names of the scopes around a definition and its own name. A receiver's type or the path by
which a member is named goes before the enclosing definition, and sections of documents do not
count. -/
def qualifiedNameOf (language : Language) (found : Pattern.Match) (written : WrittenName)
    (fullName : List Char) (parent : Option Definition) : Option String :=
  match receiver? found, written.owner with
  | some receiver, _ => some (String.ofList receiver ++ language.separator ++ written.name)
  | none, some _ => some (String.ofList fullName)
  | none, none =>
    (parent.filter (·.kind ≠ .sectionBlock)).map fun enclosing =>
      enclosing.qualifiedName.getD enclosing.name ++ language.separator ++ written.name

/-! ## Definitions -/

/-- Whether what a match has captured as a name makes no definition: it is no name, the language
denies it or the type in front of it, or it only looks like a constructor. -/
def isRefused (language : Language) (rule : DefinitionRule) (site : Site) (found : Pattern.Match)
    (fullName : List Char) : Bool :=
  let returned := (found.text? "ret").map fun type => String.ofList (Text.trim type)
  fullName.isEmpty || language.denies (String.ofList fullName) || returned.any language.denies
    || isForeignConstructor language rule site (WrittenName.of language fullName)

/-- The definition that a rule's match on a line makes of the name that it has captured. -/
def ofCapture (language : Language) (rule : DefinitionRule) (site : Site) (line : List Char)
    (found : Pattern.Match) (capture : Pattern.Capture) : Definition :=
  let fullName := Text.trim capture.text
  let written := WrittenName.of language fullName
  let kind := kindOf language rule site found written line
  let parent := if (found.capture? "recv").isSome then none else site.parent
  let qualifiedName := qualifiedNameOf language found written fullName parent
  let lead := Lead.of line capture.start
  let (visibility, isExported) := visibilityOf language site written.name lead parent.isSome
  let parameters := ((found.text? "params").orElse fun _ =>
    (found.text? "aparams").orElse fun _ => found.text? "single")
  { id := stableId [site.fileId, kind.tag, qualifiedName.getD written.name,
      toString site.lineNumber]
    fileId := site.fileId
    name := written.name
    qualifiedName
    kind
    startLine := site.lineNumber
    endLine := site.lineNumber
    signature := signatureOf language line rule.opensBlock
    isExported
    isAsync := lead.words.contains "async" || lead.words.contains "suspend"
    isStatic := lead.words.contains "static"
    isAbstract := lead.words.contains "abstract" || Text.contains line "= 0;".toList
    visibility
    parentId := parent.map (·.id)
    parameters := (parameters.map (Parameter.readAll language.parameterStyle)).getD []
    language := language.id
    metadata := metadataOf found written site.decorators }

/-- The definition that a rule's match on a line makes, if its name may be one. -/
def ofMatch? (language : Language) (rule : DefinitionRule) (site : Site) (line : List Char)
    (found : Pattern.Match) : Option Definition := do
  let capture ← found.capture? "name"
  if isRefused language rule site found (Text.trim capture.text) then none
  else some (ofCapture language rule site line found capture)

/-- A rule that fits a line, its match there, and the definition that it makes. -/
structure Pick where
  rule : DefinitionRule
  found : Pattern.Match
  definition : Definition

/-- The first rule that makes a definition of a line. -/
def pick? (language : Language) (site : Site) (line : List Char) : Option Pick :=
  (language.rules.filter (·.context.admits site.scope)).findSome? fun rule => do
    let found ← rule.pattern.find? line
    let definition ← ofMatch? language rule site line found
    return ⟨rule, found, definition⟩

/-- The definition on a line, and whether it may open a scope. -/
def recognize? (language : Language) (site : Site) (line : List Char) : Option (Definition × Bool) :=
  (pick? language site line).map fun pick => (pick.definition, pick.rule.opensBlock)

end Definition

end SourceIndex
