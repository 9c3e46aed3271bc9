import SourceIndex.Pattern.Building
import SourceIndex.Definition.Basic
import SourceIndex.Dependency.Basic
import SourceIndex.Lexicon.Basic

/-! What has to be known of a language to find the definitions and dependencies of its files. -/

namespace SourceIndex

/-! ## Scopes -/

/-- How a language marks where a scope ends. Languages of the plain style have no known scopes. -/
inductive ScopeStyle
  | braces
  | indentation
  | markup
  | plain
  deriving DecidableEq, Repr

inductive ScopeContext
  | topLevel
  | inFunction
  | inType (kind : DefinitionKind)
  | other
  deriving DecidableEq, Repr

/-- The context inside a definition of the given kind, or outside of all definitions. -/
def ScopeContext.of : Option DefinitionKind → ScopeContext
  | none => .topLevel
  | some kind =>
    if kind ∈ [.namespaceBlock, .moduleBlock, .sectionBlock] then .topLevel
    else if kind.isTypeLike then .inType kind
    else if kind.isCallable then .inFunction
    else .other

inductive RuleContext
  | anywhere
  | topLevel
  | inFunction
  | inType
  | within (kinds : List DefinitionKind)
  deriving DecidableEq, Repr

def RuleContext.admits : RuleContext → ScopeContext → Bool
  | .anywhere, _ => true
  | .topLevel, .topLevel => true
  | .inFunction, .inFunction => true
  | .inType, .inType _ => true
  | .within kinds, .inType kind => kind ∈ kinds
  | _, _ => false

/-! ## Definitions -/

/-- A pattern for the line on which a definition starts. Its part `name` is the name; the parts
`params`, `aparams`, `single`, `ret`, `constant`, `enumkw`, `recv`, `trait` and `bases` say more. -/
structure DefinitionRule where
  kind : DefinitionKind
  context : RuleContext
  pattern : Pattern
  /-- Whether what is defined may open a scope. -/
  opensBlock : Bool

def DefinitionRule.block (kind : DefinitionKind) (context : RuleContext) (pattern : Pattern) :
    DefinitionRule := ⟨kind, context, pattern, true⟩

/-- A rule for definitions that never open a scope. -/
def DefinitionRule.leaf (kind : DefinitionKind) (context : RuleContext) (pattern : Pattern) :
    DefinitionRule := ⟨kind, context, pattern, false⟩

inductive ExportStyle
  | exportKeyword
  | pubKeyword
  | capitalized
  | publicModifier
  | defaultPublic
  | lowLine
  | notStatic
  | unmarked
  deriving DecidableEq, Repr

inductive ParameterStyle
  /-- As `name: Type = default`. -/
  | nameColonType
  /-- As `Type name = default`. -/
  | typeThenName
  /-- As `name Type`. -/
  | nameThenType
  deriving DecidableEq, Repr

/-! ## Dependencies -/

/-- A pattern for a statement that names a dependency. Its part `path` is the target; the parts
`names`, `default`, `ns` and `alias` say what is taken from it. -/
structure ImportRule where
  kind : ImportKind
  pattern : Pattern
  /-- The target always belongs to the project. -/
  isLocal : Bool := false
  /-- The target is a list of targets, each perhaps with another name. -/
  splitsTargets : Bool := false
  /-- The statement makes the whole module known under one name. -/
  bindsModule : Bool := false

/-- A block that lists dependencies, one on each line. -/
structure ImportBlock where
  kind : ImportKind
  opening : Pattern
  entry : Pattern
  closing : Pattern

/-- A statement that goes on over the following lines, up to the one that the closing pattern
fits. -/
structure ImportContinuation where
  opening : Pattern
  closing : Pattern

/-- How a language names its dependencies, and how their targets are told apart. -/
structure ImportGrammar where
  rules : List ImportRule := []
  block : Option ImportBlock := none
  continuation : Option ImportContinuation := none
  /-- Packages that come with the language. -/
  builtins : List String := []
  /-- What only targets that come with the language start with. -/
  builtinLeads : List (List Char) := []
  /-- What targets inside the project start with. -/
  relativeLeads : List (List Char) := []
  /-- What stands between the segments of a target. -/
  separator : Option (List Char) := none
  /-- A package that starts so is named by its first two segments. -/
  scopeMark : Option Char := none
  /-- A package that holds this character does not come with the language. -/
  externalMark : Option Char := none

/-! ## Languages -/

structure Language where
  id : String
  extensions : List String := []
  filenames : List String := []
  scopeStyle : ScopeStyle
  /-- What stands between the names of a qualified name. -/
  separator : String := "."
  lexicon : Lexicon
  rules : List DefinitionRule := []
  /-- Words that are never names. -/
  denied : List String
  constructorNames : List String := []
  destructorNames : List String := []
  /-- A member named like the type around it is a constructor. -/
  classNamedConstructor : Bool := false
  /-- A variable whose line holds all of these texts is a constant. -/
  constantMarks : List String := []
  exportStyle : ExportStyle := .unmarked
  parameterStyle : ParameterStyle := .nameColonType
  /-- What makes the flow of control branch. -/
  decisions : Pattern
  imports : ImportGrammar := {}
  /-- The language of scripts that are embedded without naming theirs. -/
  embeddedScript : Option String := none

def Language.denies (language : Language) (word : String) : Bool := language.denied.contains word

/-- Words that steer the flow of control; they are names in no language. -/
def controlWords : List String :=
  ["if", "else", "for", "foreach", "while", "do", "switch", "case", "catch", "try", "finally",
    "return", "throw", "throws", "new", "delete", "typeof", "instanceof", "sizeof", "await",
    "yield", "break", "continue", "goto", "static_cast", "dynamic_cast", "reinterpret_cast",
    "const_cast", "default", "in", "of", "as", "is"]

namespace Language

open Pattern

/-- Comments as the family of C writes them. -/
def slashComments : Lexicon :=
  { lineComments := [['/', '/']], blockComment := some (['/', '*'], ['*', '/']) }

def doubleQuoted : StringStyle := ⟨['"'], false⟩

def singleQuoted : StringStyle := ⟨['\''], false⟩

def tripleQuoted : StringStyle := ⟨['"', '"', '"'], true⟩

def backQuoted : StringStyle := ⟨['\x60'], true⟩

/-- A name that starts with a capital letter. -/
def capitalName : Pattern := all [.oneOf (among [.between 'A' 'Z']), many (among [.word])]

def rest : Pattern := many (outside ['\n'])

/-- The end of a line, or an opening brace and whatever follows it. -/
def bodyOrEnd : Pattern := all [maybe (all [text "\x7b", rest]), .textEnd]

/-- One of several words that stand alone. -/
def keywords (words : List String) : Pattern := all [.wordEdge, anyText words, .wordEdge]

/-- A question mark with a blank on either side. -/
def questionMark : Pattern := all [.oneOf (among [.blank]), text "?", .oneOf (among [.blank])]

/-- Decisions as the family of C writes them. -/
def slashDecisions : Pattern :=
  anyOf [keywords ["if", "for", "foreach", "while", "catch", "case"], text "&&", text "||",
    questionMark]

/-- Parameters up to the first closing parenthesis, which may be missing on this line. -/
def parameters : Pattern :=
  all [text "(", named "params" (many (outside [')'])), maybe (text ")")]

end Language

end SourceIndex
