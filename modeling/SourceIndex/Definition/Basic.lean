import SourceIndex.Json.Value

/-! Definitions: named units of source text, such as functions and classes. -/

namespace SourceIndex

inductive DefinitionKind
  | function
  | method
  | classType
  | interface
  | structType
  | enumType
  | traitType
  | typeAlias
  | constant
  | variableBinding
  | property
  | constructor
  | destructor
  | namespaceBlock
  | moduleBlock
  | macroRule
  | implBlock
  | sectionBlock
  deriving DecidableEq, Repr, Inhabited

namespace DefinitionKind

def tag : DefinitionKind → String
  | function => "function"
  | method => "method"
  | classType => "class"
  | interface => "interface"
  | structType => "struct"
  | enumType => "enum"
  | traitType => "trait"
  | typeAlias => "type"
  | constant => "constant"
  | variableBinding => "variable"
  | property => "property"
  | constructor => "constructor"
  | destructor => "destructor"
  | namespaceBlock => "namespace"
  | moduleBlock => "module"
  | macroRule => "macro"
  | implBlock => "impl"
  | sectionBlock => "section"

def values : List DefinitionKind :=
  [function, method, classType, interface, structType, enumType, traitType, typeAlias, constant,
    variableBinding, property, constructor, destructor, namespaceBlock, moduleBlock, macroRule,
    implBlock, sectionBlock]

def ofTag? (word : String) : Option DefinitionKind := values.find? (·.tag == word)

/-- Whether the body holds members such as methods and fields. -/
def isTypeLike : DefinitionKind → Bool
  | classType | interface | structType | enumType | traitType | implBlock => true
  | _ => false

/-- Whether the body holds statements. -/
def isCallable : DefinitionKind → Bool
  | function | method | constructor | destructor => true
  | _ => false

end DefinitionKind

inductive Visibility
  | publicAccess
  | privateAccess
  | protectedAccess
  | internalAccess
  deriving DecidableEq, Repr

namespace Visibility

def tag : Visibility → String
  | publicAccess => "public"
  | privateAccess => "private"
  | protectedAccess => "protected"
  | internalAccess => "internal"

def values : List Visibility := [publicAccess, privateAccess, protectedAccess, internalAccess]

def ofTag? (word : String) : Option Visibility := values.find? (·.tag == word)

end Visibility

structure Parameter where
  name : String
  typeAnnotation : Option String
  defaultValue : Option String
  isOptional : Bool
  deriving DecidableEq, Repr

/-- A named unit of a file. Lines are counted from one, and the last line is the one on which the
definition's scope closes. -/
structure Definition where
  id : String
  fileId : String
  name : String
  /-- The names of the enclosing scopes and its own, where it has any. -/
  qualifiedName : Option String
  kind : DefinitionKind
  startLine : Nat
  endLine : Nat
  signature : String
  isExported : Bool
  isAsync : Bool
  isStatic : Bool
  isAbstract : Bool
  visibility : Option Visibility
  parentId : Option String
  parameters : List Parameter
  language : String
  /-- What only some definitions have, such as decorators, bases or a receiver. -/
  metadata : List (String × Json)
  deriving Inhabited

end SourceIndex
