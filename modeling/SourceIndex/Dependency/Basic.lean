/-! Dependencies: what a file asks for from elsewhere, such as its imports. -/

namespace SourceIndex

inductive ImportKind
  | importStatement
  | requireCall
  | includeDirective
  | useStatement
  | fromStatement
  | dynamicCall
  | typeOnly
  | reExport
  | sideEffect
  deriving DecidableEq, Repr

namespace ImportKind

def tag : ImportKind → String
  | importStatement => "import"
  | requireCall => "require"
  | includeDirective => "include"
  | useStatement => "use"
  | fromStatement => "from"
  | dynamicCall => "dynamic"
  | typeOnly => "type-only"
  | reExport => "re-export"
  | sideEffect => "side-effect"

def values : List ImportKind :=
  [importStatement, requireCall, includeDirective, useStatement, fromStatement, dynamicCall,
    typeOnly, reExport, sideEffect]

def ofTag? (word : String) : Option ImportKind := values.find? (·.tag == word)

end ImportKind

structure ImportedName where
  name : String
  alias? : Option String
  deriving DecidableEq, Repr

structure DependencyFlags where
  isExternal : Bool := false
  isBuiltin : Bool := false
  isRelative : Bool := false
  isAbsolute : Bool := false
  isDynamic : Bool := false
  isDefault : Bool := false
  isNamespace : Bool := false
  isTypeOnly : Bool := false
  isSideEffect : Bool := false
  deriving DecidableEq, Repr

/-- One target that a file depends on, with the line on which its statement starts. -/
structure Dependency where
  id : String
  fileId : String
  target : String
  /-- The path that the target leads to. It is left to those who know the file tree. -/
  resolvedPath : Option String
  kind : ImportKind
  statement : String
  importedNames : List ImportedName
  flags : DependencyFlags
  line : Nat
  language : String
  deriving DecidableEq, Repr

end SourceIndex
