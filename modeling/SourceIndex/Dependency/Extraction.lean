import SourceIndex.Code.Brackets
import SourceIndex.Dependency.Target
import SourceIndex.Identifier
import SourceIndex.Text.Lines

/-! The dependencies of a whole file. A statement is taken from one line, from the lines of an import
block, or from several lines joined into one. -/

namespace SourceIndex

namespace Dependency

/-! ## Names -/

/-- An imported name and its other name, written with `as` or, in a pattern, with a colon. -/
def splitAlias (entry : List Char) : List Char × Option (List Char) :=
  let entry := Text.trim entry
  match Text.splitOnce? " as ".toList entry with
  | some (name, other) => (Text.trim name, some (Text.trim other))
  | none =>
    match Text.splitOnce? [':'] entry with
    | some (name, other) =>
      if other.head? = some ':' then (entry, none) else (Text.trim name, some (Text.trim other))
    | none => (entry, none)

def importedName (name : List Char) (other : Option (List Char)) : ImportedName :=
  ⟨String.ofList name, other.map String.ofList⟩

/-- What a list of names imports: the names, and whether all names are among them. -/
def readNames (list : List Char) : List ImportedName × Bool :=
  let entries := (splitList list).map fun entry =>
    Text.trim ((Text.dropLead? "type ".toList entry).getD entry)
  let named := (entries.filter (· ≠ ['*'])).map splitAlias
  ((named.filter (! ·.1.isEmpty)).map fun (name, other) => importedName name other,
    entries.contains ['*'])

/-! ## One statement -/

structure Statement where
  text : List Char
  line : Nat

def maxStatementLength : Nat := 500

def addKindFlags (kind : ImportKind) (flags : DependencyFlags) : DependencyFlags :=
  match kind with
  | .dynamicCall => { flags with isDynamic := true }
  | .typeOnly => { flags with isTypeOnly := true }
  | .sideEffect => { flags with isSideEffect := true }
  | _ => flags

/-- The dependency of a statement on the given target, the `ordinal`-th of the statement. -/
def make (language : Language) (fileId : String) (kind : ImportKind) (statement : Statement)
    (ordinal : Nat) (target : List Char) (names : List ImportedName) (flags : DependencyFlags) :
    Dependency :=
  let target := String.ofList target
  { id := stableId [fileId, "dependency", toString statement.line, toString ordinal, target, kind.tag]
    fileId
    target
    resolvedPath := none
    kind
    statement := String.ofList ((Text.trim statement.text).take maxStatementLength)
    importedNames := names
    flags := addKindFlags kind flags
    line := statement.line
    language := language.id }

/-- Whether a statement that gives no names takes the last segment of its target as a name. -/
def bindsLastSegment (grammar : ImportGrammar) (kind : ImportKind) (bindsModule : Bool)
    (target : List Char) (names : List ImportedName) : Bool :=
  names.isEmpty && !bindsModule && (kind == .useStatement || kind == .importStatement)
    && grammar.separator.any (Text.contains target ·) && grammar.scopeMark.isNone

/-- The dependency that a match makes, if its target is not blank. -/
def ofMatch? (language : Language) (fileId : String) (kind : ImportKind) (isLocal bindsModule : Bool)
    (statement : Statement) (found : Pattern.Match) : Option Dependency := do
  let target := Text.trim (← found.text? "path")
  if target.isEmpty then none
  else
    let grammar := language.imports
    let default := found.text? "default"
    let whole := found.text? "ns"
    let (listed, hasAll) := readNames ((found.text? "names").getD [])
    let other := (found.text? "alias").map String.ofList
    let last := grammar.lastSegment target
    let aliased := match other with
      | none | some "_" | some "." => []
      | some name => [⟨String.ofList last, some name⟩]
    let names := default.toList.map (fun name => importedName "default".toList (some name))
      ++ whole.toList.map (fun name => importedName ['*'] (some name)) ++ listed ++ aliased
    let isWildcard := target.getLast? == some '*'
    let names :=
      if !isWildcard && bindsLastSegment grammar kind bindsModule target names then
        [importedName last none]
      else names
    let flags := { grammar.classify target isLocal with
      isDefault := default.isSome
      isNamespace := whole.isSome || hasAll || other == some "." || isWildcard || bindsModule
      isSideEffect := other == some "_" }
    some (make language fileId kind statement 0 (ImportGrammar.dropWildcards target) names flags)

/-- The dependencies of a statement that lists several targets. -/
def ofList (language : Language) (fileId : String) (rule : ImportRule) (statement : Statement)
    (list : List Char) : List Dependency :=
  ((splitList list).zipIdx).filterMap fun (entry, ordinal) =>
    let (target, other) := splitAlias entry
    if target.isEmpty then none
    else
      let flags := { language.imports.classify target rule.isLocal with
        isNamespace := rule.bindsModule }
      some (make language fileId rule.kind statement ordinal target [importedName target other]
        flags)

/-- The dependencies of a statement: the first rule that fits it decides. -/
def ofStatement (language : Language) (fileId : String) (statement : Statement) : List Dependency :=
  let fitting := language.imports.rules.findSome? fun rule =>
    (rule.pattern.find? statement.text).map (rule, ·)
  match fitting with
  | none => []
  | some (rule, found) =>
    if rule.splitsTargets then
      ofList language fileId rule statement ((found.text? "path").getD [])
    else
      (ofMatch? language fileId rule.kind rule.isLocal rule.bindsModule statement found).toList

/-! ## All statements -/

structure Scan where
  lineNumber : Nat := 1
  inBlock : Bool := false
  /-- A statement whose end has not been reached. -/
  pending : Option Statement := none
  /-- The dependencies found so far, those of the latest statement first. -/
  found : List (List Dependency) := []

namespace Scan

/-- A statement that has grown beyond so many bytes is taken as it is. -/
def maxPendingSize : Nat := 4000

/-- Whether a line is a line comment. Where `#` starts a comment, `#include` does not. -/
def isLineComment (language : Language) (trimmed : List Char) : Bool :=
  language.lexicon.lineComments.any fun mark =>
    Text.startsWith trimmed mark && !Text.startsWith trimmed "#include".toList

def add (scan : Scan) (dependencies : List Dependency) : Scan :=
  { scan with found := dependencies :: scan.found }

def takePending (language : Language) (fileId : String) (scan : Scan) (statement : Statement)
    (line : List Char) : Scan :=
  let statement := { statement with text := statement.text ++ ' ' :: Text.trim line }
  let isClosed := language.imports.continuation.any (·.closing.occursIn line)
  if isClosed || Text.byteSize statement.text > maxPendingSize then
    { scan with pending := none }.add (ofStatement language fileId statement)
  else { scan with pending := some statement }

def takeBlockLine (language : Language) (fileId : String) (scan : Scan) (block : ImportBlock)
    (line : List Char) : Scan :=
  if block.closing.occursIn line then { scan with inBlock := false }
  else
    match block.entry.find? line with
    | some found =>
      scan.add (ofMatch? language fileId block.kind false false ⟨line, scan.lineNumber⟩ found).toList
    | none => scan

def takeStatementLine (language : Language) (fileId : String) (scan : Scan) (line : List Char) :
    Scan :=
  if language.imports.block.any (·.opening.occursIn line) then { scan with inBlock := true }
  else if language.imports.continuation.any (·.opening.occursIn line) then
    { scan with pending := some ⟨Text.trim line, scan.lineNumber⟩ }
  else scan.add (ofStatement language fileId ⟨line, scan.lineNumber⟩)

def takeFreeLine (language : Language) (fileId : String) (scan : Scan) (line : List Char) : Scan :=
  let trimmed := Text.trimStart line
  if trimmed.isEmpty || isLineComment language trimmed then scan
  else
    match scan.inBlock, language.imports.block with
    | true, some block => scan.takeBlockLine language fileId block line
    | _, _ => scan.takeStatementLine language fileId line

def take (language : Language) (fileId : String) (scan : Scan) (line : List Char) : Scan :=
  let scan := match scan.pending with
    | some statement => scan.takePending language fileId statement line
    | none => scan.takeFreeLine language fileId line
  { scan with lineNumber := scan.lineNumber + 1 }

/-- The dependencies in the order of their statements. A statement that is still pending is taken
as far as it goes. -/
def finish (language : Language) (fileId : String) (scan : Scan) : List Dependency :=
  let scan := match scan.pending with
    | some statement => scan.add (ofStatement language fileId statement)
    | none => scan
  scan.found.reverse.flatten

end Scan

end Dependency

def extractDependencies (language : Language) (fileId content : String) : List Dependency :=
  let final := (Text.lines content.toList).foldl (Dependency.Scan.take language fileId) {}
  final.finish language fileId

end SourceIndex
