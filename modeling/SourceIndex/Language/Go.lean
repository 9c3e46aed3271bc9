import SourceIndex.Language.Basic

/-! The Go language. -/

namespace SourceIndex.Language

open Pattern

namespace Go

def definitions : List DefinitionRule := [
  .block .structType .anywhere <|
    all [.textStart, blanks, word "type", named "name" identifier, maybe (enclosed '[' ']'), gap,
      text "struct", .wordEdge],
  .block .interface .anywhere <|
    all [.textStart, blanks, word "type", named "name" identifier, maybe (enclosed '[' ']'), gap,
      text "interface", .wordEdge],
  .leaf .typeAlias .anywhere <|
    all [.textStart, blanks, word "type", named "name" identifier, maybe (enclosed '[' ']'), gap,
      maybe (text "="), blanks, oneOf (among [.word, '*', '[', ']'])],
  .block .function .topLevel <|
    all [.textStart, word "func", named "name" identifier, blanks, maybe (enclosed '[' ']'), blanks,
      parameters],
  .block .function .topLevel <|
    all [.textStart, word "var", named "name" identifier, blanks, text "=", blanks, text "func",
      blanks, parameters],
  .block .function .inFunction <|
    all [.textStart, blanks, named "name" identifier, blanks, maybe (text ":"), text "=", blanks,
      text "func", blanks, parameters],
  .block .method .topLevel <|
    all [.textStart, text "func", blanks, text "(", named "recv" (many (outside [')'])), text ")",
      blanks, named "name" identifier, blanks, maybe (enclosed '[' ']'), blanks, parameters],
  .leaf .method (.within [.interface]) <|
    all [.textStart, gap, named "name" identifier, blanks, text "(",
      named "params" (many (outside [')'])), text ")"],
  .leaf .property (.within [.structType]) <|
    all [.textStart, gap, named "name" identifier, gap, oneOf (among ['*', '[', ']', .word, '.'])],
  .leaf .variableBinding .topLevel <|
    all [.textStart, anyOf [named "constant" (text "const"), text "var"], gap,
      named "name" identifier]]

/-- A quoted target, perhaps with a name in front of it. -/
def importSpec : Pattern :=
  all [maybe (all [named "alias" (several (among [.word, '.'])), gap]), text "\"",
    named "path" (several (outside ['"'])), text "\""]

def imports : ImportGrammar where
  rules := [
    { kind := .importStatement
      pattern :=
        all [.textStart, blanks, word "import", importSpec] }]
  block := some {
    kind := .importStatement
    opening := all [.textStart, blanks, text "import", blanks, text "(", blanks, .textEnd]
    entry := all [.textStart, blanks, importSpec]
    closing := all [.textStart, blanks, text ")"] }
  builtins := ["archive", "bufio", "bytes", "cmp", "compress", "container", "context", "crypto",
    "database", "debug", "embed", "encoding", "errors", "expvar", "flag", "fmt", "go", "hash",
    "html", "image", "index", "io", "iter", "log", "maps", "math", "mime", "net", "os", "path",
    "plugin", "reflect", "regexp", "runtime", "slices", "sort", "strconv", "strings", "sync",
    "syscall", "testing", "text", "time", "unicode", "unique", "unsafe"]
  relativeLeads := [['.', '/'], ['.', '.', '/']]
  separator := some ['/']
  externalMark := some '.'

end Go

def go : Language where
  id := "go"
  extensions := ["go"]
  scopeStyle := .braces
  lexicon := { slashComments with strings := [backQuoted, doubleQuoted, singleQuoted] }
  rules := Go.definitions
  denied := controlWords ++ ["func", "go", "defer", "select", "range", "map", "chan", "type"]
  exportStyle := .capitalized
  parameterStyle := .nameThenType
  decisions := slashDecisions
  imports := Go.imports

end SourceIndex.Language
