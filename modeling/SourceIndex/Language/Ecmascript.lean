import SourceIndex.Language.Basic

/-! JavaScript and TypeScript, which share all rules. -/

namespace SourceIndex.Language

open Pattern

namespace Ecmascript

/-- A name; dollar signs are letters. -/
def scriptName : Pattern :=
  all [oneOf (among [.between 'A' 'Z', .between 'a' 'z', '_', '$']), many (among [.word, '$'])]

/-- The type of a result, up to the sign that follows it. -/
def returnType : Pattern :=
  maybe (all [text ":", several (outside ['='])])

/-- What makes the value of a variable a function. -/
def functionValue : Pattern :=
  all [blanks, returnType, text "=", blanks, maybeWord "async",
    anyOf [all [text "function", .wordEdge, blanks, maybe (text "*"), blanks,
        many (among [.word, '$']), blanks, text "(", named "params" (many (outside [')'])),
        text ")"],
      all [text "(", named "aparams" (many (outside [')'])), text ")", blanks, returnType,
        text "=>"], all [named "single" scriptName, blanks, text "=>"]]]

/-- Type parameters, if there are any, in front of a parenthesis. -/
def typeParameters : Pattern :=
  all [blanks, maybe (all [text "<", many (outside ['(']), text ">"]), blanks]

def definitions : List DefinitionRule := [
  .block .classType .anywhere <|
    all [.textStart, blanks, maybeWord "export", maybeWord "default", maybeWord "declare",
      maybeWord "abstract", word "class", named "name" scriptName],
  .block .interface .anywhere <|
    all [.textStart, blanks, maybeWord "export", maybeWord "declare", word "interface",
      named "name" scriptName],
  .block .typeAlias .anywhere <|
    all [.textStart, blanks, maybeWord "export", maybeWord "declare", word "type",
      named "name" scriptName, blanks, maybe (all [text "<", many (outside ['=']), text ">"]),
      blanks, text "="],
  .block .enumType .anywhere <|
    all [.textStart, blanks, maybeWord "export", maybeWord "declare", maybeWord "const",
      word "enum", named "name" scriptName],
  .block .namespaceBlock .anywhere <|
    all [.textStart, blanks, maybeWord "export", maybeWord "declare", word "namespace",
      named "name" (all [scriptName, repeated (all [text ".", scriptName])])],
  .block .function .topLevel <|
    all [.textStart, blanks, maybeWord "export", maybeWord "default", maybeWord "declare",
      maybeWord "async", text "function", blanks, maybe (text "*"), blanks, named "name" scriptName,
      typeParameters, parameters],
  .block .function .topLevel <|
    all [.textStart, blanks, maybeWord "export", anyText ["const", "let", "var"], gap,
      named "name" scriptName, functionValue],
  .block .function .inFunction <|
    all [.textStart, blanks, maybeWord "async", text "function", blanks, maybe (text "*"), blanks,
      named "name" scriptName, typeParameters, parameters],
  .block .function .inFunction <|
    all [.textStart, blanks, anyText ["const", "let", "var"], gap, named "name" scriptName,
      functionValue],
  .block .method .inType <|
    all [.textStart, blanks,
      manyWords ["public", "private", "protected", "static", "readonly", "abstract", "override",
        "async", "declare", "get", "set"], maybe (text "*"), blanks,
      named "name" (all [maybe (text "#"), scriptName]), blanks, maybe (text "?"), typeParameters,
      parameters, blanks, maybe (all [text ":", blanks, severalFew (outside ['\x7b', ';', '='])]),
      blanks, anyOf [text "\x7b", text ";", .textEnd]],
  .block .method .inType <|
    all [.textStart, blanks,
      manyWords ["public", "private", "protected", "static", "readonly", "override"],
      named "name" (all [maybe (text "#"), scriptName]), blanks, returnType, text "=", blanks,
      maybeWord "async",
      anyOf [all [text "(", named "aparams" (many (outside [')'])), text ")"],
        named "single" scriptName], blanks, returnType, text "=>"],
  .leaf .property .inType <|
    all [.textStart, blanks,
      manyWords ["public", "private", "protected", "static", "readonly", "declare", "override",
        "abstract"], named "name" (all [maybe (text "#"), scriptName]), blanks,
      maybe (oneOf (among ['?', '!'])), blanks,
      maybe (all [text ":", blanks, several (outside ['=', ';', '('])]),
      maybe (all [text "=", many (outside [';'])]), maybe (text ";"), blanks, .textEnd],
  .leaf .variableBinding .topLevel <|
    all [.textStart, blanks, maybeWord "export",
      anyOf [named "constant" (text "const"), text "let", text "var"], gap, named "name" scriptName,
      blanks, returnType, text "="]]

/-- A target between quotes of any kind. -/
def quotedPath : Pattern :=
  all [oneOf (among ['\'', '"', '\x60']), named "path" (several (outside ['\'', '\x60', '"'])),
    oneOf (among ['\'', '"', '\x60'])]

def defaultName : Pattern := named "default" (several (among [.word, '$']))

def wholeName : Pattern := named "ns" (several (among [.word, '$']))

def nameList : Pattern :=
  all [text "\x7b", named "names" (many (outside ['\x7d'])), text "\x7d"]

def importRules : List ImportRule := [
    { kind := .typeOnly
      pattern :=
        all [.textStart, blanks, word "import", word "type",
          anyOf [nameList, all [text "*", gap, word "as", wholeName], defaultName], blanks,
          text "from", blanks, quotedPath] },
    { kind := .importStatement
      pattern :=
        all [.textStart, blanks, word "import", maybe (all [defaultName, blanks, text ",", blanks]),
          nameList, blanks, text "from", blanks, quotedPath] },
    { kind := .importStatement
      pattern :=
        all [.textStart, blanks, word "import", maybe (all [defaultName, blanks, text ",", blanks]),
          text "*", blanks, word "as", wholeName, gap, text "from", blanks, quotedPath] },
    { kind := .importStatement
      pattern :=
        all [.textStart, blanks, word "import", defaultName, gap, text "from", blanks,
          quotedPath] },
    { kind := .sideEffect
      pattern :=
        all [.textStart, blanks, text "import", blanks, quotedPath] },
    { kind := .dynamicCall
      pattern :=
        all [.wordEdge, text "import", blanks, text "(", blanks, quotedPath, blanks, text ")"] },
    { kind := .reExport
      pattern :=
        all [.textStart, blanks, word "export", maybeWord "type",
          anyOf [all [text "*", maybe (all [gap, word "as", wholeName])], nameList], blanks,
          text "from", blanks, quotedPath] },
    { kind := .requireCall
      pattern :=
        all [maybe (all [anyText ["const", "let", "var"], gap, anyOf [nameList, defaultName],
            blanks, text "=", blanks]), .wordEdge, text "require", blanks, text "(", blanks,
          quotedPath, blanks, text ")"] }]

def imports : ImportGrammar where
  rules := importRules
  continuation := some {
    opening := all [.textStart, blanks, anyText ["import", "export"], gap, maybeWord "type",
        maybe (all [several (among [.word, '$']), blanks, text ",", blanks]), text "\x7b",
        many (outside ['\x7d']), .textEnd]
    closing := all [.wordEdge, text "from", blanks, oneOf (among ['\'', '"', '\x60'])] }
  builtins := ["assert", "async_hooks", "buffer", "child_process", "cluster", "console",
    "constants", "crypto", "dgram", "diagnostics_channel", "dns", "domain", "events", "fs", "http",
    "http2", "https", "inspector", "module", "net", "os", "path", "perf_hooks", "process",
    "punycode", "querystring", "readline", "repl", "stream", "string_decoder", "timers", "tls",
    "trace_events", "tty", "url", "util", "v8", "vm", "wasi", "worker_threads", "zlib"]
  builtinLeads := [['n', 'o', 'd', 'e', ':'], ['b', 'u', 'n', ':']]
  relativeLeads := [['.', '/'], ['.', '.', '/'], ['.']]
  separator := some ['/']
  scopeMark := some '@'

end Ecmascript

def javascript : Language where
  id := "javascript"
  extensions := ["js", "jsx", "mjs", "cjs"]
  scopeStyle := .braces
  lexicon := { slashComments with strings := [backQuoted, doubleQuoted, singleQuoted] }
  rules := Ecmascript.definitions
  denied := controlWords ++ ["function", "super", "this", "import", "export", "require", "with"]
  constructorNames := ["constructor"]
  exportStyle := .exportKeyword
  decisions := slashDecisions
  imports := Ecmascript.imports

def typescript : Language :=
  { javascript with id := "typescript", extensions := ["ts", "tsx", "mts", "cts"] }

end SourceIndex.Language
