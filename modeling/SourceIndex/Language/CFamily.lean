import SourceIndex.Language.Basic

/-! C and C++, which share all rules. -/

namespace SourceIndex.Language

open Pattern

namespace CFamily

/-- A type, perhaps with pointer or reference marks. -/
def returnType : Pattern :=
  all [oneOf (among [.between 'A' 'Z', .between 'a' 'z', '_']),
    many (among [.word, ':', '<', '>', ',']), maybe (all [blanks, several (among ['*', '&'])])]

def templateHead : Pattern :=
  maybe (all [text "template", blanks, enclosed '<' '>', blanks])

def definitions : List DefinitionRule := [
  .block .namespaceBlock .anywhere <|
    all [.textStart, blanks, maybeWord "inline", word "namespace",
      named "name" (several (among [.word, ':'])), blanks, bodyOrEnd],
  .block .classType .anywhere <|
    all [.textStart, blanks, templateHead, word "class",
      maybe (all [oneOf (among [.between 'A' 'Z', '_']),
        several (among [.between 'A' 'Z', .between '0' '9', '_']), gap]), named "name" identifier,
      blanks, maybe (all [text "final", blanks]),
      maybe (all [text ":", many (outside [';', '\x7b'])]), bodyOrEnd],
  .block .structType .anywhere <|
    all [.textStart, blanks, maybeWord "typedef", templateHead, anyText ["struct", "union"], gap,
      named "name" identifier, blanks, maybe (all [text ":", many (outside [';', '\x7b'])]),
      bodyOrEnd],
  .leaf .typeAlias .anywhere <|
    all [.textStart, blanks, word "using", named "name" identifier, blanks, text "="],
  .leaf .typeAlias .anywhere <|
    all [.textStart, blanks, word "typedef", few (outside [';', '(']), .wordEdge,
      named "name" identifier, blanks, text ";", blanks, .textEnd],
  .block .enumType .anywhere <|
    all [.textStart, blanks, maybeWord "typedef", word "enum",
      maybe (anyOf [word "class", word "struct"]), named "name" identifier, blanks,
      maybe (all [text ":", blanks, several (among [.word, ':']), blanks]), bodyOrEnd],
  .leaf .macroRule .anywhere <|
    all [.textStart, blanks, text "#", blanks, word "define", named "name" identifier],
  .block .function .topLevel <|
    all [.textStart, blanks, templateHead,
      manyWords ["static", "inline", "extern", "virtual", "constexpr", "explicit", "friend",
        "unsigned", "signed", "const", "volatile"], named "ret" returnType, gap,
      many (among ['*', '&']),
      named "name" (all [repeated (all [identifier, text "::"]), maybe (text "~"), identifier]),
      blanks, text "(", named "params" (few (outside [';'])), maybe (text ")"), blanks,
      maybe (all [text "const", blanks]), maybe (all [text "noexcept", blanks]),
      maybe (all [text "override", blanks]),
      maybe (all [text "->", blanks, several (among [.word, ':', '<', '>', '*', '&']), blanks]),
      bodyOrEnd],
  .block .constructor .inType <|
    all [.textStart, blanks, maybeWord "explicit", maybeWord "virtual",
      named "name" (all [maybe (text "~"), capitalName]), blanks, parameters, blanks,
      maybe (all [text "noexcept", blanks]), maybe (all [text ":", rest]),
      maybe (all [text "=", blanks, anyText ["default", "delete"], blanks]),
      maybe (anyOf [text ";", all [text "\x7b", rest]]), blanks, .textEnd],
  .block .method .inType <|
    all [.textStart, blanks,
      manyWords ["static", "inline", "virtual", "constexpr", "explicit", "friend", "const"],
      named "ret" returnType, gap, many (among ['*', '&']),
      named "name" (all [maybe (text "~"), identifier]), blanks, parameters, blanks,
      maybe (all [text "const", blanks]), maybe (all [text "noexcept", blanks]),
      maybe (all [text "override", blanks]), maybe (all [text "final", blanks]),
      maybe (all [text "=", blanks, anyText ["0", "default", "delete"], blanks]),
      maybe (anyOf [text ";", all [text "\x7b", rest]]), blanks, .textEnd],
  .leaf .variableBinding .inType <|
    all [.textStart, blanks, manyWords ["static", "const", "mutable", "constexpr", "inline"],
      named "ret" returnType, gap, many (among ['*', '&']), named "name" identifier, blanks,
      maybe (enclosed '[' ']'), blanks,
      maybe (anyOf [all [text "=", many (outside [';'])],
        all [text "\x7b", many (outside ['\x7d']), text "\x7d"]]), text ";", blanks, .textEnd]]

def imports : ImportGrammar where
  rules := [
    { kind := .includeDirective, isLocal := true
      pattern :=
        all [.textStart, blanks, text "#", blanks, text "include", blanks, text "\"",
          named "path" (several (outside ['"'])), text "\""] },
    { kind := .includeDirective
      pattern :=
        all [.textStart, blanks, text "#", blanks, text "include", blanks, text "<",
          named "path" (several (outside ['>'])), text ">"] }]
  builtins := ["assert.h", "ctype.h", "errno.h", "float.h", "limits.h", "locale.h", "math.h",
    "setjmp.h", "signal.h", "stdarg.h", "stdbool.h", "stddef.h", "stdint.h", "stdio.h", "stdlib.h",
    "string.h", "time.h", "wchar.h", "unistd.h", "pthread.h", "fcntl.h", "algorithm", "array",
    "atomic", "chrono", "cmath", "cstdint", "cstdio", "cstdlib", "cstring", "deque", "filesystem",
    "fstream", "functional", "iomanip", "iostream", "iterator", "list", "map", "memory", "mutex",
    "numeric", "optional", "queue", "set", "sstream", "stack", "stdexcept", "string", "string_view",
    "thread", "tuple", "type_traits", "unordered_map", "unordered_set", "utility", "variant",
    "vector"]
  builtinLeads := [['s', 'y', 's', '/']]

end CFamily

def cpp : Language where
  id := "cpp"
  extensions := ["cpp", "cc", "cxx", "hpp", "hh", "hxx", "ipp"]
  scopeStyle := .braces
  separator := "::"
  lexicon := { slashComments with strings := [doubleQuoted, singleQuoted] }
  rules := CFamily.definitions
  denied := controlWords ++ ["else", "return", "public", "private", "protected", "operator",
    "template", "typename", "using", "namespace", "struct", "class", "enum", "union", "this"]
  classNamedConstructor := true
  exportStyle := .notStatic
  parameterStyle := .typeThenName
  decisions := slashDecisions
  imports := CFamily.imports

def c : Language := { cpp with id := "c", extensions := ["c", "h"], separator := "." }

end SourceIndex.Language
