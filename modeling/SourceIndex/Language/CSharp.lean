import SourceIndex.Language.Basic

/-! The C# language. -/

namespace SourceIndex.Language

open Pattern

namespace CSharp

def modifiers : Pattern :=
  manyWords ["public", "protected", "private", "internal", "abstract", "static", "sealed",
    "partial", "virtual", "override", "async", "readonly", "unsafe", "extern", "new", "const",
    "volatile", "required"]

/-- A type, perhaps with type arguments, perhaps nullable, perhaps an array. -/
def typeName : Pattern :=
  all [several (among [.word, '.']), maybe (enclosed '<' '>'), maybe (text "?"),
    repeated (text "[]")]

def definitions : List DefinitionRule := [
  .block .namespaceBlock .anywhere <|
    all [.textStart, blanks, word "namespace", named "name" (several (among [.word, '.']))],
  .block .classType .anywhere <|
    all [.textStart, blanks, modifiers,
      anyOf [text "class", all [text "record", maybe (all [gap, text "class"])]], gap,
      named "name" identifier],
  .block .structType .anywhere <|
    all [.textStart, blanks, modifiers, maybeWord "record", word "struct", named "name" identifier],
  .block .interface .anywhere <|
    all [.textStart, blanks, modifiers, word "interface", named "name" identifier],
  .block .enumType .anywhere <|
    all [.textStart, blanks, modifiers, word "enum", named "name" identifier],
  .block .destructor .inType <|
    all [.textStart, blanks, text "~", named "name" capitalName, blanks, text "(", blanks,
      text ")"],
  .block .constructor .inType <|
    all [.textStart, blanks, manyWords ["public", "protected", "private", "internal", "static"],
      named "name" capitalName, blanks, parameters, blanks,
      maybe (all [text ":", blanks, anyText ["base", "this"], blanks, enclosed '(' ')']), blanks,
      bodyOrEnd],
  .block .method .inType <|
    all [.textStart, blanks, modifiers, named "ret" typeName, gap, named "name" identifier, blanks,
      maybe (enclosed '<' '>'), blanks, parameters, blanks,
      maybe (all [word "where", many (outside ['\x7b'])]),
      maybe (anyOf [all [text "\x7b", rest], text ";", all [text "=>", rest]]), blanks, .textEnd],
  .block .property .inType <|
    all [.textStart, blanks, modifiers, named "ret" typeName, gap, named "name" identifier, blanks,
      anyText ["\x7b", "=>"]],
  .leaf .variableBinding .inType <|
    all [.textStart, blanks, modifiers, named "ret" typeName, gap, named "name" identifier, blanks,
      maybe (all [text "=", many (outside [';'])]), text ";"]]

def imports : ImportGrammar where
  rules := [
    { kind := .useStatement, bindsModule := true
      pattern :=
        all [.textStart, blanks, maybeWord "global", word "using", maybeWord "static",
          maybe (all [named "alias" (several (among [.word])), blanks, text "=", blanks]),
          named "path" (several (among [.word, '.'])), blanks, text ";"] }]
  builtins := ["System", "Microsoft"]
  separator := some ['.']

end CSharp

def csharp : Language where
  id := "csharp"
  extensions := ["cs"]
  scopeStyle := .braces
  lexicon := { slashComments with strings := [doubleQuoted, singleQuoted] }
  rules := CSharp.definitions
  denied := controlWords ++ ["public", "protected", "private", "internal", "static", "using",
    "lock", "fixed", "checked", "unchecked", "else", "base", "this", "get", "set", "var", "nameof"]
  classNamedConstructor := true
  exportStyle := .publicModifier
  parameterStyle := .typeThenName
  decisions := slashDecisions
  imports := CSharp.imports

end SourceIndex.Language
