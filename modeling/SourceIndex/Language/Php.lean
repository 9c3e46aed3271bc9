import SourceIndex.Language.Basic

/-! The PHP language. -/

namespace SourceIndex.Language

open Pattern

namespace Php

def modifiers : Pattern :=
  manyWords ["public", "protected", "private", "static", "abstract", "final", "readonly"]

def definitions : List DefinitionRule := [
  .block .classType .anywhere <|
    all [.textStart, blanks, modifiers, word "class", named "name" identifier],
  .block .interface .anywhere <|
    all [.textStart, blanks, word "interface", named "name" identifier],
  .block .traitType .anywhere <|
    all [.textStart, blanks, word "trait", named "name" identifier],
  .block .enumType .anywhere <|
    all [.textStart, blanks, word "enum", named "name" identifier],
  .block .namespaceBlock .topLevel <|
    all [.textStart, blanks, word "namespace", named "name" (several (among [.word, '\\'])), blanks,
      text "\x7b"],
  .block .function .topLevel <|
    all [.textStart, blanks, word "function", maybe (text "&"), named "name" identifier, blanks,
      parameters],
  .block .function .inFunction <|
    all [.textStart, blanks, text "$", named "name" identifier, blanks, text "=", blanks,
      maybeWord "static", anyText ["function", "fn"], blanks, parameters],
  .block .method .inType <|
    all [.textStart, blanks, modifiers, word "function", maybe (text "&"), named "name" identifier,
      blanks, parameters],
  .leaf .constant .anywhere <|
    all [.textStart, blanks, manyWords ["public", "protected", "private", "final"], word "const",
      maybe (all [several (among [.word]), gap]), named "name" identifier, blanks, text "="],
  .leaf .property .inType <|
    all [.textStart, blanks,
      anyText ["public", "protected", "private", "static", "readonly", "var"], gap,
      manyWords ["public", "protected", "private", "static", "readonly", "var"],
      maybe (all [maybe (text "?"), several (among [.word, '\\']), gap]), text "$",
      named "name" identifier]]

def imports : ImportGrammar where
  rules := [
    { kind := .useStatement
      pattern :=
        all [.textStart, blanks, word "use", maybe (anyOf [word "function", word "const"]),
          maybe (text "\\"), named "path" (several (among [.word, '\\'])),
          maybe (all [gap, word "as", named "alias" (several (among [.word]))]), blanks,
          text ";"] },
    { kind := .requireCall
      pattern :=
        all [.wordEdge, anyText ["require", "require_once", "include", "include_once"], blanks,
          maybe (text "("), blanks, oneOf (among ['\'', '"']),
          named "path" (several (outside ['\'', '"'])), oneOf (among ['\'', '"'])] }]
  relativeLeads := [['.', '/'], ['.', '.', '/']]
  separator := some ['\\']

end Php

def php : Language where
  id := "php"
  extensions := ["php", "phtml"]
  scopeStyle := .braces
  separator := "::"
  lexicon := {
    lineComments := [['/', '/'], ['#']]
    blockComment := some (['/', '*'], ['*', '/'])
    strings := [doubleQuoted, singleQuoted] }
  rules := Php.definitions
  denied := controlWords ++ ["function", "fn", "echo", "print", "isset", "unset", "empty", "list",
    "array", "elseif"]
  constructorNames := ["__construct"]
  destructorNames := ["__destruct"]
  exportStyle := .publicModifier
  parameterStyle := .typeThenName
  decisions := anyOf [keywords ["if", "elseif", "for", "foreach", "while", "catch", "case"], text "&&",
    text "||", questionMark, keywords ["and"], keywords ["or"]]
  imports := Php.imports

end SourceIndex.Language
