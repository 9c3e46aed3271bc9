import SourceIndex.Language.Java

/-! The Kotlin language, which shares its packages with Java. -/

namespace SourceIndex.Language

open Pattern

namespace Kotlin

def modifiers : Pattern :=
  manyWords ["public", "private", "protected", "internal", "override", "open", "lateinit",
    "abstract", "final"]

def definitions : List DefinitionRule := [
  .block .classType .anywhere <|
    all [.textStart, blanks,
      manyWords ["public", "private", "protected", "internal", "abstract", "open", "sealed", "data",
        "annotation", "inner", "value", "final"], maybe (named "enumkw" (word "enum")),
      anyText ["class", "object"], gap, named "name" identifier],
  .block .interface .anywhere <|
    all [.textStart, blanks,
      manyWords ["public", "private", "protected", "internal", "sealed", "fun"], word "interface",
      named "name" identifier],
  .leaf .typeAlias .anywhere <|
    all [.textStart, blanks, maybe (all [anyText ["public", "private", "internal"], gap]),
      word "typealias", named "name" identifier],
  .block .function .anywhere <|
    all [.textStart, blanks,
      manyWords ["public", "private", "protected", "internal", "open", "override", "abstract",
        "final", "suspend", "inline", "operator", "infix", "tailrec", "external"], word "fun",
      maybe (all [enclosed '<' '>', blanks]), maybe (all [several (among [.word, '.']), text "."]),
      named "name" identifier, blanks, parameters],
  .leaf .property .inType <|
    all [.textStart, blanks, modifiers, maybe (named "constant" (word "const")),
      anyText ["val", "var"], gap, named "name" identifier],
  .leaf .variableBinding .topLevel <|
    all [.textStart, blanks, modifiers, maybe (named "constant" (word "const")),
      anyText ["val", "var"], gap, named "name" identifier]]

end Kotlin

def kotlin : Language where
  id := "kotlin"
  extensions := ["kt", "kts"]
  scopeStyle := .braces
  lexicon := { slashComments with strings := [tripleQuoted, doubleQuoted, singleQuoted] }
  rules := Kotlin.definitions
  denied := controlWords ++ ["when", "fun", "val", "var", "object", "super", "this", "else"]
  constructorNames := ["init", "constructor"]
  exportStyle := .defaultPublic
  decisions := anyOf [keywords ["if", "for", "while", "catch", "when"], text "&&", text "||", text "?:"]
  imports := Java.imports

end SourceIndex.Language
