import SourceIndex.Language.Basic

/-! The Swift language. -/

namespace SourceIndex.Language

open Pattern

namespace Swift

def modifiers : Pattern :=
  repeated (all [anyOf [text "public", text "private", text "fileprivate", text "internal",
      text "open", text "final", text "static", text "class", text "override", text "mutating",
      text "nonmutating", text "lazy", text "weak", text "unowned",
      all [text "@", several (among [.word])]], gap])

def definitions : List DefinitionRule := [
  .block .classType .anywhere <|
    all [.textStart, blanks, modifiers, anyText ["class", "actor"], gap, named "name" identifier],
  .block .structType .anywhere <|
    all [.textStart, blanks, modifiers, word "struct", named "name" identifier],
  .block .implBlock .anywhere <|
    all [.textStart, blanks, modifiers, word "extension",
      named "name" (several (among [.word, '.']))],
  .block .interface .anywhere <|
    all [.textStart, blanks, modifiers, word "protocol", named "name" identifier],
  .leaf .typeAlias .anywhere <|
    all [.textStart, blanks, modifiers, word "typealias", named "name" identifier],
  .block .enumType .anywhere <|
    all [.textStart, blanks, modifiers, maybeWord "indirect", word "enum", named "name" identifier],
  .block .function .anywhere <|
    all [.textStart, blanks, modifiers, word "func",
      named "name" (anyOf [identifier, several (outside [.blank, '(', '<'])]), blanks,
      maybe (enclosed '<' '>'), blanks, parameters],
  .block .constructor .inType <|
    all [.textStart, blanks,
      manyWords ["public", "private", "fileprivate", "internal", "convenience", "required",
        "override"], named "name" (text "init"), maybe (oneOf (among ['?', '!'])), blanks,
      maybe (enclosed '<' '>'), blanks, parameters],
  .block .destructor .inType <|
    all [.textStart, blanks, named "name" (text "deinit"), .wordEdge],
  .leaf .property .inType <|
    all [.textStart, blanks, modifiers, anyOf [named "constant" (text "let"), text "var"], gap,
      named "name" identifier],
  .leaf .variableBinding .topLevel <|
    all [.textStart, blanks, modifiers, anyOf [named "constant" (text "let"), text "var"], gap,
      named "name" identifier]]

def imports : ImportGrammar where
  rules := [
    { kind := .importStatement, bindsModule := true
      pattern :=
        all [.textStart, blanks, maybeWord "@testable", word "import",
          maybe (all [anyText ["class", "struct", "enum", "protocol", "func", "var", "let",
              "typealias"], gap]), named "path" (several (among [.word, '.']))] }]
  builtins := ["Foundation", "UIKit", "SwiftUI", "Swift", "Darwin", "Combine", "XCTest", "AppKit",
    "CoreData", "CoreGraphics", "Dispatch", "os"]
  separator := some ['.']

end Swift

def swift : Language where
  id := "swift"
  extensions := ["swift"]
  scopeStyle := .braces
  lexicon := { slashComments with strings := [tripleQuoted, doubleQuoted] }
  rules := Swift.definitions
  denied := controlWords ++ ["guard", "defer", "func", "var", "let", "self", "super", "repeat"]
  constructorNames := ["init"]
  destructorNames := ["deinit"]
  exportStyle := .defaultPublic
  decisions := anyOf [keywords ["if", "for", "while", "catch", "case", "guard"], text "&&", text "||",
    questionMark]
  imports := Swift.imports

end SourceIndex.Language
