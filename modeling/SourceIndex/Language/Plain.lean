import SourceIndex.Language.Basic

/-! Texts in no particular language. -/

namespace SourceIndex.Language

open Pattern

namespace Plain

def definitions : List DefinitionRule := [
  .leaf .function .anywhere <|
    all [.textStart, blanks, manyWords ["public", "private", "static", "local", "export", "async"],
      anyText ["def", "func", "function", "fn", "fun", "sub", "proc", "procedure"], gap,
      named "name" (all [oneOf (among [.between 'A' 'Z', .between 'a' 'z', '_']),
        many (among [.word, '.', ':', '!', '?'])]), blanks, maybe parameters],
  .leaf .classType .anywhere <|
    all [.textStart, blanks, manyWords ["public", "private", "abstract", "export"],
      anyText ["class", "struct", "module", "interface", "record", "trait", "object"], gap,
      named "name" (all [oneOf (among [.between 'A' 'Z', .between 'a' 'z', '_']),
        many (among [.word, '.', ':'])])]]

end Plain

/-- What is known of a text in no particular language: something like a function and something
like a type can be told from its line alone. -/
def plain : Language where
  id := "text"
  scopeStyle := .plain
  lexicon := { lineComments := [['#'], ['/', '/'], ['-', '-']], strings := [doubleQuoted] }
  rules := Plain.definitions
  denied := controlWords
  constructorNames := ["initialize"]
  decisions := anyOf [keywords ["if", "elif", "elsif", "for", "while", "catch", "except", "rescue", "case",
    "when"], text "&&", text "||", questionMark]

end SourceIndex.Language
