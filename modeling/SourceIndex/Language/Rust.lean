import SourceIndex.Language.Basic

/-! The Rust language. -/

namespace SourceIndex.Language

open Pattern

namespace Rust

/-- The mark of visibility, perhaps restricted. -/
def visibility : Pattern :=
  maybe (all [text "pub", maybe (enclosed '(' ')'), gap])

def definitions : List DefinitionRule := [
  .block .structType .anywhere <|
    all [.textStart, blanks, visibility, anyText ["struct", "union"], gap, named "name" identifier],
  .block .implBlock .anywhere <|
    all [.textStart, blanks, maybeWord "unsafe", text "impl", .wordEdge,
      maybe (all [blanks, enclosed '<' '>']), gap,
      maybe (all [named "trait" (all [oneOf (among [.between 'A' 'Z', .between 'a' 'z', '_']),
          many (among [.word, ':']), maybe (enclosed '<' '>')]), gap, word "for"]),
      named "name" (all [oneOf (among [.between 'A' 'Z', .between 'a' 'z', '_']),
        many (among [.word, ':'])])],
  .block .traitType .anywhere <|
    all [.textStart, blanks, visibility, maybeWord "unsafe", maybeWord "auto", word "trait",
      named "name" identifier],
  .leaf .typeAlias .anywhere <|
    all [.textStart, blanks, visibility, word "type", named "name" identifier,
      maybe (all [text "<", many (outside ['=']), text ">"]), blanks, text "="],
  .block .enumType .anywhere <|
    all [.textStart, blanks, visibility, word "enum", named "name" identifier],
  .block .moduleBlock .anywhere <|
    all [.textStart, blanks, visibility, word "mod", named "name" identifier, blanks, text "\x7b"],
  .block .macroRule .anywhere <|
    all [.textStart, blanks, text "macro_rules!", blanks, named "name" identifier],
  .block .function .anywhere <|
    all [.textStart, blanks, visibility, maybeWord "default", maybeWord "const", maybeWord "async",
      maybeWord "unsafe",
      maybe (all [word "extern", text "\"", many (outside ['"']), text "\"", gap]), word "fn",
      named "name" identifier, blanks, maybe (all [text "<", many (outside ['(']), text ">"]),
      blanks, parameters],
  .block .function .inFunction <|
    all [.textStart, blanks, word "let", maybeWord "mut", named "name" identifier, blanks,
      maybe (all [text ":", several (outside ['='])]), text "=", blanks, maybeWord "move", text "|",
      named "params" (many (outside ['|'])), text "|"],
  .leaf .constant .anywhere <|
    all [.textStart, blanks, visibility, named "constant" (anyText ["const", "static"]), gap,
      maybeWord "mut", named "name" identifier, blanks, text ":"],
  .leaf .property (.within [.structType]) <|
    all [.textStart, blanks, visibility,
      named "name" (all [oneOf (among [.between 'a' 'z', '_']), many (among [.word])]), blanks,
      text ":", blanks, oneOf (outside [':', '='])],
  .leaf .property (.within [.enumType]) <|
    all [.textStart, blanks, named "name" capitalName, blanks,
      anyOf [oneOf (among ['(', '\x7b', ',', '=']), .textEnd]]]

def publicMark : Pattern := all [text "pub", maybe (enclosed '(' ')')]

/-- Another name, if one is given, and the end of the statement. -/
def aliasAndEnd : Pattern :=
  all [maybe (all [gap, word "as", named "alias" (several (among [.word]))]), blanks, text ";"]

/-- A path, perhaps with a list of names in braces. -/
def usePath : Pattern :=
  all [named "path" (severalFew (outside [';', '\x7b'])),
    maybe (all [text "::\x7b", named "names" rest, text "\x7d"])]

def imports : ImportGrammar where
  rules := [
    { kind := .reExport
      pattern :=
        all [.textStart, blanks, publicMark, gap, word "use", usePath, aliasAndEnd] },
    { kind := .useStatement
      pattern :=
        all [.textStart, blanks, word "use", usePath, aliasAndEnd] },
    { kind := .useStatement, bindsModule := true
      pattern :=
        all [.textStart, blanks, word "extern", word "crate",
          named "path" (several (among [.word])), aliasAndEnd] },
    { kind := .includeDirective, isLocal := true, bindsModule := true
      pattern :=
        all [.textStart, blanks, maybe (all [publicMark, gap]), word "mod",
          named "path" (several (among [.word])), blanks, text ";"] }]
  continuation := some {
    opening := all [.textStart, blanks, maybe (all [publicMark, gap]), word "use",
        many (outside [';']), text "\x7b", many (outside [';']), .textEnd]
    closing := all [text ";", blanks, .textEnd] }
  builtins := ["std", "core", "alloc", "proc_macro", "test"]
  relativeLeads := [['c', 'r', 'a', 't', 'e', ':', ':'], ['s', 'e', 'l', 'f', ':', ':'], ['s', 'u', 'p', 'e', 'r', ':', ':']]
  separator := some [':', ':']

end Rust

def rust : Language where
  id := "rust"
  extensions := ["rs"]
  scopeStyle := .braces
  separator := "::"
  lexicon := { slashComments with strings := [⟨['"'], true⟩], quotedCharacters := true }
  rules := Rust.definitions
  denied := controlWords ++ ["fn", "let", "match", "loop", "impl", "where", "unsafe", "move",
    "Self"]
  exportStyle := .pubKeyword
  decisions := anyOf [keywords ["if", "for", "while", "catch", "case"], text "&&", text "||"]
  imports := Rust.imports

end SourceIndex.Language
