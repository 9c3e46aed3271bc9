import SourceIndex.Language.Basic

/-! The Java language. -/

namespace SourceIndex.Language

open Pattern

namespace Java

/-- Annotations, perhaps with arguments. -/
def annotations : Pattern :=
  repeated (all [text "@", several (among [.word]), maybe (enclosed '(' ')'), gap])

def modifiers : Pattern :=
  manyWords ["public", "protected", "private", "abstract", "static", "final", "sealed",
    "non-sealed", "strictfp", "synchronized", "native", "default", "transient", "volatile"]

/-- A type, perhaps with type arguments, perhaps an array. -/
def typeName : Pattern :=
  all [several (among [.word, '.']), maybe (enclosed '<' '>'), repeated (text "[]")]

def throwsClause : Pattern :=
  maybe (all [word "throws", several (among [.word, '.', ',', .blank])])

def definitions : List DefinitionRule := [
  .block .classType .anywhere <|
    all [.textStart, blanks, annotations, modifiers, anyText ["class", "record"], gap,
      named "name" identifier],
  .block .interface .anywhere <|
    all [.textStart, blanks, annotations, modifiers, maybe (text "@"), word "interface",
      named "name" identifier],
  .block .enumType .anywhere <|
    all [.textStart, blanks, annotations, modifiers, word "enum", named "name" identifier],
  .block .constructor .inType <|
    all [.textStart, blanks, annotations,
      maybe (all [anyText ["public", "protected", "private"], gap]), named "name" capitalName,
      blanks, parameters, blanks, throwsClause, blanks, bodyOrEnd],
  .block .method .inType <|
    all [.textStart, blanks, annotations, modifiers,
      maybe (all [text "<", several (outside ['>']), text ">", gap]), named "ret" typeName, gap,
      named "name" identifier, blanks, parameters, blanks, throwsClause, blanks,
      maybe (anyOf [all [text "\x7b", rest], text ";"]), blanks, .textEnd],
  .leaf .variableBinding .inType <|
    all [.textStart, blanks, annotations, modifiers, named "ret" typeName, gap,
      named "name" identifier, blanks, maybe (all [text "=", many (outside [';'])]), text ";"]]

def imports : ImportGrammar where
  rules := [
    { kind := .importStatement
      pattern :=
        all [.textStart, blanks, word "import", maybeWord "static",
          named "path" (all [several (among [.word, '.']), maybe (text ".*")]), blanks,
          maybe (all [word "as", named "alias" (several (among [.word]))]), blanks,
          maybe (text ";"), blanks, .textEnd] }]
  builtins := ["java", "javax", "jdk", "sun", "kotlin"]
  separator := some ['.']

end Java

def java : Language where
  id := "java"
  extensions := ["java"]
  scopeStyle := .braces
  lexicon := { slashComments with strings := [tripleQuoted, doubleQuoted, singleQuoted] }
  rules := Java.definitions
  denied := controlWords ++ ["public", "protected", "private", "static", "final", "abstract",
    "synchronized", "else", "super", "this", "package", "import", "assert"]
  classNamedConstructor := true
  constantMarks := ["static ", "final "]
  exportStyle := .publicModifier
  parameterStyle := .typeThenName
  decisions := slashDecisions
  imports := Java.imports

end SourceIndex.Language
