import SourceIndex.Language.Ecmascript

/-! Markup languages, whose files hold regions of other languages. -/

namespace SourceIndex.Language

open Pattern

namespace Markup

def resourceRules : List ImportRule := [
    { kind := .includeDirective
      pattern :=
        all [text "<script", .wordEdge, many (outside ['>']), .wordEdge, text "src", blanks,
          text "=", blanks, oneOf (among ['\'', '"']), named "path" (several (outside ['\'', '"'])),
          oneOf (among ['\'', '"'])] },
    { kind := .includeDirective
      pattern :=
        all [text "<link", .wordEdge, many (outside ['>']), .wordEdge, text "href", blanks,
          text "=", blanks, oneOf (among ['\'', '"']), named "path" (several (outside ['\'', '"'])),
          oneOf (among ['\'', '"'])] },
    { kind := .importStatement
      pattern :=
        all [word "@import", maybe (text "url("), blanks, oneOf (among ['\'', '"']),
          named "path" (several (outside ['\'', '"'])), oneOf (among ['\'', '"'])] }]

/-- The dependencies of a document: its resources, and those of its scripts if it has any. -/
def imports (hasScripts : Bool) : ImportGrammar :=
  if hasScripts then
    { Ecmascript.imports with rules := resourceRules ++ Ecmascript.importRules }
  else
    { rules := resourceRules
      relativeLeads := [['.', '/'], ['.', '.', '/']]
      separator := some ['/'] }

/-- Conditions and loops in attributes and in template blocks. -/
def decisions : Pattern :=
  anyOf [all [.wordEdge, anyText ["v-if", "v-else-if", "v-for", "ng-if", "ng-for", "x-if", "x-for"],
      .wordEdge], all [text "\x7b#", anyText ["if", "each"], .wordEdge],
    all [text "\x7b:else", gap, text "if", .wordEdge]]

/-- A markup language with the given extensions, and the language of its scripts. -/
def language (id : String) (extensions : List String) (script : Option String) : Language where
  id := id
  extensions := extensions
  scopeStyle := .markup
  lexicon := { blockComment := some (['<', '!', '-', '-'], ['-', '-', '>']) }
  denied := controlWords
  decisions := decisions
  imports := imports script.isSome
  embeddedScript := script

end Markup

def html : Language := Markup.language "html" ["html", "htm", "xhtml"] (some "javascript")

def xml : Language := Markup.language "xml" ["xml", "xsd", "xsl", "svg"] none

def vue : Language := Markup.language "vue" ["vue"] (some "typescript")

def svelte : Language := Markup.language "svelte" ["svelte"] (some "typescript")

end SourceIndex.Language
