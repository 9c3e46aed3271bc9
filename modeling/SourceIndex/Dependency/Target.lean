import SourceIndex.Language.Basic

/-! The targets of dependencies: the package that a target belongs to, and what its text tells. -/

namespace SourceIndex.ImportGrammar

/-- Drops each of the leads that the text starts with, one after the other. -/
def dropLeads (leads : List (List Char)) (text : List Char) : List Char :=
  leads.foldl (fun text lead => (Text.dropLead? lead text).getD text) text

/-- The package of a target: its first segment, or its first two if the first carries the scope
mark. -/
def packageName (grammar : ImportGrammar) (target : List Char) : List Char :=
  let bare := dropLeads grammar.builtinLeads target
  match grammar.separator with
  | none => bare
  | some separator =>
    match Text.splitText separator bare, grammar.scopeMark with
    | first :: second :: _, some mark =>
      if first.head? = some mark then first ++ separator ++ second else first
    | first :: _, _ => first
    | [], _ => bare

/-- Whether a target names a place in the file system or on the network by itself. -/
def isAbsoluteTarget (target : List Char) : Bool :=
  target.head? == some '/' || target.head? == some '\\' || Text.contains target [':', '/', '/']
    || match target with
      | drive :: ':' :: slash :: _ =>
        (Text.isAsciiLower drive || Text.isAsciiUpper drive) && (slash == '\\' || slash == '/')
      | _ => false

/-- What the text of a target tells: whether it is relative, absolute, comes with the language, or
is none of these. -/
def classify (grammar : ImportGrammar) (target : List Char) (isLocal : Bool) : DependencyFlags :=
  let isRelative := isLocal || grammar.relativeLeads.any (Text.startsWith target ·)
  let isAbsolute := !isRelative && isAbsoluteTarget target
  let package := grammar.packageName target
  let isKnown := grammar.builtins.contains (String.ofList package)
    && !grammar.externalMark.any (package.contains ·)
  let isBuiltin := !isRelative && !isAbsolute
    && (grammar.builtinLeads.any (Text.startsWith target ·) || isKnown)
  { isRelative, isAbsolute, isBuiltin, isExternal := !isRelative && !isAbsolute && !isBuiltin }

def lastSegment (grammar : ImportGrammar) (target : List Char) : List Char :=
  match grammar.separator with
  | none => target
  | some separator =>
    match Text.splitOnce? separator.reverse target.reverse with
    | some (last, _) => last.reverse
    | none => target

def dropTails (tail : List Char) : (limit : Nat) → List Char → List Char
  | 0, text => text
  | limit + 1, text =>
    match Text.dropLead? tail.reverse text.reverse with
    | some rest => dropTails tail limit rest.reverse
    | none => text

/-- A target without the sign that stands for all of its members. -/
def dropWildcards (target : List Char) : List Char :=
  let withoutPath := dropTails [':', ':', '*'] target.length target
  dropTails ['.', '*'] withoutPath.length withoutPath

example : dropWildcards "a::b::*".toList = "a::b".toList := by decide

end SourceIndex.ImportGrammar
