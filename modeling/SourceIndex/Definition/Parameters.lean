import SourceIndex.Code.Brackets
import SourceIndex.Language.Basic

/-! Parameters read from the text between the parentheses of a definition. -/

namespace SourceIndex

namespace Parameter

/-- Names of the object a method belongs to; they are no parameters. -/
def receiverNames : List String := ["self", "&self", "&mut self", "mut self", "cls", "this"]

/-- A declaration and the default behind its first equals sign. A sign that belongs to a
comparison or to an arrow does not count; `before` is the character in front of the text. -/
def splitDefaultFrom? (before : Option Char) : List Char → Option (List Char × List Char)
  | [] => none
  | character :: rest =>
    let joined := before.any (· ∈ ['=', '<', '>', '!']) || rest.head?.any (· ∈ ['=', '>'])
    if character = '=' && !joined then some ([], rest)
    else (splitDefaultFrom? (some character) rest).map fun (declaration, default) =>
      (character :: declaration, default)

/-- The declaration and the default of a parameter, if it has a default. -/
def splitDefault? (text : List Char) : Option (List Char × List Char) := splitDefaultFrom? none text

example : splitDefault? "a=>b = c".toList = some ("a=>b ".toList, " c".toList) := by decide

def lastWord (text : List Char) : List Char := ((Text.words text).getLast?).getD []

def nonEmpty? (text : List Char) : Option (List Char) := if text.isEmpty then none else some text

/-- The name and the type that a declaration gives, in each style. -/
def nameAndType (style : ParameterStyle) (declaration : List Char) :
    List Char × Option (List Char) :=
  match style with
  | .nameColonType =>
    match Text.splitOnce? [':'] declaration with
    | some (name, annotation) => (lastWord name, nonEmpty? (Text.trim annotation))
    | none => (lastWord declaration, none)
  | .typeThenName =>
    let last := lastWord declaration
    let marks := last.takeWhile (· ∈ ['*', '&'])
    let bare := last.dropWhile (· ∈ ['*', '&', '$'])
    let name := bare.takeWhile (· ≠ '[')
    let annotation := Text.joinWords (Text.words declaration).dropLast ++ marks
      ++ bare.dropWhile (· ≠ '[')
    (name, nonEmpty? annotation)
  | .nameThenType =>
    let name := declaration.takeWhile (! Text.isBlank ·)
    match declaration.dropWhile (! Text.isBlank ·) with
    | [] => (name, none)
    | _ :: annotation => (name, some (Text.trim annotation))

/-- Without the question mark at its end, a name and whether it had one. -/
def dropQuestionMark (name : List Char) : List Char × Bool :=
  match name.reverse with
  | '?' :: rest => (rest.reverse, true)
  | _ => (name, false)

/-- Reads one entry of a parameter list. Annotations are left out, and neither a receiver nor `void`
is a parameter. -/
def read? (style : ParameterStyle) (entry : List Char) : Option Parameter :=
  let part := Text.joinWords ((Text.words entry).filter (·.head? ≠ some '@'))
  if part.isEmpty || receiverNames.contains (String.ofList part) then none
  else
    let (declaration, default) := match splitDefault? part with
      | some (declaration, default) => (Text.trim declaration, some (Text.trim default))
      | none => (part, none)
    let (written, annotation) := nameAndType style declaration
    let known := String.ofList written
    if receiverNames.contains known || written.isEmpty || known == "void" then none
    else
      let (name, isMarked) := dropQuestionMark written
      some {
        name := String.ofList name
        typeAnnotation := annotation.map String.ofList
        defaultValue := default.map String.ofList
        isOptional := default.isSome || isMarked }

def readAll (style : ParameterStyle) (text : List Char) : List Parameter :=
  (splitList text).filterMap (read? style)

end Parameter

end SourceIndex
