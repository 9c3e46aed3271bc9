import SourceIndex.Json.Value
import SourceIndex.Decimal.Shortest
import SourceIndex.Text.Hex

/-! JSON values written as text, on one line or laid out over several. -/

namespace SourceIndex.Json

def escape (character : Char) : List Char :=
  match character with
  | '"' => ['\\', '"']
  | '\\' => ['\\', '\\']
  | '\n' => ['\\', 'n']
  | '\r' => ['\\', 'r']
  | '\t' => ['\\', 't']
  | other =>
    let code := other.toNat
    if code = 0x08 then ['\\', 'b']
    else if code = 0x0c then ['\\', 'f']
    else if code < 0x20 then ['\\', 'u', '0', '0', hexDigit (code / 16), hexDigit (code % 16)]
    else [other]

def quote (text : String) : List Char := '"' :: text.toList.flatMap escape ++ ['"']

example : quote "a\"\n\x01é" = "\"a\\\"\\n\\u0001é\"".toList := by decide

/-- A number with a fraction. What is not finite has no JSON form and is written as null. -/
def writeDecimal (number : Float) : List Char :=
  if number.isFinite then Decimal.renderFloat number else "null".toList

/-! ## On one line -/

mutual

def compactText : Json → List Char
  | .null => "null".toList
  | .bool value => if value then "true".toList else "false".toList
  | .integer value => (toString value).toList
  | .decimal value => writeDecimal value
  | .string value => quote value
  | .array [] => ['[', ']']
  | .array (item :: items) => '[' :: (compactText item ++ compactItems items)
  | .object [] => ['\x7b', '\x7d']
  | .object ((name, value) :: members) =>
    '\x7b' :: (quote name ++ ':' :: (compactText value ++ compactMembers members))

def compactItems : List Json → List Char
  | [] => [']']
  | item :: items => ',' :: (compactText item ++ compactItems items)

def compactMembers : List (String × Json) → List Char
  | [] => ['\x7d']
  | (name, value) :: members =>
    ',' :: (quote name ++ ':' :: (compactText value ++ compactMembers members))

end

def compact (value : Json) : String := String.ofList (compactText value)

/-! ## Laid out over several lines -/

/-- A new line at the given depth of nesting; each level is indented by two blanks. -/
def newLine (depth : Nat) : List Char := '\n' :: List.replicate (2 * depth) ' '

mutual

/-- The characters of a value laid out with one item or member on each line. -/
def prettyText (depth : Nat) : Json → List Char
  | .array [] => ['[', ']']
  | .array (item :: items) =>
    '[' :: (newLine (depth + 1) ++ prettyText (depth + 1) item ++ prettyItems depth items)
  | .object [] => ['\x7b', '\x7d']
  | .object ((name, value) :: members) =>
    '\x7b' :: (newLine (depth + 1) ++ quote name ++ ':' :: ' ' ::
      (prettyText (depth + 1) value ++ prettyMembers depth members))
  | other => compactText other

def prettyItems (depth : Nat) : List Json → List Char
  | [] => newLine depth ++ [']']
  | item :: items =>
    ',' :: (newLine (depth + 1) ++ prettyText (depth + 1) item ++ prettyItems depth items)

def prettyMembers (depth : Nat) : List (String × Json) → List Char
  | [] => newLine depth ++ ['\x7d']
  | (name, value) :: members =>
    ',' :: (newLine (depth + 1) ++ quote name ++ ':' :: ' ' ::
      (prettyText (depth + 1) value ++ prettyMembers depth members))

end

def pretty (value : Json) : String := String.ofList (prettyText 0 value)

end SourceIndex.Json
