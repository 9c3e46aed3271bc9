import SourceIndex.Text.Alphabet.Tables

/-! Classes of characters. ASCII is answered from its own ranges, all else from the tables. -/

namespace SourceIndex.Text

/-- The characters with the white-space property: tab to carriage return, the blank, next line, and
the separators of other scripts. -/
def isBlank (character : Char) : Bool :=
  let code := character.toNat
  code == 0x20 || (0x09 ≤ code && code ≤ 0x0d)
    || (0x85 ≤ code && (code == 0x85 || code == 0xa0 || code == 0x1680
      || (0x2000 ≤ code && code ≤ 0x200a) || code == 0x2028 || code == 0x2029
      || code == 0x202f || code == 0x205f || code == 0x3000))

def isAsciiLower (character : Char) : Bool := 'a' ≤ character && character ≤ 'z'

def isAsciiUpper (character : Char) : Bool := 'A' ≤ character && character ≤ 'Z'

def isAsciiDigit (character : Char) : Bool := '0' ≤ character && character ≤ '9'

def isAscii (character : Char) : Bool := character.toNat < 0x80

def isAsciiAlphanumeric (character : Char) : Bool :=
  isAsciiLower character || isAsciiUpper character || isAsciiDigit character

/-- Whether a character may stand in a word: a letter, mark, decimal digit, connector or joiner. -/
def isWord (character : Char) : Bool :=
  if isAscii character then isAsciiAlphanumeric character || character == '_'
  else wordCharacters.has character

def isAlphanumeric (character : Char) : Bool :=
  if isAscii character then isAsciiAlphanumeric character
  else alphanumericCharacters.has character

def isUppercase (character : Char) : Bool :=
  if isAscii character then isAsciiUpper character else uppercaseCharacters.has character

/-- The lower case of an ASCII letter; every other character is left alone. -/
def asciiLower (character : Char) : Char :=
  if isAsciiUpper character then Char.ofNat (character.toNat + 32) else character

/-- How many bytes a text fills in UTF-8. -/
def byteSize (text : List Char) : Nat :=
  text.foldl (fun (size : Nat) character => size + character.utf8Size) 0

example : isWord '_' ∧ ¬ isWord '-' := by decide
example : isBlank '\u3000' ∧ ¬ isBlank '\u200b' := by decide

end SourceIndex.Text
