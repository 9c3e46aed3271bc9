import SourceIndex.Pattern.Basic

/-! Ways to put patterns together. Language tables are written with these. -/

namespace SourceIndex

instance : Coe Char CharacterItem := ⟨fun character => .between character character⟩

def among (items : List CharacterItem) : CharacterSet := ⟨items, false⟩

def outside (items : List CharacterItem) : CharacterSet := ⟨items, true⟩

namespace Pattern

/-! ## Parts in order, and alternatives -/

def all : List Pattern → Pattern
  | [] => .nothing
  | [part] => part
  | part :: parts => .seq part (all parts)

/-- One of several patterns, an earlier one preferred to a later one. -/
def anyOf : List Pattern → Pattern
  | [] => .oneOf ⟨[], false⟩
  | [choice] => choice
  | choice :: choices => .either choice (anyOf choices)

def maybe (part : Pattern) : Pattern := .either part .nothing

/-- Any number of rounds, many preferred to few. -/
def repeated (part : Pattern) : Pattern := .rounds part true

/-! ## Stretches of characters -/

def many (set : CharacterSet) : Pattern := .run set true

/-- As many characters of the set as possible, and at least one. -/
def several (set : CharacterSet) : Pattern := .seq (.oneOf set) (.run set true)

def few (set : CharacterSet) : Pattern := .run set false

/-- As few characters of the set as possible, but at least one. -/
def severalFew (set : CharacterSet) : Pattern := .seq (.oneOf set) (.run set false)

def blanks : Pattern := many (among [.blank])

def gap : Pattern := several (among [.blank])

/-- A stretch between two brackets; it does not hold the closing one. -/
def enclosed (opening closing : Char) : Pattern :=
  all [.oneOf (.single opening), many (outside [closing]), .oneOf (.single closing)]

/-! ## Texts and words -/

def text (literal : String) : Pattern :=
  all (literal.toList.map fun character => .oneOf (.single character))

def anyText (literals : List String) : Pattern := anyOf (literals.map text)

def word (literal : String) : Pattern := all [text literal, gap]

def maybeWord (literal : String) : Pattern := maybe (word literal)

/-- Any number of the given words, each with a gap behind it. -/
def manyWords (literals : List String) : Pattern := repeated (all [anyText literals, gap])

/-- A name of ASCII letters and low lines that goes on with any characters of words. -/
def identifier : Pattern :=
  all [.oneOf (among [.between 'A' 'Z', .between 'a' 'z', '_']), many (among [.word])]

/-- The characters that a letter stands for when case is ignored: both cases, and the two characters
outside ASCII that fold to a letter, the long s and the kelvin sign. -/
def caseVariants (letter : Char) : List CharacterItem :=
  let lower := Text.asciiLower letter
  if Text.isAsciiLower lower then
    [(lower : CharacterItem), (Char.ofNat (lower.toNat - 32) : CharacterItem)]
      ++ (if lower = 's' then [('\u017f' : CharacterItem)] else [])
      ++ (if lower = 'k' then [('\u212a' : CharacterItem)] else [])
  else [(letter : CharacterItem)]

/-- A text in which every letter may be in either case. -/
def anyCase (literal : String) : Pattern :=
  all (literal.toList.map fun character => .oneOf (among (caseVariants character)))

example : (anyOf [all [.wordEdge, text "if", .wordEdge], text "||"]).count
    "if a || elif".toList = 2 := by decide +kernel

example : (all [named "name" identifier, blanks, text "="]).find? "let ab = 1".toList
    = some ⟨4, 8, [("name", ⟨4, ['a', 'b']⟩)]⟩ := by decide +kernel

example : (anyCase "script").occursIn "<\u017fCRIPT".toList := by decide +kernel

end Pattern

end SourceIndex
