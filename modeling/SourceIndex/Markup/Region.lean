import SourceIndex.Pattern.Building
import SourceIndex.Text.Trim
import SourceIndex.Chunk.Basic

/-! Regions of documents: scripts, styles and the elements that give a document its structure. -/

namespace SourceIndex

inductive RegionKind
  | script
  | style
  | structural
  deriving DecidableEq, Repr

namespace RegionKind

def tag : RegionKind → String
  | script => "script"
  | style => "style"
  | structural => "structural"

def chunkType : RegionKind → ChunkType
  | script => .code
  | style => .style
  | structural => .structural

end RegionKind

/-- A stretch of lines from an opening tag to its closing tag, counted from zero, both included. -/
structure Region where
  tag : List Char
  kind : RegionKind
  start : Nat
  stop : Nat
  /-- The language that the opening tag names. -/
  language : Option (List Char) := none
  /-- Whether the content is kept elsewhere. -/
  isExternal : Bool := false
  deriving DecidableEq, Repr

/-- The first and the last line strictly between the tags' lines. -/
def Region.innerLines? (region : Region) : Option (Nat × Nat) :=
  if region.stop > region.start + 1 then some (region.start + 1, region.stop - 1) else none

namespace Region

open Pattern

/-! ## Tags -/

def specialOpening : Pattern :=
  all [text "<", named "tag" (anyOf [anyCase "script", anyCase "style"]), .wordEdge,
    named "attrs" (many (outside ['>'])), text ">"]

def structuralOpening : Pattern :=
  all [text "<",
    named "tag" (anyOf [anyCase "template", anyCase "section", anyCase "article", anyCase "main",
      anyCase "header", anyCase "footer", anyCase "nav", anyCase "aside", anyCase "form",
      anyCase "table"]), .wordEdge, many (outside ['>']), text ">"]

def languageAttribute : Pattern :=
  all [.wordEdge, anyCase "lang", blanks, text "=", blanks, oneOf (among ['\'', '"']),
    named "lang" (several (among [.word, '-'])), oneOf (among ['\'', '"'])]

/-- The attribute that tells where the content is kept. -/
def sourceAttribute : Pattern := all [.wordEdge, anyCase "src", blanks, text "="]

def lowerCase (line : List Char) : List Char := line.map Text.asciiLower

def closingTag (tag : List Char) : List Char := '<' :: '/' :: tag

/-! ## Extents -/

def endsTagName : List Char → Bool
  | [] => true
  | character :: _ => Text.isBlank character || character == '>' || character == '/'

/-- Whether a tag of the given name opens at the start of a text. -/
def opensTag (tag text : List Char) : Bool :=
  match Text.dropLead? ('<' :: tag) text with
  | some rest => endsTagName rest
  | none => false

/-- How many tags of the given name a line opens. -/
def countOpenings (tag : List Char) : (line : List Char) → Nat
  | [] => 0
  | character :: rest =>
    (if opensTag tag (character :: rest) then 1 else 0) + countOpenings tag rest

example : countOpenings "nav".toList "<nav><nav<navy></nav><nav".toList = 2 := by decide

/-- The number of lines behind the first one up to the one on which the element is balanced. -/
def balancedEnd? (tag : List Char) : (balance : Int) → List (List Char) → Option Nat
  | _, [] => none
  | balance, line :: lines =>
    let lower := lowerCase line
    let balance := balance + countOpenings tag lower
      - Text.countOccurrences (closingTag tag) lower
    if balance ≤ 0 then some 0 else (balancedEnd? tag balance lines).map (· + 1)

/-- The region of a script or a style that opens on a line. It ends on the line of its closing tag
or with the document; a tag that closes itself is a region of one line. -/
def special? (index : Nat) (line : List Char) (later : List (List Char)) : Option Region := do
  let found ← specialOpening.find? line
  let tag := lowerCase ((found.text? "tag").getD [])
  let attributes := (found.text? "attrs").getD []
  let closes := fun text => Text.contains (lowerCase text) (closingTag tag)
  let extent :=
    if (Text.trimEnd attributes).getLast? = some '/' || closes (line.drop found.stop) then 0
    else match later.findIdx? closes with
      | some distance => distance + 1
      | none => later.length
  return {
    tag
    kind := if tag = "script".toList then .script else .style
    start := index
    stop := index + extent
    language := ((languageAttribute.find? attributes).bind (·.text? "lang")).map lowerCase
    isExternal := sourceAttribute.occursIn attributes }

/-- The region of a structural element that opens on a line, if the element is balanced. -/
def structural? (index : Nat) (line : List Char) (later : List (List Char)) : Option Region := do
  let found ← structuralOpening.find? line
  let tag := lowerCase ((found.text? "tag").getD [])
  let extent ← balancedEnd? tag 0 (line :: later)
  return { tag, kind := .structural, start := index, stop := index + extent }

/-- The regions from a line on, leaving out the next `skip` lines, which belong to a region. -/
def findFrom (index : Nat) : (skip : Nat) → List (List Char) → List Region
  | _, [] => []
  | skip + 1, _ :: later => findFrom (index + 1) skip later
  | 0, line :: later =>
    let region? := match special? index line later with
      | some region => some region
      | none => structural? index line later
    match region? with
    | some region => region :: findFrom (index + 1) (region.stop - region.start) later
    | none => findFrom (index + 1) 0 later

/-- The regions of a document. None lies inside another one. -/
def findAll (lines : List (List Char)) : List Region := findFrom 0 0 lines

end Region

end SourceIndex
