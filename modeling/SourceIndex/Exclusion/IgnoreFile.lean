import SourceIndex.Exclusion.Glob
import SourceIndex.Text.Trim

/-! Ignore files, which lie in a directory and tell what is left out below it. -/

namespace SourceIndex

/-- One line of an ignore file. Its glob fits paths seen from the directory of the file. -/
structure IgnoreRule where
  glob : Glob
  /-- Whether what the glob fits is kept after all. -/
  keeps : Bool
  directoriesOnly : Bool

inductive IgnoreVerdict
  | ignored
  | kept
  | silent
  deriving DecidableEq, Repr

def IgnoreVerdict.orElse : IgnoreVerdict → IgnoreVerdict → IgnoreVerdict
  | silent, other => other
  | verdict, _ => verdict

namespace IgnoreRule

/-- A line without the blanks at its end, unless the last of them is escaped. -/
def trimLine (line : List Char) : List Char :=
  if Text.endsWith line ['\\', ' '] then line else Text.trimEnd line

/-- A rest of a line that stands for directories only if a slash ends it, and what is in front of
that slash and of a backslash that escapes it. -/
def splitDirectoryMark (text : List Char) : Bool × List Char :=
  match text.reverse with
  | '/' :: '\\' :: before => (true, before.reverse)
  | '/' :: before => (true, before.reverse)
  | _ => (false, text)

/-- The glob of a rule. Without a slash it fits at any depth. A double star at the end fits only
what lies below. -/
def globText (isAnchored : Bool) (text : List Char) : List Char :=
  let doubleStar := ['*', '*', '/']
  let anywhere := !isAnchored && !text.contains '/' && text ≠ ['*', '*']
  let placed := if anywhere then doubleStar ++ text else text
  if Text.endsWith placed ['/', '*', '*'] then placed ++ ['/', '*'] else placed

/-- The rule that a line writes. Comments, blank lines and lines whose glob cannot be read write
none. -/
def ofLine? (line : List Char) : Option IgnoreRule :=
  if line.head? = some '#' then none
  else
    let trimmed := trimLine line
    if trimmed.isEmpty then none
    else
      let (keeps, isAnchored, text) := match trimmed with
        | '\\' :: '!' :: rest => (false, false, '!' :: rest)
        | '\\' :: '#' :: rest => (false, false, '#' :: rest)
        | '!' :: '/' :: rest => (true, true, rest)
        | '!' :: rest => (true, false, rest)
        | '/' :: rest => (false, true, rest)
        | rest => (false, false, rest)
      let (directoriesOnly, pattern) := splitDirectoryMark text
      match Glob.readWithin (globText isAnchored pattern) with
      | .ok glob => some { glob, keeps, directoriesOnly }
      | .error _ => none

/-- What rules say of a path: the last one that fits decides. -/
def verdict (rules : List IgnoreRule) (path : List UInt8) (isDirectory : Bool) : IgnoreVerdict :=
  rules.foldl (fun verdict rule =>
    if (!rule.directoriesOnly || isDirectory) && rule.glob.fits path then
      if rule.keeps then .kept else .ignored
    else verdict) .silent

/-! ## Files -/

/-- The lines of some bytes. A carriage return in front of a line feed belongs to the end of the
line. -/
def byteLines : List UInt8 → List (List UInt8)
  | [] => [[]]
  | 0x0a :: rest => [] :: byteLines rest
  | 0x0d :: 0x0a :: rest => [] :: byteLines rest
  | byte :: rest =>
    match byteLines rest with
    | [] => [[byte]]
    | line :: lines => (byte :: line) :: lines

example : byteLines [0x61, 0x0d, 0x0a, 0x0d] = [[0x61], [0x0d]] := by decide

def decodeLines : List (List UInt8) → List (List Char)
  | [] => []
  | line :: lines =>
    match String.fromUTF8? ⟨line.toArray⟩ with
    | some text => text.toList :: decodeLines lines
    | none => []

/-- The rules of a file. Marks of byte order in front of its first line are passed over. -/
def ofBytes (bytes : ByteArray) : List IgnoreRule :=
  match decodeLines (byteLines bytes.toList) with
  | [] => []
  | first :: rest => (first.dropWhile (· == '\ufeff') :: rest).filterMap ofLine?

end IgnoreRule

end SourceIndex
