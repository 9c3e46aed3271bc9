import SourceIndex.Text.Character

/-! Patterns over text, and how a pattern is tried against a text. Of several ways to match, the
first in the pattern's own order of preference counts. -/

namespace SourceIndex

/-! ## Sets of characters -/

inductive CharacterItem
  | between (first last : Char)
  | word
  | blank
  deriving DecidableEq, Repr

def CharacterItem.has : CharacterItem → Char → Bool
  | .between first last, character => first ≤ character && character ≤ last
  | .word, character => Text.isWord character
  | .blank, character => Text.isBlank character

/-- The characters that one of the items has or, if `negated`, those that no item has. -/
structure CharacterSet where
  items : List CharacterItem
  negated : Bool
  deriving DecidableEq, Repr

def CharacterSet.has (set : CharacterSet) (character : Char) : Bool :=
  set.items.any (·.has character) != set.negated

def CharacterSet.single (character : Char) : CharacterSet :=
  ⟨[.between character character], false⟩

/-! ## Patterns -/

/-- What a pattern may ask for. A repetition is `greedy` if it prefers many rounds to few. -/
inductive Pattern
  | nothing
  | oneOf (set : CharacterSet)
  /-- A stretch of characters of the set, possibly empty. -/
  | run (set : CharacterSet) (greedy : Bool)
  | seq (first second : Pattern)
  /-- Either pattern, the first one preferred. -/
  | either (first second : Pattern)
  /-- Any number of rounds of a pattern. A round that reads nothing is not counted. -/
  | rounds (body : Pattern) (greedy : Bool)
  /-- The text read by the body is remembered under a name. -/
  | named (name : String) (body : Pattern)
  | textStart
  | textEnd
  /-- A place with a word character on exactly one side. -/
  | wordEdge
  deriving DecidableEq, Repr

namespace Pattern

/-- The text that a named part of a pattern has read, and where it starts. -/
structure Capture where
  start : Nat
  text : List Char
  deriving DecidableEq, Repr

structure Cursor where
  before : Option Char
  rest : List Char
  offset : Nat
  captures : List (String × Capture)
  deriving DecidableEq, Repr

namespace Cursor

def start (text : List Char) : Cursor := ⟨none, text, 0, []⟩

/-- The place behind one character of the set. -/
def read? (set : CharacterSet) (cursor : Cursor) : Option Cursor :=
  match cursor.rest with
  | [] => none
  | character :: rest =>
    if set.has character then
      some { cursor with before := some character, rest, offset := cursor.offset + 1 }
    else none

/-- The places that a stretch of the set can reach, the farthest first, put before `found`. -/
def reachable (set : CharacterSet) (captures : List (String × Capture)) :
    (before : Option Char) → (rest : List Char) → (offset : Nat) → List Cursor → List Cursor
  | before, [], offset, found => ⟨before, [], offset, captures⟩ :: found
  | before, character :: rest, offset, found =>
    let here := ⟨before, character :: rest, offset, captures⟩ :: found
    if set.has character then reachable set captures (some character) rest (offset + 1) here
    else here

def atWordEdge (cursor : Cursor) : Bool :=
  cursor.before.any Text.isWord != cursor.rest.head?.any Text.isWord

/-- Remembers what lies between a former place and this one. -/
def remember (cursor : Cursor) (name : String) (former : Cursor) : Cursor :=
  let text := former.rest.take (cursor.offset - former.offset)
  { cursor with captures := (name, ⟨former.offset, text⟩) :: cursor.captures }

end Cursor

/-- Rounds of `step` from a place on, at most `limit` of them, and then what follows. -/
def repeatStep (step : Cursor → (Cursor → Option Cursor) → Option Cursor) (greedy : Bool) :
    (limit : Nat) → Cursor → (Cursor → Option Cursor) → Option Cursor
  | 0, cursor, next => next cursor
  | limit + 1, cursor, next =>
    let again := fun (_ : Unit) => step cursor fun reached =>
      if reached.offset = cursor.offset then none
      else repeatStep step greedy limit reached next
    match greedy with
    | true => (again ()).orElse fun _ => next cursor
    | false => (next cursor).orElse again

/-- The first way, in order of preference, to match a pattern from a place on such that `next`
accepts the place reached; the answer is the one that `next` gives. -/
def follow : Pattern → Cursor → (next : Cursor → Option Cursor) → Option Cursor
  | .nothing, cursor, next => next cursor
  | .oneOf set, cursor, next => (cursor.read? set).bind next
  | .run set greedy, cursor, next =>
    let places := Cursor.reachable set cursor.captures cursor.before cursor.rest cursor.offset []
    (if greedy then places else places.reverse).findSome? next
  | .seq first second, cursor, next => first.follow cursor fun reached => second.follow reached next
  | .either first second, cursor, next =>
    (first.follow cursor next).orElse fun _ => second.follow cursor next
  | .rounds body greedy, cursor, next =>
    repeatStep body.follow greedy cursor.rest.length cursor next
  | .named name body, cursor, next =>
    body.follow cursor fun reached => next (reached.remember name cursor)
  | .textStart, cursor, next => if cursor.before.isNone then next cursor else none
  | .textEnd, cursor, next => if cursor.rest.isEmpty then next cursor else none
  | .wordEdge, cursor, next => if cursor.atWordEdge then next cursor else none

/-! ## Matches -/

/-- A stretch of a text that a pattern matches. -/
structure Match where
  start : Nat
  stop : Nat
  captures : List (String × Capture)
  deriving DecidableEq, Repr

def Match.capture? (found : Match) (name : String) : Option Capture := found.captures.lookup name

def Match.text? (found : Match) (name : String) : Option (List Char) :=
  (found.capture? name).map (·.text)

/-- The preferred match that starts at the given place. -/
def matchAt (pattern : Pattern) (before : Option Char) (rest : List Char) (offset : Nat) :
    Option Match :=
  (pattern.follow ⟨before, rest, offset, []⟩ some).map fun reached =>
    ⟨offset, reached.offset, reached.captures⟩

/-- The first match that starts at the given place or later. -/
def findFrom (pattern : Pattern) : (before : Option Char) → (rest : List Char) → (offset : Nat) →
    Option Match
  | before, [], offset => pattern.matchAt before [] offset
  | before, character :: rest, offset =>
    (pattern.matchAt before (character :: rest) offset).orElse fun _ =>
      pattern.findFrom (some character) rest (offset + 1)

def find? (pattern : Pattern) (text : List Char) : Option Match := pattern.findFrom none text 0

def occursIn (pattern : Pattern) (text : List Char) : Bool := (pattern.find? text).isSome

/-- Counts the matches from the given place on, leaving out the next `skip` characters. -/
def countFrom (pattern : Pattern) : (skip : Nat) → (before : Option Char) → List Char → Nat
  | _, before, [] => if (pattern.matchAt before [] 0).isSome then 1 else 0
  | skip + 1, _, character :: rest => pattern.countFrom skip (some character) rest
  | 0, before, character :: rest =>
    match pattern.matchAt before (character :: rest) 0 with
    | none => pattern.countFrom 0 (some character) rest
    | some found => pattern.countFrom (found.stop - 1) (some character) rest + 1

def count (pattern : Pattern) (text : List Char) : Nat := pattern.countFrom 0 none text

end Pattern

end SourceIndex
