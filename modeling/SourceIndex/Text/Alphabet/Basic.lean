/-! Sets of characters, kept as the code points at which membership changes. -/

namespace SourceIndex.Text

/-- A set of characters. `bounds` is increasing; the characters before the first bound are outside,
those from the first bound to the second are inside, and so on in turns. -/
structure Alphabet where
  bounds : Array Nat

namespace Alphabet

/-- The value of a hexadecimal digit in lower case. -/
def digitValue (digit : Char) : Nat :=
  if '0' ≤ digit ∧ digit ≤ '9' then digit.toNat - '0'.toNat
  else digit.toNat - 'a'.toNat + 10

/-- Reads hexadecimal numbers that single spaces separate. -/
def readNumbers : List Char → Nat → List Nat
  | [], number => [number]
  | ' ' :: rest, number => number :: readNumbers rest 0
  | digit :: rest, number => readNumbers rest (16 * number + digitValue digit)

/-- The alphabet whose stretches have the given lengths: first the characters from U+0000 on that
are outside, then those that are inside, and so on in turns. Rows are read one after the other. -/
def ofRuns (rows : List String) : Alphabet :=
  let lengths := rows.flatMap fun row => readNumbers row.toList 0
  let step := fun (bounds, position) length => (bounds.push (position + length), position + length)
  ⟨(lengths.foldl step (#[], 0)).1⟩

example : (ofRuns ["30 a", "7 1a"]).bounds = #[0x30, 0x3a, 0x41, 0x5b] := by decide

/-- How many bounds from index `low` on and below index `high` are at most `code`, given that the
bounds before `low` are and those from `high` on are not. -/
def countBounds (bounds : Array Nat) (code : Nat) (low high : Nat) : Nat :=
  if low < high then
    let middle := (low + high) / 2
    if (bounds[middle]?).any (· ≤ code) then countBounds bounds code (middle + 1) high
    else countBounds bounds code low middle
  else low
termination_by high - low

/-- Whether a character belongs to the alphabet: an odd number of bounds lies at or before it. -/
def has (alphabet : Alphabet) (character : Char) : Bool :=
  countBounds alphabet.bounds character.toNat 0 alphabet.bounds.size % 2 == 1

end Alphabet

end SourceIndex.Text
