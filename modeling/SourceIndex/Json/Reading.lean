import SourceIndex.Json.Value
import SourceIndex.Text.Character
import SourceIndex.Text.Hex

/-! JSON text read from left to right. Reading yields a draft of the value up to the place where
the text breaks off or breaks a rule, so that whoever gives the draft a meaning meets the faults
of the text and the misfits of its values in the order in which they are written. The fault that
ends reading is told beside the draft: it counts when all before it has been found to fit. -/

namespace SourceIndex.Json

/-! ## Drafts -/

/-- Why a text is no JSON value: it breaks a rule of the format, or it ends too soon. -/
inductive Fault
  | malformed
  | truncated
  deriving DecidableEq, Repr

structure Numeral where
  negative : Bool
  whole : List Char
  /-- The digits behind the point, if there is a point. -/
  fraction : Option (List Char)
  /-- Whether the exponent is negative, and its digits. -/
  exponent : Option (Bool × List Char)
  deriving DecidableEq, Repr

/-- A value as far as it could be read. A string, or the name of a member, is `none` if it holds
half of a surrogate pair. What has no end is `broken`, with the fault that whoever asks for its
value meets; who passes over it meets the fault that ends reading. -/
inductive Draft
  | null
  | bool (value : Bool)
  | number (numeral : Numeral)
  | string (text : Option String)
  | array (items : List Draft)
  | object (members : List (Option String × Draft))
  | broken (fault : Fault)
  deriving Inhabited

/-! ## Numbers -/

def isDigit (character : Char) : Bool := '0' ≤ character && character ≤ '9'

def digitValue (digit : Char) : Nat := digit.toNat - '0'.toNat

/-- The largest number of 64 bits. -/
def wordMax : Nat := 0xffffffffffffffff

/-- Takes digits into a significand of 64 bits. The digits from the first one on that does not fit
are only counted. -/
def takeWhole (significand : Nat) : List Char → Nat × Nat
  | [] => (significand, 0)
  | digit :: rest =>
    let next := significand * 10 + digitValue digit
    if next > wordMax then (significand, rest.length + 1) else takeWhole next rest

/-- Takes digits behind the point into a significand of 64 bits, up to the first that does not
fit, and counts those taken. -/
def takeFraction (significand : Nat) : List Char → Nat × Nat
  | [] => (significand, 0)
  | digit :: rest =>
    let next := significand * 10 + digitValue digit
    if next > wordMax then (significand, 0)
    else
      let (final, taken) := takeFraction next rest
      (final, taken + 1)

def powerOfTen (exponent : Nat) : Float := Float.ofScientific 1 false exponent

/-- Divides by ten to the given power, in steps of at most 308 places. -/
def shrink (number : Float) (places : Nat) : Float :=
  if places ≤ 308 then number / powerOfTen places
  else if number == 0.0 then number
  else shrink (number / powerOfTen 308) (places - 308)
termination_by places

/-- A significand times a power of ten, if that is finite. -/
def scale? (significand : Nat) (exponent : Int) : Option Float :=
  let number := significand.toUInt64.toFloat
  if 0 ≤ exponent then
    if exponent ≤ 308 then
      let scaled := number * powerOfTen exponent.toNat
      if scaled.isFinite then some scaled else none
    else if significand = 0 then some number
    else none
  else some (shrink number (-exponent).toNat)

namespace Numeral

def digitsValue (digits : List Char) : Nat :=
  digits.foldl (fun value digit => value * 10 + digitValue digit) 0

/-- A whole number of 64 bits, with or without a sign; minus zero is none. -/
def integer? (numeral : Numeral) : Option Int :=
  if numeral.fraction.isSome || numeral.exponent.isSome then none
  else
    let value := digitsValue numeral.whole
    if numeral.negative then
      if 0 < value ∧ value ≤ 0x8000000000000000 then some (-(value : Int)) else none
    else if value ≤ wordMax then some value
    else none

def float? (numeral : Numeral) : Option Float :=
  let (whole, dropped) := takeWhole 0 numeral.whole
  let (significand, taken) := takeFraction whole (numeral.fraction.getD [])
  let base : Int := (dropped : Int) - taken
  let exponent := match numeral.exponent with
    | some (true, digits) => base - digitsValue digits
    | some (false, digits) => base + digitsValue digits
    | none => base
  (scale? significand exponent).map fun value => if numeral.negative then -value else value

end Numeral

/-! ## Reading -/

/-- What is left of a text, or the fault that has ended reading. -/
abbrev Remainder := Except Fault (List Char)

def isSpace (character : Char) : Bool :=
  character == ' ' || character == '\n' || character == '\t' || character == '\r'

def skipSpaces (text : List Char) : List Char := text.dropWhile isSpace

/-- The fault of a text that goes on with something unexpected, or with nothing. -/
def faultAt (text : List Char) : Fault := if text.isEmpty then .truncated else .malformed

/-- A value that cannot be read, whether it is asked for or passed over. -/
def broken (fault : Fault) : Draft × Remainder := (.broken fault, .error fault)

def word (value : Draft) : (letters text : List Char) → Draft × Remainder
  | [], text => (value, .ok text)
  | _ :: _, [] => broken .truncated
  | letter :: letters, character :: text =>
    if letter = character then word value letters text else broken .malformed

def hexUnit? (a b c d : Char) : Option Nat := do
  return ((← hexValue? a) * 16 + (← hexValue? b)) * 256 + (← hexValue? c) * 16 + (← hexValue? d)

def isLeading (unit : Nat) : Bool := 0xd800 ≤ unit && unit < 0xdc00

def isTrailing (unit : Nat) : Bool := 0xdc00 ≤ unit && unit < 0xe000

def pairCharacter (leading trailing : Nat) : Char :=
  Char.ofNat (0x10000 + (leading - 0xd800) * 0x400 + (trailing - 0xdc00))

/-- Whether a text is too short for four digits, counted in bytes. -/
def endsWithinUnit (text : List Char) : Bool := Text.byteSize (text.take 4) < 4

def simpleEscape? : Char → Option Char
  | '"' => some '"'
  | '\\' => some '\\'
  | '/' => some '/'
  | 'b' => some '\x08'
  | 'f' => some '\x0c'
  | 'n' => some '\n'
  | 'r' => some '\r'
  | 't' => some '\t'
  | _ => none

/-- A string as far as it has been read, the last character first. `pending` is the first half of a
surrogate pair whose second half has to follow; `known` is lost when it does not. -/
structure Characters where
  pending : Option Nat
  known : Option (List Char)

namespace Characters

def start : Characters := ⟨none, some []⟩

def push (read : Characters) (character : Char) : Characters :=
  if read.pending.isSome then ⟨none, none⟩ else ⟨none, read.known.map (character :: ·)⟩

def pushUnit (read : Characters) (unit : Nat) : Characters :=
  match read.pending with
  | some leading =>
    if isTrailing unit then ⟨none, read.known.map (pairCharacter leading unit :: ·)⟩ else ⟨none, none⟩
  | none =>
    if isLeading unit then ⟨some unit, read.known⟩
    else if isTrailing unit then ⟨none, none⟩
    else ⟨none, read.known.map (Char.ofNat unit :: ·)⟩

def text? (read : Characters) : Option String :=
  if read.pending.isSome then none
  else read.known.map fun characters => String.ofList characters.reverse

end Characters

/-- Reads a string behind its opening quote. -/
def stringRest (read : Characters) : List Char → Characters × Remainder
  | [] => (read, .error .truncated)
  | '"' :: rest => (read, .ok rest)
  | '\\' :: 'u' :: a :: b :: c :: d :: rest =>
    match hexUnit? a b c d with
    | some unit => stringRest (read.pushUnit unit) rest
    | none => (read, .error .malformed)
  | '\\' :: 'u' :: rest => (read, .error (if endsWithinUnit rest then .truncated else .malformed))
  | '\\' :: character :: rest =>
    match simpleEscape? character with
    | some meant => stringRest (read.push meant) rest
    | none => (read, .error .malformed)
  | ['\\'] => (read, .error .truncated)
  | character :: rest =>
    if character.toNat < 0x20 then (read, .error .malformed)
    else stringRest (read.push character) rest

/-- A string behind its opening quote. If it has no end, an earlier half of a surrogate pair still
counts first for whoever asks for its text. -/
def stringDraft (text : List Char) : Draft × Remainder :=
  match stringRest .start text with
  | (read, .ok rest) => (.string read.text?, .ok rest)
  | (read, .error fault) =>
    (if read.known.isSome then .broken fault else .string none, .error fault)

def digitsRest (text : List Char) : Except Fault (List Char × List Char) :=
  let digits := text.takeWhile isDigit
  let rest := text.dropWhile isDigit
  if digits.isEmpty then .error (faultAt rest) else .ok (digits, rest)

/-- Whether a text starts with a minus sign, and what follows its sign. -/
def signRest : List Char → Bool × List Char
  | '+' :: rest => (false, rest)
  | '-' :: rest => (true, rest)
  | rest => (false, rest)

/-- The digits of a fraction if there is one, and what follows. -/
def fractionRest : List Char → Except Fault (Option (List Char) × List Char)
  | '.' :: after => do
    let (digits, rest) ← digitsRest after
    return (some digits, rest)
  | rest => .ok (none, rest)

/-- The sign and the digits of an exponent behind its letter, and what follows them. -/
def powerRest (text : List Char) : Except Fault (Option (Bool × List Char) × List Char) := do
  let (digits, rest) ← digitsRest (signRest text).2
  return (some ((signRest text).1, digits), rest)

/-- The sign and the digits of an exponent if there is one, and what follows. -/
def exponentRest : List Char → Except Fault (Option (Bool × List Char) × List Char)
  | 'e' :: after => powerRest after
  | 'E' :: after => powerRest after
  | rest => .ok (none, rest)

/-- A numeral behind its sign: whole digits without a needless zero in front, and then perhaps a
fraction and an exponent, each with at least one digit. -/
def numeralRest (negative : Bool) (text : List Char) : Except Fault (Numeral × List Char) := do
  let (whole, rest) ← digitsRest text
  if whole.head? = some '0' && whole.length > 1 then throw .malformed
  let (fraction, rest) ← fractionRest rest
  let (exponent, rest) ← exponentRest rest
  return (⟨negative, whole, fraction, exponent⟩, rest)

/-- A number behind its sign. One that ends too soon counts as malformed where it is passed over. -/
def numberDraft (negative : Bool) (text : List Char) : Draft × Remainder :=
  match numeralRest negative text with
  | .ok (numeral, rest) => (.number numeral, .ok rest)
  | .error fault => (.broken fault, .error .malformed)

mutual

/-- A value. Each step of a value, its items and its members takes one from `limit`, which the
length of the text bounds. -/
def value (limit : Nat) (text : List Char) : Draft × Remainder :=
  match limit with
  | 0 => broken .truncated
  | limit + 1 =>
    match skipSpaces text with
    | [] => broken .truncated
    | 'n' :: rest => word .null "ull".toList rest
    | 't' :: rest => word (.bool true) "rue".toList rest
    | 'f' :: rest => word (.bool false) "alse".toList rest
    | '"' :: rest => stringDraft rest
    | '-' :: rest => numberDraft true rest
    | '[' :: rest =>
      let (found, after) := items limit true rest
      (.array found, after)
    | '\x7b' :: rest =>
      let (found, after) := members limit true rest
      (.object found, after)
    | character :: rest =>
      if isDigit character then numberDraft false (character :: rest) else broken .malformed

/-- The items of an array up to its closing bracket. Every item but the first follows a comma. -/
def items (limit : Nat) (first : Bool) (text : List Char) : List Draft × Remainder :=
  match limit with
  | 0 => ([], .error .truncated)
  | limit + 1 =>
    match skipSpaces text, first with
    | ']' :: rest, _ => ([], .ok rest)
    | ',' :: rest, false => itemsFrom limit rest
    | [], _ => ([], .error .truncated)
    | _ :: _, false => ([], .error .malformed)
    | rest, true => itemsFrom limit rest

def itemsFrom (limit : Nat) (text : List Char) : List Draft × Remainder :=
  match limit with
  | 0 => ([], .error .truncated)
  | limit + 1 =>
    match value limit text with
    | (item, .error fault) => ([item], .error fault)
    | (item, .ok rest) =>
      let (later, after) := items limit false rest
      (item :: later, after)

/-- The members of an object up to its closing brace. -/
def members (limit : Nat) (first : Bool) (text : List Char) :
    List (Option String × Draft) × Remainder :=
  match limit with
  | 0 => ([], .error .truncated)
  | limit + 1 =>
    match skipSpaces text, first with
    | '\x7d' :: rest, _ => ([], .ok rest)
    | ',' :: rest, false => membersFrom limit (skipSpaces rest)
    | [], _ => ([], .error .truncated)
    | _ :: _, false => ([], .error .malformed)
    | rest, true => membersFrom limit rest

def membersFrom (limit : Nat) (text : List Char) : List (Option String × Draft) × Remainder :=
  match limit with
  | 0 => ([], .error .truncated)
  | limit + 1 =>
    match text with
    | '"' :: rest =>
      match stringRest .start rest with
      | (read, .error fault) =>
        (if read.known.isSome then [] else [(none, .broken fault)], .error fault)
      | (read, .ok rest) =>
        match skipSpaces rest with
        | ':' :: rest =>
          match value limit rest with
          | (member, .error fault) => ([(read.text?, member)], .error fault)
          | (member, .ok rest) =>
            let (later, after) := members limit false rest
            ((read.text?, member) :: later, after)
        | other => ([(read.text?, .broken (faultAt other))], .error (faultAt other))
    | other => ([], .error (faultAt other))

end

/-- The draft of a whole text, and the fault that ends reading it, be it in what follows the
value. -/
def draft (text : List Char) : Draft × Option Fault :=
  match value (2 * text.length + 2) text with
  | (found, .ok rest) => (found, if (skipSpaces rest).isEmpty then none else some .malformed)
  | (found, .error fault) => (found, some fault)

/-! ## Values -/

mutual

/-- The value of a draft that has no fault and no number out of range. -/
def Draft.value? : Draft → Option Json
  | .null => some .null
  | .bool value => some (.bool value)
  | .number numeral =>
    match numeral.integer? with
    | some whole => some (.integer whole)
    | none => numeral.float?.map .decimal
  | .string text => text.map .string
  | .array items => (Draft.values? items).map .array
  | .object members => (Draft.memberValues? members).map .object
  | .broken _ => none

def Draft.values? : List Draft → Option (List Json)
  | [] => some []
  | item :: items => do return (← item.value?) :: (← Draft.values? items)

def Draft.memberValues? : List (Option String × Draft) → Option (List (String × Json))
  | [] => some []
  | (name, member) :: members => do
    return (← name, ← member.value?) :: (← Draft.memberValues? members)

end

/-- The value that a text writes, if it writes one. -/
def read? (text : String) : Option Json :=
  match draft text.toList with
  | (found, none) => found.value?
  | (_, some _) => none

end SourceIndex.Json
