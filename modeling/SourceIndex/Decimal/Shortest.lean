/-! The shortest decimal that stands for a floating-point number. A finite number other than zero
is a whole number times a power of two, and every real number nearer to it than to its neighbours
is read as that number. Of the decimals among them the one with the fewest digits is written, and
of those the nearest. All of it is decided in whole numbers. -/

namespace SourceIndex

/-- The number `mantissa * 2 ^ exponent`. The gap to the neighbour below is half as wide as the one
above if `narrowBelow`. -/
structure Binary where
  mantissa : Nat
  exponent : Int
  narrowBelow : Bool

/-- The magnitude that the bits of a finite number stand for. -/
def Binary.ofBits (bits : UInt64) : Binary :=
  let exponent := ((bits >>> 52) &&& 0x7ff).toNat
  let fraction := (bits &&& 0xfffffffffffff).toNat
  if exponent = 0 then ⟨fraction, -1074, false⟩
  else ⟨0x10000000000000 + fraction, exponent - 1075, fraction == 0 && exponent > 1⟩

/-- The number `digits * 10 ^ exponent`. -/
structure Decimal where
  digits : Nat
  exponent : Int
  deriving DecidableEq, Repr

def compareScaled (count : Nat) (tens : Int) (mantissa : Nat) (twos : Int) : Ordering :=
  compare (count * Nat.pow 10 tens.toNat * Nat.pow 2 (-twos).toNat)
    (mantissa * Nat.pow 2 twos.toNat * Nat.pow 10 (-tens).toNat)

/-- Whether reading a decimal gives the number: it lies between the midpoints to the neighbours,
which count for a number of even mantissa. -/
def Binary.readsBack (number : Binary) (decimal : Decimal) : Bool :=
  let lower := if number.narrowBelow then 4 * number.mantissa - 1 else 4 * number.mantissa - 2
  let upper := 4 * number.mantissa + 2
  let inclusive := number.mantissa % 2 == 0
  let fromLower := compareScaled decimal.digits decimal.exponent lower (number.exponent - 2)
  let fromUpper := compareScaled decimal.digits decimal.exponent upper (number.exponent - 2)
  (fromLower == .gt || (inclusive && fromLower == .eq))
    && (fromUpper == .lt || (inclusive && fromUpper == .eq))

def Binary.floorScaled (number : Binary) (exponent : Int) : Nat :=
  number.mantissa * Nat.pow 2 number.exponent.toNat * Nat.pow 10 (-exponent).toNat
    / (Nat.pow 2 (-number.exponent).toNat * Nat.pow 10 exponent.toNat)

/-- The neighbour of the number on the grid of the given exponent that reads back, the nearer one if
both do. -/
def Binary.onGrid? (number : Binary) (exponent : Int) : Option Decimal :=
  let below := number.floorScaled exponent
  let down : Decimal := ⟨below, exponent⟩
  let up : Decimal := ⟨below + 1, exponent⟩
  match number.readsBack down, number.readsBack up with
  | true, true =>
    if compareScaled (2 * below + 1) exponent (2 * number.mantissa) number.exponent == .lt
    then some up else some down
  | true, false => some down
  | false, true => some up
  | false, false => none

def Binary.search (number : Binary) : (tries : Nat) → (exponent : Int) → Option Decimal
  | 0, _ => none
  | tries + 1, exponent =>
    (number.onGrid? exponent).orElse fun _ => number.search tries (exponent - 1)

def Decimal.strip : (limit : Nat) → Decimal → Decimal
  | 0, decimal => decimal
  | limit + 1, decimal =>
    if decimal.digits % 10 = 0 && decimal.digits ≠ 0 then
      Decimal.strip limit ⟨decimal.digits / 10, decimal.exponent + 1⟩
    else decimal

/-- The shortest decimal of a number other than zero. The search starts at a grid that is coarser
than the number itself. -/
def Binary.shortest (number : Binary) : Decimal :=
  let top : Int := ((number.mantissa.log2 : Int) + number.exponent) * 30103 / 100000 + 2
  ((number.search 24 top).getD ⟨number.mantissa, 0⟩).strip 24

def placePoint (digits : List Char) (whole : Nat) : List Char :=
  digits.take whole ++ '.' :: (if (digits.drop whole).isEmpty then ['0'] else digits.drop whole)

/-- A decimal between 10^-5 and 10^16 is written in full and always has a fraction; any other has
one digit before the point and an exponent. -/
def Decimal.render (decimal : Decimal) : List Char :=
  let digits := Nat.toDigits 10 decimal.digits
  let point : Int := digits.length + decimal.exponent
  if 0 < point ∧ point ≤ 16 then
    placePoint (digits ++ List.replicate decimal.exponent.toNat '0') point.toNat
  else if -5 < point ∧ point ≤ 0 then
    '0' :: '.' :: (List.replicate (-point).toNat '0' ++ digits)
  else
    let lead := if digits.length = 1 then digits else placePoint digits 1
    lead ++ 'e' :: (toString (point - 1)).toList

def Decimal.renderFloat (number : Float) : List Char :=
  let bits := number.toBits
  let sign := if bits >>> 63 = 1 then ['-'] else []
  let magnitude := Binary.ofBits bits
  sign ++ if magnitude.mantissa = 0 then ['0', '.', '0'] else magnitude.shortest.render

example : (Binary.ofBits 0x4055d5c28f5c28f6).shortest = ⟨8734, -2⟩ := by decide +kernel

end SourceIndex
