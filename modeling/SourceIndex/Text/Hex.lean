/-! Bytes written as hexadecimal digits. -/

namespace SourceIndex

/-- The lower-case hexadecimal digit of a number below sixteen. -/
def hexDigit (number : Nat) : Char := (Nat.digitChar number)

def hexOfBytes (bytes : List UInt8) : String :=
  String.ofList (bytes.flatMap fun byte => [hexDigit (byte.toNat / 16), hexDigit (byte.toNat % 16)])

/-- The number that a hexadecimal digit of either case stands for. -/
def hexValue? (digit : Char) : Option Nat :=
  if '0' ≤ digit && digit ≤ '9' then some (digit.toNat - '0'.toNat)
  else if 'a' ≤ digit && digit ≤ 'f' then some (digit.toNat - 'a'.toNat + 10)
  else if 'A' ≤ digit && digit ≤ 'F' then some (digit.toNat - 'A'.toNat + 10)
  else none

def bytesOfDigits? : List Char → Option (List UInt8)
  | [] => some []
  | [_] => none
  | high :: low :: rest => do
    let byte := (← hexValue? high) * 16 + (← hexValue? low)
    return byte.toUInt8 :: (← bytesOfDigits? rest)

def bytesOfHex? (text : String) : Option (List UInt8) := bytesOfDigits? text.toList

example : hexOfBytes [0x00, 0x7f, 0xe0] = "007fe0" := by decide

example : bytesOfDigits? ['0', '0', '7', 'f', 'E', '0'] = some [0x00, 0x7f, 0xe0] := by decide

end SourceIndex
