/-! Text read from bytes that may not be UTF-8. -/

namespace SourceIndex.Text

/-- The mark that takes the place of bytes that are no character. -/
def replacement : Char := '\ufffd'

def isContinuation (byte : UInt8) : Bool := 0x80 ≤ byte && byte ≤ 0xbf

/-- Whether a byte may follow the first byte of a character of several bytes. Some first bytes
narrow the range, so that no character has two encodings and none is out of range. -/
def mayFollow (first second : UInt8) : Bool :=
  if first = 0xe0 then 0xa0 ≤ second && second ≤ 0xbf
  else if first = 0xed then 0x80 ≤ second && second ≤ 0x9f
  else if first = 0xf0 then 0x90 ≤ second && second ≤ 0xbf
  else if first = 0xf4 then 0x80 ≤ second && second ≤ 0x8f
  else isContinuation second

def joinBytes (high : Nat) (rest : List UInt8) : Char :=
  Char.ofNat (rest.foldl (fun code byte => 64 * code + (byte.toNat - 0x80)) high)

/-- Reads characters behind those in `read`, which has the last one first. Each longest start of a
character that breaks off becomes one replacement mark. -/
def decodeFrom (read : List Char) : List UInt8 → List Char
  | [] => read.reverse
  | first :: rest =>
    if first < 0x80 then decodeFrom (Char.ofNat first.toNat :: read) rest
    else if 0xc2 ≤ first && first ≤ 0xdf then
      match rest with
      | second :: later =>
        if mayFollow first second then
          decodeFrom (joinBytes (first.toNat - 0xc0) [second] :: read) later
        else decodeFrom (replacement :: read) (second :: later)
      | [] => (replacement :: read).reverse
    else if 0xe0 ≤ first && first ≤ 0xef then
      match rest with
      | second :: third :: later =>
        if !mayFollow first second then decodeFrom (replacement :: read) (second :: third :: later)
        else if isContinuation third then
          decodeFrom (joinBytes (first.toNat - 0xe0) [second, third] :: read) later
        else decodeFrom (replacement :: read) (third :: later)
      | [second] =>
        if mayFollow first second then (replacement :: read).reverse
        else decodeFrom (replacement :: read) [second]
      | [] => (replacement :: read).reverse
    else if 0xf0 ≤ first && first ≤ 0xf4 then
      match rest with
      | second :: third :: fourth :: later =>
        if !mayFollow first second then
          decodeFrom (replacement :: read) (second :: third :: fourth :: later)
        else if !isContinuation third then
          decodeFrom (replacement :: read) (third :: fourth :: later)
        else if isContinuation fourth then
          decodeFrom (joinBytes (first.toNat - 0xf0) [second, third, fourth] :: read) later
        else decodeFrom (replacement :: read) (fourth :: later)
      | [second, third] =>
        if !mayFollow first second then decodeFrom (replacement :: read) [second, third]
        else if isContinuation third then (replacement :: read).reverse
        else decodeFrom (replacement :: read) [third]
      | [second] =>
        if mayFollow first second then (replacement :: read).reverse
        else decodeFrom (replacement :: read) [second]
      | [] => (replacement :: read).reverse
    else decodeFrom (replacement :: read) rest

def decodeLossy (bytes : ByteArray) : List Char := decodeFrom [] bytes.toList

example : decodeFrom [] [0x61, 0xe2, 0x82, 0xac, 0xe2, 0x82, 0x62, 0xff]
    = ['a', '€', replacement, 'b', replacement] := by decide

end SourceIndex.Text
