import SourceIndex.Text.Hex

/-! Vectors of single-precision numbers, kept as the bits of their components, and their bytes. -/

namespace SourceIndex

/-- The components of a vector as the bits of single-precision numbers. -/
abbrev Embedding := List UInt32

namespace Embedding

def bytesOf (word : UInt32) : List UInt8 :=
  [word.toUInt8, (word >>> 8).toUInt8, (word >>> 16).toUInt8, (word >>> 24).toUInt8]

def toBytes (vector : Embedding) : List UInt8 := vector.flatMap bytesOf

def wordOf (a b c d : UInt8) : UInt32 :=
  a.toUInt32 ||| (b.toUInt32 <<< 8) ||| (c.toUInt32 <<< 16) ||| (d.toUInt32 <<< 24)

/-- The vector that some bytes make. Up to three bytes at the end are left out. -/
def ofBytes : List UInt8 → Embedding
  | a :: b :: c :: d :: rest => wordOf a b c d :: ofBytes rest
  | _ => []

def toHex (vector : Embedding) : String := hexOfBytes vector.toBytes

def ofFloats (components : List Float32) : Embedding := components.map (·.toBits)

example : ofBytes (toBytes [0x3f800000, 0xffffffff]) = [0x3f800000, 0xffffffff] := by decide

end Embedding

end SourceIndex
