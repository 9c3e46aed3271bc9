import SourceIndex.Text.Hex

/-! The SHA-256 digest. A message is padded to blocks of sixteen words, and each block in turn stirs
a state of eight words. -/

namespace SourceIndex.Sha256

/-! ## Words -/

def rotateRight (word : UInt32) (places : UInt32) : UInt32 :=
  (word >>> places) ||| (word <<< (32 - places))

def choose (x y z : UInt32) : UInt32 := (x &&& y) ^^^ ((~~~ x) &&& z)

def majority (x y z : UInt32) : UInt32 := (x &&& y) ^^^ (x &&& z) ^^^ (y &&& z)

def sumA (x : UInt32) : UInt32 := rotateRight x 2 ^^^ rotateRight x 13 ^^^ rotateRight x 22

def sumE (x : UInt32) : UInt32 := rotateRight x 6 ^^^ rotateRight x 11 ^^^ rotateRight x 25

def spreadLow (x : UInt32) : UInt32 := rotateRight x 7 ^^^ rotateRight x 18 ^^^ (x >>> 3)

def spreadHigh (x : UInt32) : UInt32 := rotateRight x 17 ^^^ rotateRight x 19 ^^^ (x >>> 10)

/-- The first 32 bits of the fractional parts of the cube roots of the first 64 primes. -/
def roundConstants : Array UInt32 := #[
  0x428a2f98, 0x71374491, 0xb5c0fbcf, 0xe9b5dba5, 0x3956c25b, 0x59f111f1, 0x923f82a4, 0xab1c5ed5,
  0xd807aa98, 0x12835b01, 0x243185be, 0x550c7dc3, 0x72be5d74, 0x80deb1fe, 0x9bdc06a7, 0xc19bf174,
  0xe49b69c1, 0xefbe4786, 0x0fc19dc6, 0x240ca1cc, 0x2de92c6f, 0x4a7484aa, 0x5cb0a9dc, 0x76f988da,
  0x983e5152, 0xa831c66d, 0xb00327c8, 0xbf597fc7, 0xc6e00bf3, 0xd5a79147, 0x06ca6351, 0x14292967,
  0x27b70a85, 0x2e1b2138, 0x4d2c6dfc, 0x53380d13, 0x650a7354, 0x766a0abb, 0x81c2c92e, 0x92722c85,
  0xa2bfe8a1, 0xa81a664b, 0xc24b8b70, 0xc76c51a3, 0xd192e819, 0xd6990624, 0xf40e3585, 0x106aa070,
  0x19a4c116, 0x1e376c08, 0x2748774c, 0x34b0bcb5, 0x391c0cb3, 0x4ed8aa4a, 0x5b9cca4f, 0x682e6ff3,
  0x748f82ee, 0x78a5636f, 0x84c87814, 0x8cc70208, 0x90befffa, 0xa4506ceb, 0xbef9a3f7, 0xc67178f2]

/-! ## Blocks -/

structure State where
  a : UInt32
  b : UInt32
  c : UInt32
  d : UInt32
  e : UInt32
  f : UInt32
  g : UInt32
  h : UInt32

/-- The first 32 bits of the fractional parts of the square roots of the first eight primes. -/
def State.initial : State :=
  ⟨0x6a09e667, 0xbb67ae85, 0x3c6ef372, 0xa54ff53a, 0x510e527f, 0x9b05688c, 0x1f83d9ab, 0x5be0cd19⟩

def byteAt (message : ByteArray) (index : Nat) : UInt32 :=
  if _ : index < message.size then (message[index]).toUInt32 else 0

/-- Four bytes as a word, the most significant first. -/
def wordAt (message : ByteArray) (offset : Nat) : UInt32 :=
  (byteAt message offset <<< 24) ||| (byteAt message (offset + 1) <<< 16)
    ||| (byteAt message (offset + 2) <<< 8) ||| byteAt message (offset + 3)

/-- The 64 words that a block contributes, one to each round. -/
def schedule (message : ByteArray) (offset : Nat) : Array UInt32 :=
  let own := (List.range 16).foldl (fun words index =>
    words.push (wordAt message (offset + 4 * index))) #[]
  (List.range 48).foldl (fun words index =>
    words.push (spreadHigh (words.getD (index + 14) 0) + words.getD (index + 9) 0
      + spreadLow (words.getD (index + 1) 0) + words.getD index 0)) own

def round (state : State) (constant word : UInt32) : State :=
  let first := state.h + sumE state.e + choose state.e state.f state.g + constant + word
  let second := sumA state.a + majority state.a state.b state.c
  ⟨first + second, state.a, state.b, state.c, state.d + first, state.e, state.f, state.g⟩

def takeBlock (message : ByteArray) (state : State) (offset : Nat) : State :=
  let words := schedule message offset
  let stirred := (List.range 64).foldl (fun current index =>
    round current (roundConstants.getD index 0) (words.getD index 0)) state
  ⟨state.a + stirred.a, state.b + stirred.b, state.c + stirred.c, state.d + stirred.d,
    state.e + stirred.e, state.f + stirred.f, state.g + stirred.g, state.h + stirred.h⟩

/-! ## Messages -/

/-- A word as four bytes, the most significant first. -/
def bytesOfWord (word : UInt32) : List UInt8 :=
  [(word >>> 24).toUInt8, (word >>> 16).toUInt8, (word >>> 8).toUInt8, word.toUInt8]

/-- What follows a message of the given length: a single one bit, zeros up to eight bytes before the
end of a block, and the length in bits. -/
def padding (length : Nat) : List UInt8 :=
  let zeros := (119 - length % 64) % 64
  let bits := 8 * length
  0x80 :: List.replicate zeros 0
    ++ bytesOfWord (bits / 0x100000000).toUInt32 ++ bytesOfWord bits.toUInt32

def digest (bytes : ByteArray) : List UInt8 :=
  let message := (padding bytes.size).foldl ByteArray.push bytes
  let final := (List.range (message.size / 64)).foldl
    (fun state block => takeBlock message state (64 * block)) State.initial
  [final.a, final.b, final.c, final.d, final.e, final.f, final.g, final.h].flatMap bytesOfWord

def hexDigest (bytes : ByteArray) : String := hexOfBytes (digest bytes)

end SourceIndex.Sha256
