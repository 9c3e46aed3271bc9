import SourceIndex.Hash.Sha256

/-! Identifiers that depend on nothing but what they identify. -/

namespace SourceIndex

/-- The bytes of which an identifier is the digest: each part is followed by a zero byte, so that
different lists of parts without zero bytes give different bytes. -/
def identifierBytes (parts : List String) : ByteArray :=
  parts.foldl (fun bytes part => (bytes ++ part.toUTF8).push 0) ByteArray.empty

/-- Sixteen hexadecimal digits that stand for a list of parts. -/
def stableId (parts : List String) : String :=
  hexOfBytes ((Sha256.digest (identifierBytes parts)).take 8)

/-- The digest by which the content of a file is compared. -/
def contentHash (bytes : ByteArray) : String := Sha256.hexDigest bytes

def fileId (project path : String) : String := stableId [project, path]

def projectKeyOf (root : String) : String :=
  hexOfBytes ((Sha256.digest root.toUTF8).take 6)

end SourceIndex
