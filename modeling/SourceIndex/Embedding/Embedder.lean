import SourceIndex.Embedding.Vector
import SourceIndex.Hash.Sha256

/-! Embedders, which turn texts into vectors. -/

namespace SourceIndex

inductive EmbedError
  | inferenceFailed (reason : String)
  | batchUnsupported
  | countMismatch (expected actual : Nat)
  deriving DecidableEq, Repr

def EmbedError.message : EmbedError → String
  | inferenceFailed reason => "inference failed: " ++ reason
  | batchUnsupported => "batch embedding not supported"
  | countMismatch expected actual =>
    "expected " ++ toString expected ++ " vectors, got " ++ toString actual

/-- Turns texts into vectors, one by one or, if it can, many at once. -/
structure Embedder where
  dimensions : Nat
  embed : String → Except EmbedError Embedding
  batch : Option (List String → Except EmbedError (List Embedding)) := none

namespace Embedder

def embedBatch (embedder : Embedder) (texts : List String) : Except EmbedError (List Embedding) :=
  match embedder.batch with
  | some batch => batch texts
  | none => .error .batchUnsupported

/-- The vector of every text. What cannot be done in one call is done text by text. -/
def embedAll (embedder : Embedder) (texts : List String) : Except EmbedError (List Embedding) := do
  let vectors ← match embedder.embedBatch texts with
    | .error .batchUnsupported => texts.mapM embedder.embed
    | result => result
  if vectors.length = texts.length then return vectors
  else throw (.countMismatch texts.length vectors.length)

/-! ## Digests as vectors -/

/-- A block of 32 bytes that depends on a text and on its own number. -/
def digestBlock (text : ByteArray) (number : Nat) : List UInt8 :=
  let counter := (Embedding.bytesOf number.toUInt32).toArray
  Sha256.digest (⟨counter⟩ ++ text)

/-- Components between -1 and 1 that are taken from the digests of a text. -/
def digestComponents (dimensions : Nat) (text : ByteArray) : List Float32 :=
  let blocks := (List.range ((dimensions + 31) / 32)).flatMap (digestBlock text)
  (blocks.take dimensions).map fun byte => byte.toFloat32 / 127.5 - 1.0

def normalize (components : List Float32) : List Float32 :=
  let square := components.foldl (fun sum component => sum + component * component) 0.0
  if square > 0.0 then
    let scale := 1.0 / square.sqrt
    components.map (· * scale)
  else components

/-- The vector of a text: its digests, scaled to length one. -/
def digestVector (dimensions : Nat) (text : String) : Embedding :=
  Embedding.ofFloats (normalize (digestComponents dimensions text.toUTF8))

/-- An embedder that needs no model. Equal texts have equal vectors. -/
def digesting (dimensions : Nat) : Embedder where
  dimensions := dimensions
  embed text := .ok (digestVector dimensions text)
  batch := some fun texts => .ok (texts.map (digestVector dimensions))

/-- The same without calls for many texts. -/
def digestingSingly (dimensions : Nat) : Embedder :=
  { digesting dimensions with batch := none }

def defaultDimensions : Nat := 384

end Embedder

/-! ## Texts of limited length -/

/-- What is put behind a text that has been cut. -/
def truncationMark : String := "…[truncated]"

/-- A text of limited length, and whether it had to be cut. -/
def cutText (text : String) (limit : Nat) : String × Bool :=
  let characters := text.toList
  if (characters.drop limit).isEmpty then (text, false)
  else (String.ofList (characters.take limit) ++ truncationMark, true)

def prepareText (text : String) (limit : Nat) : String := (cutText text limit).1

end SourceIndex
