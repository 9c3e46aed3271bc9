import SourceIndex.File.Classifier
import SourceIndex.File.Record
import SourceIndex.Scan.Detection
import SourceIndex.Walk.Traversal

/-! Reading the files of a batch, and telling which of them have to be indexed. -/

namespace SourceIndex

structure Candidate where
  path : String
  time : FileTime
  content : String
  contentHash : String
  size : Nat
  fileClass : FileClass

inductive ReadOutcome
  | ready (candidate : Candidate)
  | unchangedByTime (size : Nat)
  | unchangedByContent (time : FileTime)
  | oversize
  | failed

namespace Candidate

/-- How many bytes of a file are shown to the classifier. -/
def leadSize : Nat := 1024

/-- Reads a file unless it is too large or its time tells that it is unchanged. -/
def read (maxBytes : Nat) (classifier : Classifier) (force : Bool) (recorded : Option FileState)
    (file : WalkedFile) : ReadOutcome :=
  let load := fun (_ : Unit) =>
    if file.content.isReadable then Except.ok file.content.bytes else .error ()
  if file.content.bytes.size > maxBytes then .oversize
  else
    match Detection.detect force recorded file.content.time load with
    | .error _ => .failed
    | .ok ⟨.unchangedByTime, _⟩ => .unchangedByTime file.content.bytes.size
    | .ok ⟨.unchangedByContent, _⟩ => .unchangedByContent file.content.time
    | .ok ⟨_, none⟩ => .failed
    | .ok ⟨_, some reading⟩ =>
      let lead := reading.text.toUTF8.extract 0 leadSize
      .ready
        { path := file.path
          time := file.content.time
          content := reading.text
          contentHash := reading.contentHash
          size := reading.size
          fileClass := classifier (IndexedFile.nameOf file.path) lead }

end Candidate

end SourceIndex
