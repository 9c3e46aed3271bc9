import SourceIndex.Analysis
import SourceIndex.File.Path
import SourceIndex.File.Time

/-! Files of an index. -/

namespace SourceIndex

/-- A file of an index. Its content and analysis are held only until they have been stored. -/
structure IndexedFile where
  id : String
  /-- The path below the root, with slashes between its segments. -/
  path : String
  name : String
  extension : String
  language : String
  contentHash : String
  size : Nat
  lineCount : Nat
  time : FileTime
  embedding : Option Embedding := none
  content : String := ""
  analysis : Option Analysis := none

namespace IndexedFile

def release (file : IndexedFile) : IndexedFile := { file with content := "", analysis := none }

def isReleased (file : IndexedFile) : Bool := file.content.isEmpty && file.analysis.isNone

theorem isReleased_release (file : IndexedFile) : file.release.isReleased = true := rfl

def nameOf (path : String) : String :=
  String.ofList (path.toList.reverse.takeWhile (· ≠ '/')).reverse

def extensionOf (path : String) : String :=
  match Path.extension? (nameOf path).toList with
  | some extension => Language.lowerCase (String.ofList extension)
  | none => ""

end IndexedFile

end SourceIndex
