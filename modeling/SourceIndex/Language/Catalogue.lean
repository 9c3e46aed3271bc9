import SourceIndex.Language.Ecmascript
import SourceIndex.Language.Python
import SourceIndex.Language.Go
import SourceIndex.Language.Rust
import SourceIndex.Language.Java
import SourceIndex.Language.CSharp
import SourceIndex.Language.Kotlin
import SourceIndex.Language.Swift
import SourceIndex.Language.CFamily
import SourceIndex.Language.Php
import SourceIndex.Language.Markup
import SourceIndex.Language.Plain

/-! The known languages, and how they are looked up. -/

namespace SourceIndex.Language

def known : List Language :=
  [javascript, typescript, python, go, rust, java, csharp, kotlin, swift, c, cpp, php, html, xml,
    vue, svelte]

def aliases : List (String × String) :=
  [("js", "javascript"), ("jsx", "javascript"), ("ts", "typescript"), ("tsx", "typescript"),
    ("py", "python"), ("golang", "go"), ("rs", "rust"), ("c#", "csharp"), ("cs", "csharp"),
    ("kt", "kotlin"), ("c++", "cpp"), ("cxx", "cpp")]

def lowerCase (text : String) : String := String.ofList (text.toList.map Text.asciiLower)

/-- The language of a name or further name, in any case. -/
def find? (name : String) : Option Language :=
  let lower := lowerCase name
  let id := (aliases.lookup lower).getD lower
  known.find? (·.id == id)

/-- The language of a name; what is not known is read as plain text. -/
def ofName (name : String) : Language := (find? name).getD plain

/-- The language of files with an extension, in any case. -/
def ofExtension? (extension : String) : Option Language :=
  let lower := lowerCase extension
  known.find? (·.extensions.contains lower)

def ofFilename? (name : String) : Option Language :=
  known.find? (·.filenames.contains name)

/-- The names of the known languages in alphabetical order. -/
def ids : List String := (known.map (·.id)).mergeSort (· ≤ ·)

end SourceIndex.Language
