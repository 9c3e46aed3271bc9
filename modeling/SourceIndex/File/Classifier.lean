import SourceIndex.File.Path
import SourceIndex.Language.Catalogue

/-! What kind of file a file is, judged by its name and by how its content starts. -/

namespace SourceIndex

structure FileClass where
  languageId : String
  /-- Whether definitions and dependencies can be found in it. -/
  isStructured : Bool
  /-- Whether its text can be embedded. -/
  isEmbeddable : Bool
  deriving DecidableEq, Repr

/-- Classifies a file by its name and the bytes that its content starts with. -/
abbrev Classifier := (name : String) → (lead : ByteArray) → FileClass

namespace Classifier

/-- Languages of which nothing but the extension is known. -/
def plainExtensions : List (String × String) :=
  [("md", "markdown"), ("markdown", "markdown"), ("json", "json"), ("yaml", "yaml"),
    ("yml", "yaml"), ("toml", "toml"), ("sh", "shell"), ("bash", "shell"), ("zsh", "shell"),
    ("sql", "sql"), ("rb", "ruby"), ("lua", "lua")]

def specialNames : List (String × String) :=
  [("Dockerfile", "dockerfile"), ("Makefile", "makefile"), ("CMakeLists.txt", "cmake"),
    ("Rakefile", "ruby"), ("Gemfile", "ruby"), ("Jenkinsfile", "groovy")]

def interpreters : List (String × String) :=
  [("python", "python"), ("node", "javascript"), ("deno", "typescript"), ("bun", "typescript"),
    ("php", "php"), ("ruby", "ruby"), ("bash", "shell"), ("zsh", "shell"), ("sh", "shell")]

/-- Whether a program is an interpreter, perhaps with a version behind its name. -/
def isInterpreter (program interpreter : List Char) : Bool :=
  match Text.dropLead? interpreter program with
  | some version => version.all fun character => Text.isAsciiDigit character || character == '.'
  | none => false

/-- The program that the first line of a script names. Where that is `env`, its first argument
that is no option is meant. -/
def interpreterLine? (line : List Char) : Option (List Char) := do
  let words := Text.words (← Text.dropLead? ['#', '!'] line)
  let program ← words.head?
  let program ←
    if Text.endsWith program "/env".toList then words.tail.find? (·.head? ≠ some '-')
    else some program
  (Text.splitAll (· == '/') program).getLast?

def scriptLanguage? (lead : ByteArray) : Option String := do
  let line ← String.fromUTF8? ⟨(lead.toList.takeWhile (· ≠ 10)).toArray⟩
  let program ← interpreterLine? line.toList
  let (_, language) ← interpreters.find? fun (name, _) => isInterpreter program name.toList
  return language

/-- The language of a file: by its whole name, by its extension, by its first line, or else the
extension itself. -/
def languageId (name : String) (lead : ByteArray) : String :=
  let extension? := (Path.extension? name.toList).map fun extension =>
    Language.lowerCase (String.ofList extension)
  let byName := ((Language.ofFilename? name).map (·.id)).orElse fun _ => specialNames.lookup name
  let byExtension := extension?.bind fun extension =>
    ((Language.ofExtension? extension).map (·.id)).orElse fun _ => plainExtensions.lookup extension
  let byContent := fun (_ : Unit) => scriptLanguage? lead
  ((byName.orElse fun _ => byExtension).orElse byContent).getD (extension?.getD Language.plain.id)

/-- Classifies by name and content. A zero byte tells that a file is no text. -/
def standard : Classifier := fun name lead =>
  let id := languageId name lead
  let isText := !lead.toList.contains 0
  { languageId := id
    isStructured := isText && (Language.find? id).isSome
    isEmbeddable := isText }

end Classifier

end SourceIndex
