import SourceIndex.Language.Basic

/-! The Python language. -/

namespace SourceIndex.Language

open Pattern

namespace Python

/-- An assignment, perhaps with a type in front of its sign. -/
def assignment : Pattern :=
  all [maybe (all [text ":", blanks, several (outside ['='])]), text "=", oneOf (outside ['='])]

def definitions : List DefinitionRule := [
  .block .classType .anywhere <|
    all [.textStart, many (among [' ', '\t']), word "class", named "name" identifier, blanks,
      maybe (all [text "(", named "bases" (many (outside [')'])), text ")"]), blanks, text ":"],
  .block .function .anywhere <|
    all [.textStart, many (among [' ', '\t']), maybeWord "async", word "def",
      named "name" identifier, blanks, maybe (enclosed '[' ']'), blanks, parameters],
  .leaf .function .topLevel <|
    all [.textStart, named "name" identifier, blanks, text "=", blanks, text "lambda", .wordEdge,
      named "params" (many (outside [':'])), text ":"],
  .leaf .constant .topLevel <|
    all [.textStart,
      named "name" (all [oneOf (among [.between 'A' 'Z']),
        many (among [.between 'A' 'Z', .between '0' '9', '_'])]), blanks, assignment],
  .leaf .variableBinding .topLevel <|
    all [.textStart,
      named "name" (all [oneOf (among [.between 'a' 'z', '_']), many (among [.word])]), blanks,
      assignment],
  .leaf .property .inType <|
    all [.textStart, several (among [' ', '\t']), named "name" identifier, blanks, assignment]]

def imports : ImportGrammar where
  rules := [
    { kind := .fromStatement
      pattern :=
        all [.textStart, blanks, word "from",
          named "path" (anyOf [all [text ".", many (among ['.']), many (among [.word, '.'])],
            several (among [.word, '.'])]), gap, word "import", maybe (text "("),
          named "names" (many (outside [')', '#'])), maybe (text ")")] },
    { kind := .importStatement, splitsTargets := true, bindsModule := true
      pattern :=
        all [.textStart, blanks, word "import",
          named "path" (all [several (among [.word, '.']),
            maybe (all [gap, word "as", several (among [.word])]),
            repeated (all [blanks, text ",", blanks, several (among [.word, '.']),
              maybe (all [gap, word "as", several (among [.word])])])])] },
    { kind := .dynamicCall
      pattern :=
        all [anyText ["__import__", "importlib.import_module"], blanks, text "(", blanks,
          oneOf (among ['\'', '"']), named "path" (several (outside ['\'', '"'])),
          oneOf (among ['\'', '"'])] }]
  continuation := some {
    opening := all [.textStart, blanks, word "from", several (among [.word, '.']), gap,
        text "import", blanks, text "(", many (outside [')']), .textEnd]
    closing := text ")" }
  builtins := ["abc", "argparse", "array", "ast", "asyncio", "base64", "binascii", "bisect",
    "builtins", "bz2", "calendar", "cmath", "collections", "concurrent", "configparser",
    "contextlib", "contextvars", "copy", "csv", "ctypes", "dataclasses", "datetime", "decimal",
    "difflib", "dis", "email", "enum", "errno", "fnmatch", "fractions", "ftplib", "functools", "gc",
    "getpass", "gettext", "glob", "gzip", "hashlib", "heapq", "hmac", "html", "http", "importlib",
    "inspect", "io", "ipaddress", "itertools", "json", "keyword", "logging", "lzma", "math",
    "mimetypes", "multiprocessing", "numbers", "operator", "os", "pathlib", "pickle", "platform",
    "pprint", "queue", "random", "re", "secrets", "select", "shlex", "shutil", "signal", "socket",
    "sqlite3", "ssl", "stat", "statistics", "string", "struct", "subprocess", "sys", "tarfile",
    "tempfile", "textwrap", "threading", "time", "timeit", "tkinter", "token", "tokenize",
    "traceback", "types", "typing", "unicodedata", "unittest", "urllib", "uuid", "venv", "warnings",
    "weakref", "xml", "zipfile", "zlib", "zoneinfo", "__future__"]
  relativeLeads := [['.']]
  separator := some ['.']

end Python

def python : Language where
  id := "python"
  extensions := ["py", "pyi", "pyw"]
  filenames := ["SConstruct", "SConscript"]
  scopeStyle := .indentation
  lexicon := {
    lineComments := [['#']]
    docMarks := [['"', '"', '"'], ['\'', '\'', '\'']]
    strings := [tripleQuoted, ⟨['\'', '\'', '\''], true⟩, doubleQuoted, singleQuoted] }
  rules := Python.definitions
  denied := controlWords ++ ["elif", "except", "with", "assert", "lambda", "pass", "raise", "del",
    "global", "nonlocal", "print", "self", "cls"]
  constructorNames := ["__init__", "__new__"]
  destructorNames := ["__del__"]
  exportStyle := .lowLine
  decisions := keywords ["if", "elif", "for", "while", "except", "case", "and", "or"]
  imports := Python.imports

end SourceIndex.Language
