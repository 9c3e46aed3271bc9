import SourceIndex.Config.Reading
import SourceIndex.Project.Registry
import SourceIndex.Scan.Command
import SourceIndex.Scan.Writing

/-! Command line: indexes a directory once and prints the report. -/

namespace SourceIndex

/-- Reads what is at a path. What is neither a file nor a directory, such as a link, is left out. -/
partial def readTree (path : String) : IO (Option FileTree) := do
  let place ← IO.FS.realPath path
  let metadata ← place.symlinkMetadata
  match metadata.type with
  | .dir =>
    let mut entries := []
    for entry in ← place.readDir do
      if (← entry.path.symlinkMetadata).type != .symlink then
        if let some child ← readTree entry.path.toString then
          entries := (entry.fileName, child) :: entries
    return some (.directory entries)
  | .file =>
    let time := metadata.modified
    let content : StoredBytes :=
      { bytes := ByteArray.empty, time := ⟨time.sec * 1000000000 + time.nsec.toNat⟩ }
    try
      return some (.file { content with bytes := ← IO.FS.readBinFile place })
    catch _ => return some (.file { content with isReadable := false })
  | _ => return none

def loadConfig (path : String) : IO Config := do
  let isUsualPlace := path.isEmpty
  let place := if isUsualPlace then "codeindex.json" else path
  let content ← try some <$> IO.FS.readBinFile place catch _ => pure none
  match Config.load isUsualPlace content with
  | .error error => throw (IO.userError error.message)
  | .ok loaded =>
    if let some template := loaded.template then IO.FS.writeFile place template
    if let some fault := loaded.config.fault? then
      throw (IO.userError ("invalid configuration: " ++ fault.message))
    return loaded.config

def runScan (command : ScanCommand) : IO UInt32 := do
  let config ← loadConfig command.configPath
  let start ← IO.monoMsNow
  let root := (← IO.FS.realPath command.root).toString
  let names := (root.splitOn "/").filter (! ·.isEmpty)
  let tree ← readTree root
  let disk := (tree.bind (FileTree.empty.insert? names ·)).getD FileTree.empty
  let embedder := Embedder.digesting config.embedding.dimensions
  let registry : Registry := { embedder, config }
  match registry.getOrCreate disk root with
  | .error error => throw (IO.userError error.message)
  | .ok (handle, _) =>
    let (report, _) := handle.indexer.scan disk command.mode {}
    let duration := (← IO.monoMsNow) - start
    if command.asJson then IO.println (report.toJson duration).pretty
    else (report.lines duration).forM IO.println
    match report.error with
    | none => return 0
    | some error =>
      IO.eprintln ("scan failed: " ++ error.message)
      return 1

end SourceIndex

def main (arguments : List String) : IO UInt32 := do
  match SourceIndex.ScanCommand.ofArguments? arguments with
  | some command => SourceIndex.runScan command
  | none =>
    IO.eprintln SourceIndex.ScanCommand.usage
    return 2
