import SourceIndex.Scan.Report

/-! What is asked for on the command line. -/

namespace SourceIndex

structure ScanCommand where
  /-- The path of the configuration; the empty one stands for the usual place. -/
  configPath : String := ""
  root : String := "."
  mode : ScanMode := .incremental
  asJson : Bool := false
  deriving DecidableEq, Repr

namespace ScanCommand

def usage : String := "usage: source-index [--config FILE] scan [ROOT] [--force] [--json]"

/-- Takes the arguments behind the name of the command. At most one of them is the root. -/
def takeOptions (command : ScanCommand) (hasRoot : Bool) : List String → Option ScanCommand
  | [] => some command
  | "--force" :: arguments => { command with mode := .force }.takeOptions hasRoot arguments
  | "--json" :: arguments => { command with asJson := true }.takeOptions hasRoot arguments
  | root :: arguments =>
    if hasRoot ∨ "-".toList.isPrefixOf root.toList then none
    else { command with root }.takeOptions true arguments

def ofArguments? : List String → Option ScanCommand
  | "--config" :: configPath :: "scan" :: arguments =>
    ({ configPath } : ScanCommand).takeOptions false arguments
  | "-c" :: configPath :: "scan" :: arguments =>
    ({ configPath } : ScanCommand).takeOptions false arguments
  | "scan" :: arguments => ({} : ScanCommand).takeOptions false arguments
  | _ => none

end ScanCommand

end SourceIndex
