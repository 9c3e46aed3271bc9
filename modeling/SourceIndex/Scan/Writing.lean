import SourceIndex.Json.Value
import SourceIndex.Scan.Report

/-! What is told of a run, written as JSON. -/

namespace SourceIndex

def ScanStats.toJson (stats : ScanStats) : Json :=
  .object [("total_files", .ofNat stats.totalFiles), ("processed", .ofNat stats.processed),
    ("indexed", .ofNat stats.indexed), ("total_lines", .ofNat stats.totalLines),
    ("skipped_mtime", .ofNat stats.skippedByTime), ("skipped_hash", .ofNat stats.skippedByContent),
    ("skipped_oversize", .ofNat stats.skippedOversize), ("embedded", .ofNat stats.embedded),
    ("embedding_failures", .ofNat stats.embeddingFailures),
    ("ack_success", .ofNat stats.ackSuccess), ("ack_failed", .ofNat stats.ackFailed),
    ("failed", .ofNat stats.failed), ("pruned", .ofNat stats.pruned),
    ("memory_shrinks", .ofNat stats.memoryShrinks)]

namespace ProgressEvent

/-- What is written of an event besides the project and the root of the run. -/
def members : ProgressEvent → List (String × Json)
  | started _ _ mode totalFiles =>
    [("type", .string "scan_started"), ("mode", .string mode.tag),
      ("total_files", .ofNat totalFiles)]
  | entered phase position =>
    [("type", .string "scan_progress"), ("phase", .string phase.tag),
      ("processed", .ofNat position.processed), ("total", .ofNat position.total),
      ("batch", .ofNat position.batch), ("batches", .ofNat position.batches)]
  | fileIndexed path language lineCount hadEmbedding =>
    [("type", .string "file_indexed"), ("path", .string path), ("language", .string language),
      ("line_count", .ofNat lineCount), ("had_embedding", .bool hadEmbedding)]
  | completed _ stats success =>
    [("type", .string "scan_completed"), ("file_count", .ofNat stats.totalFiles),
      ("total_lines", .ofNat stats.totalLines), ("stats", stats.toJson),
      ("success", .bool success)]

end ProgressEvent

namespace ScanReport

def toJson (report : ScanReport) (milliseconds : Nat) : Json :=
  .object [("project", .string report.project), ("stats", report.stats.toJson),
    ("duration_ms", .ofNat milliseconds), ("success", .bool report.success),
    ("error", .ofOption (fun error => .string error.message) report.error)]

def line (label value : String) : String := label.pushn ' ' (13 - label.length) ++ value

def lines (report : ScanReport) (milliseconds : Nat) : List String :=
  let stats := report.stats
  let number := fun (count : Nat) => toString count
  [line "project" report.project,
    line "files" (number stats.totalFiles),
    line "indexed" (number stats.indexed ++ " (" ++ number stats.totalLines ++ " lines)"),
    line "unchanged" (number stats.skippedByTime ++ " (mtime) / "
      ++ number stats.skippedByContent ++ " (hash)"),
    line "embedded" (number stats.embedded ++ " ("
      ++ number stats.embeddingFailures ++ " batch failures)"),
    line "acks" (number stats.ackSuccess ++ " ok / " ++ number stats.ackFailed ++ " failed"),
    line "failed" (number stats.failed),
    line "pruned" (number stats.pruned),
    line "duration" (number milliseconds ++ "ms")]

end ScanReport

end SourceIndex
