import SourceIndex.Config.Basic

/-! Batches: the stretches in which the files of a scan are worked off. -/

namespace SourceIndex

/-- How many files a batch holds: as many as give the wanted number of batches, but neither fewer
than the floor nor more than the ceiling, and always at least one. -/
def batchSize (config : ScanConfig) (candidates : Nat) : Nat :=
  max (min (max (candidates / max config.targetBatchCount 1) config.batchFloor)
    config.batchCeiling) 1

theorem batchSize_pos (config : ScanConfig) (candidates : Nat) : 0 < batchSize config candidates := by
  unfold batchSize
  omega

example : batchSize {} 1000 = 20 := by decide

/-- Cuts a list into stretches of `size` items; the last one may be shorter. -/
def batches {α : Type} (size : Nat) (items : List α) : List (List α) :=
  if items.isEmpty ∨ size = 0 then []
  else items.take size :: batches size (items.drop size)
termination_by items.length
decreasing_by
  simp only [List.length_drop]
  cases items with
  | nil => simp_all
  | cons item rest => simp_all; omega

end SourceIndex
