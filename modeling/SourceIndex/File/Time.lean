/-! Points in time at which files have been changed. -/

namespace SourceIndex

/-- A point in time, counted in nanoseconds from the start of the year 1970. -/
structure FileTime where
  nanoseconds : Int
  deriving DecidableEq, Repr, Inhabited

namespace FileTime

/-- The whole milliseconds up to a point in time. Times before 1970 are rounded down too. -/
def milliseconds (time : FileTime) : Int := Int.fdiv time.nanoseconds 1000000

def ofMilliseconds (count : Int) : FileTime := ⟨count * 1000000⟩

example : (⟨-1⟩ : FileTime).milliseconds = -1 := by decide

/-- Whether a time is later than another one by the clock that counts milliseconds. -/
def isLaterThan (time other : FileTime) : Bool := other.milliseconds < time.milliseconds

end FileTime

end SourceIndex
