import SourceIndex.Json.Value

/-! Members of objects, read as values of known types. -/

namespace SourceIndex.Json

def textAt? (value : Json) (name : String) : Option String := do (← value.member? name).string?

def naturalAt? (value : Json) (name : String) : Option Nat := do (← value.member? name).natural?

def boolAt? (value : Json) (name : String) : Option Bool := do (← value.member? name).bool?

/-- The items of a list, all of which have to be of one type. -/
def itemsAt? {α : Type} (decode : Json → Option α) (value : Json) (name : String) :
    Option (List α) := do
  (← (← value.member? name).array?).mapM decode

/-- A member that may be null or missing. -/
def optionAt? {α : Type} (decode : Json → Option α) (value : Json) (name : String) :
    Option (Option α) :=
  match value.member? name with
  | none => some none
  | some .null => some none
  | some inner => (decode inner).map some

def float? : Json → Option Float
  | .integer number => some (Float.ofInt number)
  | .decimal number => some number
  | _ => none

/-- A number that is rounded once, to single precision. -/
def singleFloat? : Json → Option Float32
  | .integer number =>
    some (if 0 ≤ number then number.toNat.toUInt64.toFloat32 else (Int64.ofInt number).toFloat32)
  | .decimal number => some number.toFloat32
  | _ => none

def floatAt? (value : Json) (name : String) : Option Float := do (← value.member? name).float?

end SourceIndex.Json
