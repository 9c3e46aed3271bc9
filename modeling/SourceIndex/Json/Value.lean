/-! Values of the JSON data format. -/

namespace SourceIndex

/-- A JSON value. Whole numbers are kept apart from numbers with a fraction or an exponent, and the
members of an object stay in the order in which they are written. -/
inductive Json
  | null
  | bool (value : Bool)
  | integer (value : Int)
  | decimal (value : Float)
  | string (value : String)
  | array (items : List Json)
  | object (members : List (String × Json))
  deriving Inhabited

namespace Json

def member? (value : Json) (name : String) : Option Json :=
  match value with
  | .object members => members.lookup name
  | _ => none

def string? : Json → Option String
  | .string text => some text
  | _ => none

def natural? : Json → Option Nat
  | .integer number => if 0 ≤ number then some number.toNat else none
  | _ => none

def integer? : Json → Option Int
  | .integer number => some number
  | _ => none

def bool? : Json → Option Bool
  | .bool value => some value
  | _ => none

def array? : Json → Option (List Json)
  | .array items => some items
  | _ => none

/-- A value or, where there is none, the null value. -/
def ofOption {α : Type} (encode : α → Json) : Option α → Json
  | some value => encode value
  | none => .null

def ofNat (number : Nat) : Json := .integer number

end Json

end SourceIndex
