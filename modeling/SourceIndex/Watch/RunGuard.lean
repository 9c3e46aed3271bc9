/-! A guard that admits one run at a time. -/

namespace SourceIndex

/-- The state that all copies of a guard share. -/
structure RunGuard where
  isRunning : Bool := false
  admitted : Nat := 0
  deriving DecidableEq, Repr

/-- Held for as long as a run lasts. -/
structure RunTicket where
  number : Nat
  deriving DecidableEq, Repr

namespace RunGuard

/-- Admits a run unless one is on its way. -/
def begin (guard : RunGuard) : Option RunTicket × RunGuard :=
  if guard.isRunning then (none, guard)
  else (some ⟨guard.admitted⟩, { isRunning := true, admitted := guard.admitted + 1 })

def finish (guard : RunGuard) (_ : RunTicket) : RunGuard := { guard with isRunning := false }

end RunGuard

end SourceIndex
