import Tagged.Value.Basic

/-!
# Faults

A strict operation stops the program when an operand has another tag than it asks for.
-/

namespace Tagged

/-- The operation that stopped, the tag it asked for and the tag it got. -/
structure Fault where
  operation : String
  expected : Tag
  actual : Tag
deriving DecidableEq, Repr

namespace Fault

def message (f : Fault) : String :=
  "Runtime error in " ++ f.operation ++ ": expected type " ++ toString f.expected.code ++
    " (" ++ f.expected.name ++ "), got " ++ toString f.actual.code ++ " (" ++ f.actual.name ++ ")"

end Fault

namespace Value

/-- Asks for a tag. -/
def validate (v : Value) (expected : Tag) (operation : String) : Except Fault Unit :=
  if v.tag = expected then .ok () else .error ⟨operation, expected, v.tag⟩

def expectText (v : Value) (operation : String) : Except Fault Text :=
  match v with
  | .string text => .ok text
  | other => .error ⟨operation, .string, other.tag⟩

def expectInt (v : Value) (operation : String) : Except Fault Int64 :=
  match v with
  | .int n => .ok n
  | other => .error ⟨operation, .int, other.tag⟩

end Value

end Tagged
