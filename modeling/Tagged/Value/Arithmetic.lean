import Tagged.Binary64.Power
import Tagged.Value.Convert

/-!
# Arithmetic

Operands without a numeric meaning give the integer zero. Integers stay integers among
themselves and are widened to floats beside one.
-/

namespace Tagged.Value

/-- An operand as a float. -/
def widen : Value → Binary64
  | .int n => .ofInt n.toInt
  | .float x => x
  | .bool b => boolFloat b
  | .string _ => .zero false
  | .array => .zero false

/-- The absolute value; the least integer, which has none, gives the greatest. -/
def abs : Value → Value
  | .int n => .int (Int64.ofInt (clampInt64 n.toInt.natAbs))
  | .float x => .float x.abs
  | _ => .int 0

/-- Applies a choice of two numbers, on integers if both are, else on floats if one is. -/
def choose (ints : Int64 → Int64 → Int64) (floats : Binary64 → Binary64 → Binary64) :
    Value → Value → Value
  | .int m, .int n => .int (ints m n)
  | .float x, b => .float (floats x b.widen)
  | a, .float y => .float (floats a.widen y)
  | _, _ => .int 0

def max : Value → Value → Value := choose Max.max Binary64.max

def min : Value → Value → Value := choose Min.min Binary64.min

/-- The power of the widened operands, always a float. -/
def pow (base exponent : Value) : Value := .float (base.widen.pow exponent.widen)

end Tagged.Value
