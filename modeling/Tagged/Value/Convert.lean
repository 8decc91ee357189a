import Tagged.Literal.Float
import Tagged.Literal.Integer
import Tagged.Value.Fault
import Tagged.Value.Render

/-!
# Conversions

Conversions are total: a text that denotes no number becomes zero. The strict ones first
ask for the tag that they convert from.
-/

namespace Tagged.Value

def toText (v : Value) : Value := .ofBytes v.render

/-- The integer that a text denotes, or zero. -/
def textInt (text : Text) : Int64 := (Literal.integer? text.bytes).getD 0

def toInt : Value → Value
  | .int n => .int n
  | .float x => .int x.toInt64
  | .string text => .int (textInt text)
  | .bool b => .int (if b then 1 else 0)
  | .array => .int 0

def boolFloat (b : Bool) : Binary64 := if b then .one else .zero false

def toFloat : Value → Value
  | .int n => .float (.ofInt n.toInt)
  | .float x => .float x
  | .string text => .float (Literal.floatValue text.bytes)
  | .bool b => .float (boolFloat b)
  | .array => .float (.zero false)

def stringToInt (v : Value) : Except Fault Value := do
  let text ← v.expectText "string_to_int"
  return .int (textInt text)

def intToString (v : Value) : Except Fault Value := do
  let n ← v.expectInt "int_to_string"
  return .ofBytes (intText n)

end Tagged.Value
