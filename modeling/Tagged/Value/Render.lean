import Tagged.Decimal.Shortest
import Tagged.Text.Quoted
import Tagged.Value.Basic

/-!
# The text of a value

`render` is the text that is printed, `display` its characters, and `inspect` a text that
also shows the tag.
-/

namespace Tagged.Value

/-- Numbers are rendered within this many bytes. -/
def numberWidth : Nat := 63

def intText (n : Int64) : Bytes := (decimalInt n.toInt).take numberWidth

def render : Value → Bytes
  | .int n => intText n
  | .float x => x.general.take numberWidth
  | .string text => text.bytes
  | .bool true => ascii "true"
  | .bool false => ascii "false"
  | .array => ascii "unknown"

def display (v : Value) : String := Utf8.lossy v.render

/-- The payload between parentheses after the tag's name. -/
def payload : Value → String
  | .int n => Utf8.lossy (decimalInt n.toInt)
  | .float x => Utf8.lossy x.shortest
  | .string text => text.quoted
  | .bool b => if b then "true" else "false"
  | .array => "0x0"

def inspect (v : Value) : String := v.tag.name ++ "(" ++ v.payload ++ ")"

end Tagged.Value
