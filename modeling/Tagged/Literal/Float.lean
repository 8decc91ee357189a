import Tagged.Literal.Hexadecimal

/-!
# Float texts

The number that a text begins with, and the text behind it. Blanks and a sign may stand
in front. A text that begins with no literal denotes zero.
-/

namespace Tagged.Literal

/-- The hexadecimal literal at the front of a text without a sign. -/
def markedHexadecimal? : Bytes → Option (Binary64 × Bytes)
  | 0x30 :: x :: text => if Byte.toLower x == 0x78 then hexadecimal? text else none
  | _ => none

/-- The literal at the front of a text: a sign, then a hexadecimal literal or, failing
that, a decimal one. -/
def float? (text : Bytes) : Option (Binary64 × Bytes) :=
  let (negative, unsigned) := Bytes.splitSign text
  match markedHexadecimal? unsigned with
  | some (x, rest) => some (if negative then x.neg else x, rest)
  | none => (Numeral.scan? unsigned).map fun (numeral, rest) => (numeral.value negative, rest)

def floatValue (text : Bytes) : Binary64 :=
  match float? (Bytes.skipSpace text) with
  | some (x, _) => x
  | none => .zero false

end Tagged.Literal
