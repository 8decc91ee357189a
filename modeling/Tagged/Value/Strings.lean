import Tagged.Value.Fault

/-!
# Strings

Strings are bytes: a length counts bytes, and case mapping changes ASCII letters only.
-/

namespace Tagged.Value

def length (v : Value) : Except Fault Value := do
  let text ← v.expectText "string_length"
  return .int (Int64.ofInt text.bytes.length)

def upper (v : Value) : Except Fault Value := do
  let text ← v.expectText "string_upper"
  return .ofBytes (text.bytes.map Byte.toUpper)

def lower (v : Value) : Except Fault Value := do
  let text ← v.expectText "string_lower"
  return .ofBytes (text.bytes.map Byte.toLower)

/-- Operands that are no strings contribute nothing. -/
def concat (left right : Value) : Value :=
  .ofBytes (left.asBytes?.getD [] ++ right.asBytes?.getD [])

end Tagged.Value
