import Tagged.Binary64.Round
import Tagged.Byte

/-!
# Integer texts

A text denotes an integer when it is blanks, at most one sign, and one or more digits up
to its end. Digits are taken in one at a time, and a value that leaves the range of a
64-bit word stays at the end of the range that it left.
-/

namespace Tagged.Literal

/-- Appends a digit to a value that is kept within 64 bits. -/
def appendDigit (negative : Bool) (value : Int) (b : UInt8) : Int :=
  let shifted := clampInt64 (value * 10)
  clampInt64 (if negative then shifted - Byte.digit b else shifted + Byte.digit b)

def integer? (text : Bytes) : Option Int64 :=
  let (negative, digits) := Bytes.splitSign (Bytes.skipSpace text)
  if digits.isEmpty || !digits.all Byte.isDigit then none
  else some (Int64.ofInt (digits.foldl (appendDigit negative) 0))

end Tagged.Literal
