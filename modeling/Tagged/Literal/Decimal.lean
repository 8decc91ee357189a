import Tagged.Binary64.Round
import Tagged.Byte

/-!
# Decimal literals

The longest decimal literal, or the word `inf`, `infinity` or `nan`, at the front of a
text that has no sign. A scan returns what it read and the text behind it.
-/

namespace Tagged.Literal

/-- An exponent as written: its sign, its digits, and the text behind it. -/
structure Exponent where
  negative : Bool
  digits : Bytes
  rest : Bytes

/-- An exponent after the letter `mark`. Without a digit there is no exponent, and the
letter is not part of the literal. -/
def exponent? (mark : UInt8) : Bytes → Option Exponent
  | [] => none
  | b :: text =>
    let (negative, text) := Bytes.splitSign text
    let digits := text.takeWhile Byte.isDigit
    if Byte.toLower b != mark || digits.isEmpty then none
    else some ⟨negative, digits, text.dropWhile Byte.isDigit⟩

/-- The size of a decimal exponent. Digits count until it has reached `2 ^ 16`; the ones
behind are passed over. -/
def exponentSize (digits : Bytes) : Nat :=
  digits.foldl (fun size b => if size < 0x10000 then size * 10 + Byte.digit b else size) 0

/-- What a literal without a sign says. -/
inductive Numeral where
  | infinity
  | nan
  | decimal (whole fraction : Bytes) (exponent : Int)
deriving DecidableEq, Repr

namespace Numeral

def word? (text : Bytes) : Option (Numeral × Bytes) :=
  if Bytes.startsWithWord (ascii "infinity") text then some (.infinity, text.drop 8)
  else if Bytes.startsWithWord (ascii "inf") text then some (.infinity, text.drop 3)
  else if Bytes.startsWithWord (ascii "nan") text then some (.nan, text.drop 3)
  else none

/-- The digits after a point, and the text behind them. -/
def fraction : Bytes → Bytes × Bytes
  | 0x2e :: text => (text.takeWhile Byte.isDigit, text.dropWhile Byte.isDigit)
  | text => ([], text)

/-- Digits, a point and an exponent, where a digit stands before or after the point. -/
def decimal? (text : Bytes) : Option (Numeral × Bytes) :=
  let whole := text.takeWhile Byte.isDigit
  let (fraction, rest) := fraction (text.dropWhile Byte.isDigit)
  if whole.isEmpty && fraction.isEmpty then none
  else
    match exponent? 0x65 rest with
    | none => some (.decimal whole fraction 0, rest)
    | some e =>
      let size : Int := exponentSize e.digits
      some (.decimal whole fraction (if e.negative then -size else size), e.rest)

/-- The longest literal at the front of a text. -/
def scan? (text : Bytes) : Option (Numeral × Bytes) :=
  match word? text with
  | some found => some found
  | none => decimal? text

/-- The number that a literal denotes, rounded to nearest with ties to even. -/
def value (negative : Bool) : Numeral → Binary64
  | .infinity => .infinity negative
  | .nan => .nan negative
  | .decimal whole fraction exponent =>
    .ofDecimal negative (Bytes.digitsValue (whole ++ fraction)) (exponent - fraction.length)

end Numeral

end Tagged.Literal
