import Tagged.Binary64.Round
import Tagged.Byte

/-!
# General notation

Numbers are written with six significant digits, rounded from the exact value with ties
to even. Trailing zeros of the fraction are left out. The exponent of the rounded number
decides whether it is written positionally or with an exponent.
-/

namespace Tagged.Decimal

/-- The exponent of the leading decimal digit of `num / den`, for positive `num`. -/
def leadingExponent (num den : Nat) : Int :=
  if den ≤ num then ((decimal (num / den)).length : Int) - 1
  else -((decimal ((den - 1) / num)).length : Int)

/-- The fraction `num / den` in units of `10 ^ e`, again as a fraction. -/
def inUnits (num den : Nat) (e : Int) : Nat × Nat :=
  if 0 ≤ e then (num, den * Nat.pow 10 e.toNat) else (num * Nat.pow 10 e.natAbs, den)

/-- Significant digits, the first of which stands for a multiple of `10 ^ exponent`. -/
structure Significant where
  digits : Nat
  exponent : Int
deriving DecidableEq, Repr

namespace Significant

/-- The number of significant digits. -/
def precision : Nat := 6

/-- The fraction `num / den` rounded to six significant digits. -/
def ofRatio (num den : Nat) : Significant :=
  if num = 0 then ⟨0, 0⟩
  else
    let e := leadingExponent num den
    let (n, d) := inUnits num den (e - (precision - 1))
    let digits := roundHalfEven n d
    if digits = Nat.pow 10 precision then ⟨Nat.pow 10 (precision - 1), e + 1⟩
    else ⟨digits, e⟩

/-- All six digits, zeros included. -/
def text (s : Significant) : Bytes :=
  let digits := decimal s.digits
  digits ++ List.replicate (precision - digits.length) 0x30

end Significant

def trimZeros (digits : Bytes) : Bytes := (digits.reverse.dropWhile (· == 0x30)).reverse

/-- Joins whole and fraction digits; a fraction of zeros is left out with its point. -/
def joinPoint (whole fraction : Bytes) : Bytes :=
  let fraction := trimZeros fraction
  if fraction.isEmpty then whole else whole ++ 0x2e :: fraction

/-- At least two digits. -/
def exponentText (e : Int) : Bytes :=
  let digits := decimal e.natAbs
  let digits := if digits.length < 2 then 0x30 :: digits else digits
  (if e < 0 then 0x2d else 0x2b) :: digits

def scientific (s : Significant) : Bytes :=
  joinPoint (s.text.take 1) (s.text.drop 1) ++ 0x65 :: exponentText s.exponent

def positional (s : Significant) : Bytes :=
  if s.exponent < 0 then
    joinPoint [0x30] (List.replicate (s.exponent.natAbs - 1) 0x30 ++ s.text)
  else
    let places := s.exponent.toNat + 1
    joinPoint (s.text.take places) (s.text.drop places)

/-- Exponents from `-4` to `5` are written positionally. -/
def general (s : Significant) : Bytes :=
  if s.exponent < -4 || Significant.precision ≤ s.exponent then scientific s else positional s

end Tagged.Decimal

namespace Tagged.Binary64

/-- The text of a number in general notation. -/
def general (x : Binary64) : Bytes :=
  let unsigned :=
    if x.isNaN then ascii "nan"
    else if x.isInfinite then ascii "inf"
    else Decimal.general (.ofRatio x.units unit)
  if x.negative then 0x2d :: unsigned else unsigned

end Tagged.Binary64
