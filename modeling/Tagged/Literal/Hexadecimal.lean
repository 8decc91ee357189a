import Tagged.Literal.Decimal

/-!
# Hexadecimal literals

What follows `0x`: hexadecimal digits with at most one point among them, and an optional
binary exponent. The digits fill a significand of at most 63 bits. Once it has 60 bits
the digits that follow only count places.
-/

namespace Tagged.Literal

/-- The digits read so far stand for about `significand * 2 ^ exponent`. -/
structure HexDigits where
  significand : Nat := 0
  exponent : Int := 0
  afterPoint : Bool := false
  anyDigit : Bool := false
deriving DecidableEq, Repr

namespace HexDigits

/-- Digits are appended while the significand is below this, `2 ^ 59`. -/
def limit : Nat := 0x800000000000000

def append (h : HexDigits) (digit : Nat) : HexDigits :=
  if h.significand < limit then
    { h with
      significand := h.significand * 16 + digit
      exponent := if h.afterPoint then h.exponent - 4 else h.exponent
      anyDigit := true }
  else
    { h with
      exponent := if h.afterPoint then h.exponent else h.exponent + 4
      anyDigit := true }

/-- Reads digits and the first point, and returns the text behind them. -/
def scan (h : HexDigits) : Bytes → HexDigits × Bytes
  | [] => (h, [])
  | b :: text =>
    if b == 0x2e && !h.afterPoint then scan { h with afterPoint := true } text
    else
      match Byte.hexDigit? b with
      | some digit => scan (h.append digit) text
      | none => (h, b :: text)

end HexDigits

/-- The size of a binary exponent, kept within 64 bits. -/
def binaryExponentSize (digits : Bytes) : Int := digits.foldl appendBinary 0
where
  appendBinary (size : Int) (b : UInt8) : Int :=
    clampInt64 (clampInt64 (size * 10) + Byte.digit b)

/-- Beyond this exponent, up or down, every product is settled. -/
def exponentBound : Int := 5000

def boundExponent (e : Int) : Int := max (-exponentBound) (min e exponentBound)

/-- Multiplies by `2 ^ 1000` while more than that is left to do. -/
def scaleUp (x : Binary64) (e : Int) : Binary64 × Int :=
  if 1000 < e && x.isFinite && !x.isZero then scaleUp (x.mul (.powerOfTwo 1000)) (e - 1000)
  else (x, e)
termination_by e.toNat
decreasing_by simp_all; omega

/-- Multiplies by `2 ^ -1000` while more than that is left to do. -/
def scaleDown (x : Binary64) (e : Int) : Binary64 × Int :=
  if e < -1000 && !x.isZero then scaleDown (x.mul (.powerOfTwo (-1000))) (e + 1000)
  else (x, e)
termination_by e.natAbs
decreasing_by simp_all; omega

/-- The low 32 bits, with the highest of them as the sign. -/
def wrapInt32 (e : Int) : Int := (Int32.ofInt e).toInt

/-- Multiplies by `2 ^ e` in steps whose factors do not overflow. A zero takes no steps, so
beyond `2 ^ 1023` it is multiplied by infinity. The exponent that is left for the last factor
has 32 bits. -/
def scale (x : Binary64) (e : Int) : Binary64 :=
  let (x, e) := scaleUp x e
  let (x, e) := scaleDown x e
  x.mul (.powerOfTwo (wrapInt32 e))

/-- A hexadecimal literal after its `0x`, and the text behind it; `none` if no digit
follows the `0x`. -/
def hexadecimal? (text : Bytes) : Option (Binary64 × Bytes) :=
  let (h, rest) := HexDigits.scan {} text
  if !h.anyDigit then none
  else
    let significand := Binary64.ofInt h.significand
    match exponent? 0x70 rest with
    | none => some (scale significand (boundExponent h.exponent), rest)
    | some e =>
      let size := binaryExponentSize e.digits
      let total := clampInt64 (h.exponent + if e.negative then -size else size)
      some (scale significand (boundExponent total), e.rest)

end Tagged.Literal
