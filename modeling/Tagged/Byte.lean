/-!
# Bytes

Text is a list of bytes. The classes of this module are the ASCII ones; a byte
above `0x7f` is in none of them, so a multi-byte character passes through every
function here untouched.
-/

namespace Tagged

abbrev Bytes := List UInt8

/-- The bytes of an ASCII string. -/
def ascii (s : String) : Bytes := s.toList.map Char.toUInt8

namespace Byte

/-- Space, tab, line feed, vertical tab, form feed and carriage return. -/
def isSpace (b : UInt8) : Bool := b == 0x20 || (0x09 ≤ b && b ≤ 0x0d)

def isDigit (b : UInt8) : Bool := 0x30 ≤ b && b ≤ 0x39

/-- The value of a decimal digit. -/
def digit (b : UInt8) : Nat := b.toNat - 0x30

/-- The decimal digit of value `d`, for `d < 10`. -/
def ofDigit (d : Nat) : UInt8 := (0x30 + d).toUInt8

def isUpper (b : UInt8) : Bool := 0x41 ≤ b && b ≤ 0x5a

def isLower (b : UInt8) : Bool := 0x61 ≤ b && b ≤ 0x7a

def toUpper (b : UInt8) : UInt8 := if isLower b then b - 0x20 else b

def toLower (b : UInt8) : UInt8 := if isUpper b then b + 0x20 else b

/-- The value of a hexadecimal digit of either case. -/
def hexDigit? (b : UInt8) : Option Nat :=
  if isDigit b then some (digit b)
  else if 0x61 ≤ toLower b && toLower b ≤ 0x66 then some ((toLower b).toNat - 0x57)
  else none

end Byte

namespace Bytes

/-- The lower-case `word` begins `text`, letter case aside. -/
def startsWithWord (word text : Bytes) : Bool :=
  (text.take word.length).map Byte.toLower == word

/-- The value of a run of decimal digits. -/
def digitsValue (digits : Bytes) : Nat :=
  digits.foldl (fun acc b => acc * 10 + Byte.digit b) 0

def skipSpace (text : Bytes) : Bytes := text.dropWhile Byte.isSpace

/-- One optional sign, and whether it is a minus. -/
def splitSign : Bytes → Bool × Bytes
  | 0x2d :: rest => (true, rest)
  | 0x2b :: rest => (false, rest)
  | text => (false, text)

end Bytes

/-- The decimal digits of a natural number, without leading zeros. -/
def decimal (n : Nat) : Bytes :=
  if n < 10 then [Byte.ofDigit n] else decimal (n / 10) ++ [Byte.ofDigit (n % 10)]
termination_by n
decreasing_by omega

/-- The decimal text of an integer, with a minus sign in front of a negative one. -/
def decimalInt (i : Int) : Bytes :=
  if i < 0 then 0x2d :: decimal i.natAbs else decimal i.natAbs

end Tagged
