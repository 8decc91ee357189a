import Tagged.Utf8

/-!
# Texts

The payload of a string value: the bytes up to a terminating NUL, or nothing once the
string has been released. A released text reads as the empty one.
-/

namespace Tagged

inductive Text where
  | live (bytes : Bytes)
  | released
deriving DecidableEq, Repr

namespace Text

/-- A live text; it ends at the first NUL byte. -/
def ofBytes (bytes : Bytes) : Text := .live (bytes.takeWhile (· != 0))

def bytes : Text → Bytes
  | .live bytes => bytes
  | .released => []

def isReleased : Text → Bool
  | .live _ => false
  | .released => true

/-- A live copy. -/
def duplicate (t : Text) : Text := ofBytes t.bytes

def lossy (t : Text) : String := Utf8.lossy t.bytes

end Text

end Tagged
