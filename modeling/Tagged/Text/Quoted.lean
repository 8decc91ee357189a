import Tagged.Text.Basic
import Tagged.Text.Coded

/-!
# Quoted texts

A text between double quotes, on one line and printable throughout.
-/

namespace Tagged.Text

/-- A code point in lower-case hexadecimal, as `\u` and the digits in braces. -/
def codeEscape (c : Char) : List Char :=
  '\\' :: 'u' :: '\x7b' :: (Nat.toDigits 16 c.toNat ++ ['\x7d'])

def escape (c : Char) : List Char :=
  match c with
  | '\x00' => ['\\', '0']
  | '\t' => ['\\', 't']
  | '\r' => ['\\', 'r']
  | '\n' => ['\\', 'n']
  | '\\' => ['\\', '\\']
  | '"' => ['\\', '"']
  | c => if isCoded c then codeEscape c else [c]

/-- The characters between quotes, each escaped where it needs to be. -/
def quote (chars : List Char) : String :=
  String.ofList ('"' :: (chars.flatMap escape ++ ['"']))

/-- A live text in quotes after lossy decoding; a released one has no characters to show. -/
def quoted : Text → String
  | .live bytes => quote (Utf8.lossyChars bytes)
  | .released => "<released>"

end Tagged.Text
