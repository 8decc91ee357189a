import Tagged.Byte

/-!
# UTF-8

One decoder, fed byte by byte, serves both readings of a byte string. It cuts the
bytes into characters and ill-formed pieces, where an ill-formed piece is a longest
run that begins a well-formed sequence and cannot be continued. Strict decoding
accepts when no piece is ill-formed; lossy decoding writes `U+FFFD` for each of them.
-/

namespace Tagged.Utf8

inductive Piece where
  | char (c : Char)
  | illFormed
deriving DecidableEq, Repr

/-- An unfinished sequence: the value so far, how many continuation bytes are still
due, and the range that the next one must lie in. -/
structure Pending where
  value : Nat
  due : Nat
  low : UInt8
  high : UInt8
deriving DecidableEq, Repr

/-- What a byte means where a new character begins. The ranges of the second byte
shut out overlong forms, surrogates and values above `U+10FFFF`. -/
def start (b : UInt8) : Piece ⊕ Pending :=
  if b < 0x80 then .inl (.char (Char.ofNat b.toNat))
  else if b < 0xc2 then .inl .illFormed
  else if b < 0xe0 then .inr ⟨b.toNat - 0xc0, 1, 0x80, 0xbf⟩
  else if b < 0xf0 then
    .inr ⟨b.toNat - 0xe0, 2, if b = 0xe0 then 0xa0 else 0x80, if b = 0xed then 0x9f else 0xbf⟩
  else if b < 0xf5 then
    .inr ⟨b.toNat - 0xf0, 3, if b = 0xf0 then 0x90 else 0x80, if b = 0xf4 then 0x8f else 0xbf⟩
  else .inl .illFormed

/-- The decoder between two bytes: the pieces found so far, newest first, and the
sequence that is still open. -/
structure Decoder where
  pieces : List Piece := []
  pending : Option Pending := none
deriving DecidableEq, Repr

namespace Decoder

/-- Begins a new character at `b`. -/
def begin (pieces : List Piece) (b : UInt8) : Decoder :=
  match start b with
  | .inl piece => ⟨piece :: pieces, none⟩
  | .inr pending => ⟨pieces, some pending⟩

/-- A byte that does not continue the open sequence ends it as ill-formed and is
itself read as the beginning of a character. -/
def step (d : Decoder) (b : UInt8) : Decoder :=
  match d.pending with
  | none => begin d.pieces b
  | some p =>
    if p.low ≤ b && b ≤ p.high then
      let value := p.value * 64 + (b.toNat - 0x80)
      if p.due ≤ 1 then ⟨.char (Char.ofNat value) :: d.pieces, none⟩
      else ⟨d.pieces, some ⟨value, p.due - 1, 0x80, 0xbf⟩⟩
    else begin (.illFormed :: d.pieces) b

/-- The pieces in order; a sequence that is open at the end is ill-formed. -/
def finish (d : Decoder) : List Piece :=
  match d.pending with
  | none => d.pieces.reverse
  | some _ => (.illFormed :: d.pieces).reverse

end Decoder

def pieces (bytes : Bytes) : List Piece := (bytes.foldl Decoder.step {}).finish

/-- The character that stands for a piece in lossy decoding. -/
def Piece.shown : Piece → Char
  | .char c => c
  | .illFormed => '�'

def lossyChars (bytes : Bytes) : List Char := (pieces bytes).map Piece.shown

/-- The text of `bytes` with `U+FFFD` for every ill-formed piece. -/
def lossy (bytes : Bytes) : String := String.ofList (lossyChars bytes)

def isValid (bytes : Bytes) : Bool := (pieces bytes).all (· != .illFormed)

/-- The text of `bytes`, if they are well-formed throughout. -/
def decode? (bytes : Bytes) : Option String :=
  if isValid bytes then some (lossy bytes) else none

/-- The bytes of a text. -/
def encode (s : String) : Bytes := s.toUTF8.data.toList

end Tagged.Utf8
