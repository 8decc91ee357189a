import Tagged.Proofs.Session.NulFree
import Tagged.Proofs.Utf8

/-!
# Case mapping of texts

Case mapping goes byte by byte and does not know about characters. It changes ASCII letters to
ASCII letters, and those occur in no longer sequence, neither in a complete one nor in one that
breaks off. So it is the same whether the bytes are mapped and then decoded, or decoded and then
mapped.
-/

namespace Tagged

structure LetterMap where
  byte : UInt8 → UInt8
  char : Char → Char
  byte_of_ge : ∀ b, 0x80 ≤ b → byte b = b
  byte_lt : ∀ b, b < 0x80 → byte b < 0x80
  byte_comp_byte : byte ∘ byte = byte
  char_of_ge : ∀ c : Char, 0x80 ≤ c.toNat → char c = c
  char_ofNat : ∀ b, b < 0x80 → char (Char.ofNat b.toNat) = Char.ofNat (byte b).toNat

namespace Byte

theorem toUpper_comp_toUpper : toUpper ∘ toUpper = toUpper :=
  funext (by decide +kernel : ∀ b, toUpper (toUpper b) = toUpper b)

theorem toLower_comp_toLower : toLower ∘ toLower = toLower :=
  funext (by decide +kernel : ∀ b, toLower (toLower b) = toLower b)

theorem toLower_comp_toUpper : toLower ∘ toUpper = toLower :=
  funext (by decide +kernel : ∀ b, toLower (toUpper b) = toLower b)

theorem toUpper_comp_toLower : toUpper ∘ toLower = toUpper :=
  funext (by decide +kernel : ∀ b, toUpper (toLower b) = toUpper b)

end Byte

namespace LetterMap

def upper : LetterMap where
  byte := Byte.toUpper
  char := Char.toUpper
  byte_of_ge := by decide +kernel
  byte_lt := by decide +kernel
  byte_comp_byte := Byte.toUpper_comp_toUpper
  char_of_ge c hc := by
    apply dif_neg
    rintro ⟨_, hz⟩
    have hle : c.toNat ≤ 122 := UInt32.le_iff_toNat_le.1 hz
    omega
  char_ofNat := by decide +kernel

def lower : LetterMap where
  byte := Byte.toLower
  char := Char.toLower
  byte_of_ge := by decide +kernel
  byte_lt := by decide +kernel
  byte_comp_byte := Byte.toLower_comp_toLower
  char_of_ge c hc := by
    apply dif_neg
    rintro ⟨_, hz⟩
    have hle : c.toNat ≤ 90 := UInt32.le_iff_toNat_le.1 hz
    omega
  char_ofNat := by decide +kernel

end LetterMap

namespace Utf8

open String (utf8EncodeChar)

def Piece.map (f : Char → Char) : Piece → Piece
  | .char c => .char (f c)
  | .illFormed => .illFormed

/-! ## Encodings -/

theorem exists_byte_of_ascii {c : Char} (h : c.toNat < 0x80) :
    ∃ b : UInt8, b < 0x80 ∧ c = Char.ofNat b.toNat := by
  have hnat : (UInt8.ofNat c.toNat).toNat = c.toNat := by
    rw [UInt8.toNat_ofNat']
    omega
  refine ⟨UInt8.ofNat c.toNat, ?_, by rw [hnat, Char.ofNat_toNat]⟩
  rw [UInt8.lt_iff_toNat_lt, hnat]
  exact h

theorem utf8EncodeChar_ofNat {b : UInt8} (h : b < 0x80) :
    utf8EncodeChar (Char.ofNat b.toNat) = [b] :=
  utf8EncodeChar_of_ascii (UInt8.lt_iff_toNat_lt.1 h)

theorem ge_of_mem_utf8EncodeChar {c : Char} (hc : 0x80 ≤ c.toNat) {b : UInt8}
    (hb : b ∈ utf8EncodeChar c) : 0x80 ≤ b := by
  have hmem := List.mem_map_of_mem (f := UInt8.toNat) hb
  rw [UInt8.le_iff_toNat_le]
  change 128 ≤ b.toNat
  rcases toNat_utf8EncodeChar (c := c) rfl with ⟨hlow, _⟩ | ⟨_, _, hbytes⟩ | ⟨_, _, hbytes⟩ |
    ⟨_, hbytes⟩
  · omega
  all_goals
    rw [hbytes] at hmem
    simp only [List.mem_cons, List.not_mem_nil, or_false] at hmem
    omega

theorem map_byte_of_ge (m : LetterMap) {bytes : Bytes} (h : ∀ b ∈ bytes, 0x80 ≤ b) :
    bytes.map m.byte = bytes := by
  have hsame : bytes.map m.byte = bytes.map id :=
    List.map_congr_left fun b hb => m.byte_of_ge b (h b hb)
  rw [hsame, List.map_id]

theorem map_byte_utf8EncodeChar (m : LetterMap) (c : Char) :
    (utf8EncodeChar c).map m.byte = utf8EncodeChar (m.char c) := by
  by_cases hc : c.toNat < 0x80
  · obtain ⟨b, hb, rfl⟩ := exists_byte_of_ascii hc
    rw [utf8EncodeChar_ofNat hb, m.char_ofNat b hb, utf8EncodeChar_ofNat (m.byte_lt b hb)]
    rfl
  · have hge : 0x80 ≤ c.toNat := by omega
    rw [m.char_of_ge c hge, map_byte_of_ge m fun b => ge_of_mem_utf8EncodeChar hge]

/-- Only an encoding is mapped to an encoding. -/
theorem exists_of_map_byte_eq (m : LetterMap) {bytes : Bytes} {c : Char}
    (h : utf8EncodeChar c = bytes.map m.byte) : ∃ c', utf8EncodeChar c' = bytes := by
  by_cases hc : c.toNat < 0x80
  · obtain ⟨b, hb, rfl⟩ := exists_byte_of_ascii hc
    rw [utf8EncodeChar_ofNat hb] at h
    obtain ⟨b', rfl, hb'⟩ := List.map_eq_singleton_iff.1 h.symm
    refine ⟨Char.ofNat b'.toNat, utf8EncodeChar_ofNat ?_⟩
    by_contra hge
    rw [m.byte_of_ge b' (UInt8.not_lt.1 hge)] at hb'
    exact hge (hb' ▸ hb)
  · refine ⟨c, h.trans (map_byte_of_ge m fun b hb => ?_)⟩
    by_contra hlt
    have hmapped : m.byte b ∈ utf8EncodeChar c := h ▸ List.mem_map_of_mem hb
    have hge := ge_of_mem_utf8EncodeChar (by omega) hmapped
    exact absurd (m.byte_lt b (UInt8.not_le.1 hlt)) (UInt8.not_lt.2 hge)

theorem beginsChar_map_iff (m : LetterMap) {bytes : Bytes} :
    BeginsChar (bytes.map m.byte) ↔ BeginsChar bytes := by
  constructor
  · rintro ⟨c, rest, hc⟩
    -- mapped once more, the rest of the encoding is in the image as well
    have hmapped : utf8EncodeChar (m.char c) = (bytes ++ rest.map m.byte).map m.byte := by
      simp [← map_byte_utf8EncodeChar, hc, m.byte_comp_byte]
    obtain ⟨c', hc'⟩ := exists_of_map_byte_eq m hmapped
    exact ⟨c', _, hc'⟩
  · rintro ⟨c, rest, hc⟩
    exact ⟨m.char c, rest.map m.byte, by rw [← map_byte_utf8EncodeChar, hc, List.map_append]⟩

/-! ## Pieces -/

theorem Piece.Covers.map {piece : Piece} {bytes rest : Bytes} (h : piece.Covers bytes rest)
    (m : LetterMap) :
    (piece.map m.char).Covers (bytes.map m.byte) (rest.map m.byte) where
  ne_nil := by simpa using h.ne_nil
  beginsChar hlength := by
    rw [List.length_map] at hlength
    exact (beginsChar_map_iff m).2 (h.beginsChar hlength)
  longest b hb hbegins := by
    obtain ⟨b', hb', rfl⟩ : ∃ b', rest.head? = some b' ∧ m.byte b' = b := by simpa using hb
    rw [← List.map_singleton, ← List.map_append, beginsChar_map_iff] at hbegins
    exact h.longest b' hb' hbegins
  eq_char_iff c := by
    cases piece with
    | char c' =>
        rw [← (h.eq_char_iff c').1 rfl, map_byte_utf8EncodeChar]
        exact (Covers.char (m.char c') []).eq_char_iff c
    | illFormed =>
        constructor
        · intro hchar
          cases hchar
        · intro hc
          obtain ⟨c', hc'⟩ := exists_of_map_byte_eq m hc
          cases (h.eq_char_iff c').2 hc'

theorem Cut.map {bytes : Bytes} {ps : List Piece} (h : Cut bytes ps) (m : LetterMap) :
    Cut (bytes.map m.byte) (ps.map (Piece.map m.char)) := by
  induction h with
  | nil => exact .nil
  | cons hfirst _ ih =>
      rw [List.map_append, List.map_cons]
      exact .cons (hfirst.map m) ih

theorem pieces_map (m : LetterMap) (bytes : Bytes) :
    pieces (bytes.map m.byte) = (pieces bytes).map (Piece.map m.char) :=
  pieces_eq_iff.2 ((cut_pieces bytes).map m)

/-! ## Texts -/

theorem shown_map (m : LetterMap) (piece : Piece) :
    (piece.map m.char).shown = m.char piece.shown := by
  cases piece with
  | char c => rfl
  | illFormed => exact (m.char_of_ge '\ufffd' (by decide)).symm

theorem lossyChars_map (m : LetterMap) (bytes : Bytes) :
    lossyChars (bytes.map m.byte) = (lossyChars bytes).map m.char := by
  rw [lossyChars, lossyChars, pieces_map, List.map_map, List.map_map]
  exact List.map_congr_left fun piece _ => shown_map m piece

theorem lossy_map (m : LetterMap) (bytes : Bytes) :
    lossy (bytes.map m.byte) = (lossy bytes).map m.char := by
  apply String.toList_injective
  rw [String.toList_map, lossy, lossy, String.toList_ofList, String.toList_ofList, lossyChars_map]

theorem isValid_map (m : LetterMap) (bytes : Bytes) :
    isValid (bytes.map m.byte) = isValid bytes := by
  rw [isValid, isValid, pieces_map, List.all_map]
  congr 1
  ext piece
  cases piece <;> rfl

theorem decode?_map (m : LetterMap) (bytes : Bytes) :
    decode? (bytes.map m.byte) = (decode? bytes).map (String.map m.char) := by
  rw [decode?, decode?, isValid_map, lossy_map, Option.map_if]

/-- A character beyond ASCII comes from itself only. -/
theorem char_eq_iff_of_ge (m : LetterMap) {c c' : Char} (hc : 0x80 ≤ c.toNat) :
    m.char c' = c ↔ c' = c := by
  constructor
  · intro h
    by_cases hc' : c'.toNat < 0x80
    · obtain ⟨b, hb, rfl⟩ := exists_byte_of_ascii hc'
      have hlt := UInt8.lt_iff_toNat_lt.1 (m.byte_lt b hb)
      change _ < 128 at hlt
      rw [m.char_ofNat b hb] at h
      rw [← h, toNat_ofNat (.inl (by omega))] at hc
      omega
    · rw [← h, m.char_of_ge c' (by omega)]
  · rintro rfl
    exact m.char_of_ge c' hc

/-- `after` reads as `before` with `f` applied to its characters: whether it is decoded lossily or
strictly, with the same ill-formed pieces in the same places, and the same characters beyond
ASCII. -/
structure Recased (f : Char → Char) (before after : Bytes) : Prop where
  lossy : lossy after = (lossy before).map f
  pieces : pieces after = (pieces before).map (Piece.map f)
  isValid : isValid after = isValid before
  decode? : decode? after = (decode? before).map (String.map f)
  encode : ∀ s, before = encode s → after = encode (s.map f)
  beyond_ascii : ∀ (i : Nat) (c : Char), 0x80 ≤ c.toNat →
    ((lossyChars after)[i]? = some c ↔ (lossyChars before)[i]? = some c)

theorem recased_map (m : LetterMap) (bytes : Bytes) :
    Recased m.char bytes (bytes.map m.byte) where
  lossy := lossy_map m bytes
  pieces := pieces_map m bytes
  isValid := isValid_map m bytes
  decode? := decode?_map m bytes
  encode s hs := by
    have hdecode : Utf8.decode? bytes = some s := decode?_eq_some_iff.2 hs.symm
    have hmapped := decode?_map m bytes
    rw [hdecode] at hmapped
    exact (decode?_eq_some_iff.1 hmapped).symm
  beyond_ascii i c hc := by
    rw [lossyChars_map, List.getElem?_map, Option.map_eq_some_iff]
    simp only [char_eq_iff_of_ge m hc, exists_eq_right]

end Utf8

namespace Value

theorem upper_string {text : Text} (h : 0 ∉ text.bytes) :
    (Value.string text).upper = .ok (.string (.live (text.bytes.map Byte.toUpper))) := by
  rw [upper_of_asBytes? rfl,
    ofBytes_of_notMem (nul_notMem_map h fun b hb => (Byte.mapCase_ne_zero b hb).1)]

theorem lower_string {text : Text} (h : 0 ∉ text.bytes) :
    (Value.string text).lower = .ok (.string (.live (text.bytes.map Byte.toLower))) := by
  rw [lower_of_asBytes? rfl,
    ofBytes_of_notMem (nul_notMem_map h fun b hb => (Byte.mapCase_ne_zero b hb).2)]

/-- Upper and lower case respect the encoding of a text, be it well-formed or not: what they give
reads as the text with its characters mapped. Each of the two takes back the other, and neither
changes its own results. -/
theorem case_mapping_respects_encoding {text : Text} (h : 0 ∉ text.bytes) :
    ∃ up low : Text,
      (Value.string text).upper = .ok (.string up) ∧
      (Value.string text).lower = .ok (.string low) ∧
      up.lossy = text.lossy.toUpper ∧ Utf8.Recased Char.toUpper text.bytes up.bytes ∧
      low.lossy = text.lossy.toLower ∧ Utf8.Recased Char.toLower text.bytes low.bytes ∧
      (Value.string up).upper = .ok (.string up) ∧ (Value.string up).lower = .ok (.string low) ∧
      (Value.string low).lower = .ok (.string low) ∧
      (Value.string low).upper = .ok (.string up) := by
  have hup : 0 ∉ (Text.live (text.bytes.map Byte.toUpper)).bytes :=
    nul_notMem_map h fun b hb => (Byte.mapCase_ne_zero b hb).1
  have hlow : 0 ∉ (Text.live (text.bytes.map Byte.toLower)).bytes :=
    nul_notMem_map h fun b hb => (Byte.mapCase_ne_zero b hb).2
  refine ⟨_, _, upper_string h, lower_string h, Utf8.lossy_map .upper _,
    Utf8.recased_map .upper _, Utf8.lossy_map .lower _, Utf8.recased_map .lower _, ?_, ?_, ?_, ?_⟩
  · rw [upper_string hup, Text.bytes, List.map_map, Byte.toUpper_comp_toUpper]
  · rw [lower_string hup, Text.bytes, List.map_map, Byte.toLower_comp_toUpper]
  · rw [lower_string hlow, Text.bytes, List.map_map, Byte.toLower_comp_toLower]
  · rw [upper_string hlow, Text.bytes, List.map_map, Byte.toUpper_comp_toLower]

/-- A sequence that a letter cuts off, a complete one, and a byte that begins none. -/
theorem case_mapping_of_broken_text :
    let text : Text := .live [0xe2, 0x82, 0x61, 0xc3, 0xa9, 0x5a, 0xff]
    0 ∉ text.bytes ∧ text.lossy = "\ufffdaéZ\ufffd" ∧
      ∃ up low : Text,
        (Value.string text).upper = .ok (.string up) ∧
        (Value.string text).lower = .ok (.string low) ∧
        up.lossy = "\ufffdAéZ\ufffd" ∧ low.lossy = "\ufffdaéz\ufffd" := by
  intro text
  have hnul : 0 ∉ text.bytes := by decide
  have hlossy : text.lossy = "\ufffdaéZ\ufffd" := by decide +kernel
  obtain ⟨up, low, hup, hlow, hupLossy, -, hlowLossy, -⟩ := case_mapping_respects_encoding hnul
  refine ⟨hnul, hlossy, up, low, hup, hlow, ?_, ?_⟩
  · rw [hupLossy, hlossy]
    decide +kernel
  · rw [hlowLossy, hlossy]
    decide +kernel

end Value

end Tagged
