import Mathlib.Data.List.Basic
import Tagged.Utf8

/-!
# Characters and ill-formed pieces

What the decoder cuts a byte string into, said without the decoder. Every piece covers the longest
run of bytes, one at least, that begins some character. If the run is all of the character, this is
the piece, and otherwise the piece is ill-formed. There is one way to cut a byte string like this,
and the decoder finds it, so the strings that it accepts are the encodings of texts.
-/

namespace Tagged.Utf8

open String (utf8EncodeChar)

def BeginsChar (bytes : Bytes) : Prop := ∃ c rest, utf8EncodeChar c = bytes ++ rest

structure Piece.Covers (piece : Piece) (bytes rest : Bytes) : Prop where
  ne_nil : bytes ≠ []
  beginsChar : 2 ≤ bytes.length → BeginsChar bytes
  longest : ∀ b, rest.head? = some b → ¬ BeginsChar (bytes ++ [b])
  eq_char_iff : ∀ c, piece = .char c ↔ utf8EncodeChar c = bytes

inductive Cut : Bytes → List Piece → Prop
  | nil : Cut [] []
  | cons {piece : Piece} {bytes rest : Bytes} {pieces : List Piece}
      (hfirst : piece.Covers bytes rest) (hrest : Cut rest pieces) :
      Cut (bytes ++ rest) (piece :: pieces)

/-! ## Encodings -/

namespace Pending

/-- The bytes that complete an open sequence. -/
def Admits (p : Pending) : Bytes → Prop
  | [] => False
  | b :: rest => (p.low ≤ b ∧ b ≤ p.high) ∧ rest.length = p.due - 1 ∧
      ∀ next ∈ rest, 0x80 ≤ next ∧ next ≤ 0xbf

theorem Admits.exists_cons {p : Pending} {tail : Bytes} (h : p.Admits tail) :
    ∃ b rest, tail = b :: rest := by
  cases tail with
  | nil => cases h
  | cons b rest => exact ⟨b, rest, rfl⟩

theorem admits_cons_iff {p : Pending} {b : UInt8} {rest : Bytes} :
    p.Admits (b :: rest) ↔
      (p.low.toNat ≤ b.toNat ∧ b.toNat ≤ p.high.toNat) ∧ rest.length = p.due - 1 ∧
        ∀ next ∈ rest, 0x80 ≤ next.toNat ∧ next.toNat ≤ 0xbf := by
  simp only [Admits, UInt8.le_iff_toNat_le, UInt8.reduceToNat]

theorem Admits.length_eq {p : Pending} {tail : Bytes} (h : p.Admits tail) :
    tail.length = p.due - 1 + 1 := by
  obtain ⟨b, rest, rfl⟩ := h.exists_cons
  rw [List.length_cons, h.2.1]

def valueWith (p : Pending) (tail : Bytes) : Nat :=
  tail.foldl (fun value b => value * 64 + (b.toNat - 0x80)) p.value

def after (p : Pending) (b : UInt8) : Pending where
  value := p.value * 64 + (b.toNat - 0x80)
  due := p.due - 1
  low := 0x80
  high := 0xbf

@[simp] theorem after_due (p : Pending) (b : UInt8) : (p.after b).due = p.due - 1 := rfl

@[simp] theorem after_low (p : Pending) (b : UInt8) : (p.after b).low = 0x80 := rfl

@[simp] theorem after_high (p : Pending) (b : UInt8) : (p.after b).high = 0xbf := rfl

theorem after_value (p : Pending) (b : UInt8) :
    (p.after b).value = p.value * 64 + (b.toNat - 0x80) := rfl

theorem valueWith_after (p : Pending) (b : UInt8) (tail : Bytes) :
    (p.after b).valueWith tail = p.valueWith (b :: tail) := by
  rw [valueWith, valueWith, List.foldl_cons, after_value]

theorem admits_after_iff {p : Pending} {b : UInt8} {tail : Bytes}
    (hrange : p.low ≤ b ∧ b ≤ p.high) (hdue : ¬ p.due ≤ 1) :
    (p.after b).Admits tail ↔ p.Admits (b :: tail) := by
  cases tail with
  | nil =>
      simp only [Admits, List.length_nil, false_iff, not_and]
      omega
  | cons next rest =>
      have hlength : rest.length = p.due - 1 - 1 ↔ rest.length + 1 = p.due - 1 := by omega
      simp only [Admits, after_due, after_low, after_high, List.length_cons, List.forall_mem_cons,
        hlength, hrange, true_and, and_self, and_left_comm]

end Pending

theorem toNat_valid (c : Char) :
    c.toNat < 0xd800 ∨ (0xdfff < c.toNat ∧ c.toNat < 0x110000) := c.valid

/-- The bytes of a character as numbers, by the size of its code point. -/
theorem toNat_utf8EncodeChar {c : Char} {n : Nat} (hn : c.toNat = n) :
    (n < 0x80 ∧ (utf8EncodeChar c).map UInt8.toNat = [n]) ∨
    (0x80 ≤ n ∧ n < 0x800 ∧
      (utf8EncodeChar c).map UInt8.toNat = [n / 64 + 0xc0, n % 64 + 0x80]) ∨
    (0x800 ≤ n ∧ n < 0x10000 ∧
      (utf8EncodeChar c).map UInt8.toNat = [n / 4096 + 0xe0, n / 64 % 64 + 0x80, n % 64 + 0x80]) ∨
    (0x10000 ≤ n ∧ (utf8EncodeChar c).map UInt8.toNat =
      [n / 262144 + 0xf0, n / 4096 % 64 + 0x80, n / 64 % 64 + 0x80, n % 64 + 0x80]) := by
  have hvalid := toNat_valid c
  rw [utf8EncodeChar]
  simp only [Char.toNat_val, hn] at hvalid ⊢
  split
  · left
    simp only [List.map_cons, List.map_nil, UInt8.toNat_ofNat', List.cons.injEq, and_true]
    omega
  split
  · right; left
    simp only [List.map_cons, List.map_nil, UInt8.toNat_ofNat', List.cons.injEq, and_true]
    omega
  split
  · right; right; left
    simp only [List.map_cons, List.map_nil, UInt8.toNat_ofNat', List.cons.injEq, and_true]
    omega
  · right; right; right
    simp only [List.map_cons, List.map_nil, UInt8.toNat_ofNat', List.cons.injEq, and_true]
    omega

theorem toNat_ite_cases {p : Prop} [Decidable p] (b b' : UInt8) :
    p ∧ (if p then b else b').toNat = b.toNat ∨ ¬ p ∧ (if p then b else b').toNat = b'.toNat := by
  split
  next hp => exact .inl ⟨hp, rfl⟩
  next hp => exact .inr ⟨hp, rfl⟩

/-- What a byte means where a character begins, in numbers. -/
theorem start_cases (b : UInt8) :
    (b.toNat < 0x80 ∧ start b = .inl (.char (Char.ofNat b.toNat))) ∨
    ((0x80 ≤ b.toNat ∧ b.toNat < 0xc2 ∨ 0xf5 ≤ b.toNat) ∧ start b = .inl .illFormed) ∨
    ∃ p, start b = .inr p ∧
      ((0xc2 ≤ b.toNat ∧ b.toNat < 0xe0 ∧ p.value = b.toNat - 0xc0 ∧ p.due = 1 ∧
        p.low.toNat = 0x80 ∧ p.high.toNat = 0xbf) ∨
      (0xe0 ≤ b.toNat ∧ b.toNat < 0xf0 ∧ p.value = b.toNat - 0xe0 ∧ p.due = 2 ∧
        (b.toNat = 0xe0 ∧ p.low.toNat = 0xa0 ∨ b.toNat ≠ 0xe0 ∧ p.low.toNat = 0x80) ∧
        (b.toNat = 0xed ∧ p.high.toNat = 0x9f ∨ b.toNat ≠ 0xed ∧ p.high.toNat = 0xbf)) ∨
      (0xf0 ≤ b.toNat ∧ b.toNat < 0xf5 ∧ p.value = b.toNat - 0xf0 ∧ p.due = 3 ∧
        (b.toNat = 0xf0 ∧ p.low.toNat = 0x90 ∨ b.toNat ≠ 0xf0 ∧ p.low.toNat = 0x80) ∧
        (b.toNat = 0xf4 ∧ p.high.toNat = 0x8f ∨ b.toNat ≠ 0xf4 ∧ p.high.toNat = 0xbf))) := by
  unfold start
  simp only [UInt8.lt_iff_toNat_lt, UInt8.reduceToNat, ← UInt8.toNat_inj]
  split
  · left
    exact ⟨‹_›, rfl⟩
  split
  · right; left
    exact ⟨by omega, rfl⟩
  split
  · right; right
    exact ⟨_, rfl, .inl ⟨by omega, by omega, rfl, rfl, rfl, rfl⟩⟩
  split
  · right; right
    exact ⟨_, rfl, .inr (.inl ⟨by omega, by omega, rfl, rfl, toNat_ite_cases 0xa0 0x80,
      toNat_ite_cases 0x9f 0xbf⟩)⟩
  split
  · right; right
    exact ⟨_, rfl, .inr (.inr ⟨by omega, by omega, rfl, rfl, toNat_ite_cases 0x90 0x80,
      toNat_ite_cases 0x8f 0xbf⟩)⟩
  · right; left
    exact ⟨by omega, rfl⟩

theorem start_of_utf8EncodeChar {c : Char} {b : UInt8} {tail : Bytes}
    (h : utf8EncodeChar c = b :: tail) :
    (start b = .inl (.char c) ∧ tail = []) ∨
      ∃ p, start b = .inr p ∧ p.Admits tail ∧ c.toNat = p.valueWith tail := by
  have hvalid := toNat_valid c
  have hbytes := toNat_utf8EncodeChar (c := c) rfl
  simp only [h, List.map_cons, List.cons.injEq] at hbytes
  rcases start_cases b with ⟨hrange, hstart⟩ | ⟨hrange, hstart⟩ | ⟨p, hstart, hp⟩
  · left
    rcases hbytes with ⟨hn, hb, htail⟩ | hbytes
    · rw [hstart, hb, Char.ofNat_toNat]
      exact ⟨rfl, List.map_eq_nil_iff.1 htail⟩
    · omega
  · omega
  · right
    refine ⟨p, hstart, ?_⟩
    rcases hp with ⟨_, _, hvalue, hdue, hlow, hhigh⟩ | ⟨_, _, hvalue, hdue, hlow, hhigh⟩ |
      ⟨_, _, hvalue, hdue, hlow, hhigh⟩
    · rcases hbytes with hbytes | ⟨_, _, hb, htail⟩ | hbytes | hbytes
      · omega
      · obtain ⟨x, rest, rfl, hx, hrest⟩ := List.map_eq_cons_iff.1 htail
        obtain rfl := List.map_eq_nil_iff.1 hrest
        simp only [Pending.admits_cons_iff, Pending.valueWith, List.foldl_cons, List.foldl_nil,
          List.length_nil, List.not_mem_nil, false_implies, implies_true, and_true]
        omega
      · omega
      · omega
    · rcases hbytes with hbytes | hbytes | ⟨_, _, hb, htail⟩ | hbytes
      · omega
      · omega
      · obtain ⟨x, rest, rfl, hx, hrest⟩ := List.map_eq_cons_iff.1 htail
        obtain ⟨y, rest, rfl, hy, hrest⟩ := List.map_eq_cons_iff.1 hrest
        obtain rfl := List.map_eq_nil_iff.1 hrest
        simp only [Pending.admits_cons_iff, Pending.valueWith, List.foldl_cons, List.foldl_nil,
          List.length_cons, List.length_nil, List.forall_mem_singleton]
        omega
      · omega
    · rcases hbytes with hbytes | hbytes | hbytes | ⟨_, hb, htail⟩
      · omega
      · omega
      · omega
      · obtain ⟨x, rest, rfl, hx, hrest⟩ := List.map_eq_cons_iff.1 htail
        obtain ⟨y, rest, rfl, hy, hrest⟩ := List.map_eq_cons_iff.1 hrest
        obtain ⟨z, rest, rfl, hz, hrest⟩ := List.map_eq_cons_iff.1 hrest
        obtain rfl := List.map_eq_nil_iff.1 hrest
        simp only [Pending.admits_cons_iff, Pending.valueWith, List.foldl_cons, List.foldl_nil,
          List.length_cons, List.length_nil, List.forall_mem_cons, List.not_mem_nil, false_implies,
          implies_true, and_true]
        omega

theorem eq_of_map_toNat_eq {l l' : Bytes} (h : l.map UInt8.toNat = l'.map UInt8.toNat) : l = l' :=
  List.map_injective_iff.2 (fun _ _ => UInt8.toNat_inj.1) h

theorem toNat_ofNat {n : Nat} (h : n < 0xd800 ∨ (0xdfff < n ∧ n < 0x110000)) :
    (Char.ofNat n).toNat = n := by
  rw [Char.ofNat, dif_pos h]
  rfl

theorem utf8EncodeChar_of_ascii {b : UInt8} (h : b.toNat < 0x80) :
    utf8EncodeChar (Char.ofNat b.toNat) = [b] := by
  apply eq_of_map_toNat_eq
  have := toNat_utf8EncodeChar (toNat_ofNat (n := b.toNat) (by omega))
  rcases this with h | h | h | h
  · exact h.2
  · omega
  · omega
  · omega

theorem utf8EncodeChar_of_start {b : UInt8} {p : Pending} (h : start b = .inr p) {tail : Bytes}
    (htail : p.Admits tail) :
    ∃ c : Char, c.toNat = p.valueWith tail ∧ utf8EncodeChar c = b :: tail := by
  rcases start_cases b with ⟨hrange, hstart⟩ | ⟨hrange, hstart⟩ | ⟨p', hstart, hp⟩
  · rw [hstart] at h
    cases h
  · rw [hstart] at h
    cases h
  obtain rfl : p' = p := by
    rw [hstart] at h
    exact Sum.inr.inj h
  obtain ⟨n, hn⟩ : ∃ n, n = p'.valueWith tail := ⟨_, rfl⟩
  suffices hsuffices : (n < 0xd800 ∨ (0xdfff < n ∧ n < 0x110000)) ∧
      ∀ c : Char, c.toNat = n → (utf8EncodeChar c).map UInt8.toNat = (b :: tail).map UInt8.toNat by
    have hnat := toNat_ofNat hsuffices.1
    exact ⟨Char.ofNat n, by rw [hnat, hn], eq_of_map_toNat_eq (hsuffices.2 _ hnat)⟩
  obtain ⟨x, rest, rfl⟩ := htail.exists_cons
  obtain ⟨hx, hlength, hrest⟩ := Pending.admits_cons_iff.1 htail
  rcases hp with ⟨_, _, hvalue, hdue, hlo, hhi⟩ | ⟨_, _, hvalue, hdue, hlo, hhi⟩ |
    ⟨_, _, hvalue, hdue, hlo, hhi⟩
  · obtain rfl := List.eq_nil_of_length_eq_zero (hlength.trans (by omega))
    simp only [Pending.valueWith, List.foldl_cons, List.foldl_nil] at hn
    refine ⟨by omega, fun c hc => ?_⟩
    rcases toNat_utf8EncodeChar hc with hc | ⟨_, _, hc⟩ | hc | hc
    · omega
    · rw [hc]
      simp only [List.map_cons, List.map_nil, List.cons.injEq, and_true]
      omega
    · omega
    · omega
  · obtain ⟨y, rfl⟩ := List.length_eq_one_iff.1 (hlength.trans (by omega))
    simp only [Pending.valueWith, List.foldl_cons, List.foldl_nil] at hn
    simp only [List.forall_mem_singleton] at hrest
    refine ⟨by omega, fun c hc => ?_⟩
    rcases toNat_utf8EncodeChar hc with hc | hc | ⟨_, _, hc⟩ | hc
    · omega
    · omega
    · rw [hc]
      simp only [List.map_cons, List.map_nil, List.cons.injEq, and_true]
      omega
    · omega
  · obtain ⟨y, z, rfl⟩ := List.length_eq_two.1 (hlength.trans (by omega))
    simp only [Pending.valueWith, List.foldl_cons, List.foldl_nil] at hn
    simp only [List.forall_mem_cons] at hrest
    refine ⟨by omega, fun c hc => ?_⟩
    rcases toNat_utf8EncodeChar hc with hc | hc | hc | ⟨_, hc⟩
    · omega
    · omega
    · omega
    · rw [hc]
      simp only [List.map_cons, List.map_nil, List.cons.injEq, and_true]
      omega

/-! ## There is one cut -/

/-- No encoding goes on where another one ends. -/
theorem utf8EncodeChar_append_inj {c c' : Char} {rest rest' : Bytes}
    (h : utf8EncodeChar c ++ rest = utf8EncodeChar c' ++ rest') : c = c' ∧ rest = rest' := by
  obtain ⟨b, tail, hc⟩ := List.exists_cons_of_ne_nil (String.utf8EncodeChar_ne_nil (c := c))
  obtain ⟨b', tail', hc'⟩ := List.exists_cons_of_ne_nil (String.utf8EncodeChar_ne_nil (c := c'))
  rw [hc, hc', List.cons_append, List.cons_append, List.cons.injEq] at h
  obtain ⟨rfl, happend⟩ := h
  rcases start_of_utf8EncodeChar hc with ⟨hstart, rfl⟩ | ⟨p, hstart, hadmits, hvalue⟩ <;>
    rcases start_of_utf8EncodeChar hc' with ⟨hstart', rfl⟩ | ⟨p', hstart', hadmits', hvalue'⟩ <;>
    rw [hstart] at hstart'
  · cases hstart'
    exact ⟨rfl, happend⟩
  · cases hstart'
  · cases hstart'
  · cases hstart'
    have hlength : tail.length = tail'.length := hadmits.length_eq.trans hadmits'.length_eq.symm
    obtain ⟨rfl, rfl⟩ := List.append_inj happend hlength
    exact ⟨Char.toNat_inj.1 (hvalue.trans hvalue'.symm), rfl⟩

theorem BeginsChar.of_append {bytes more : Bytes} (h : BeginsChar (bytes ++ more)) :
    BeginsChar bytes := by
  obtain ⟨c, rest, hc⟩ := h
  exact ⟨c, more ++ rest, by rw [hc, List.append_assoc]⟩

namespace Piece.Covers

variable {piece piece' : Piece} {bytes bytes' rest rest' more : Bytes}

/-- A character covers its encoding, whatever follows. -/
theorem char (c : Char) (rest : Bytes) : (Piece.char c).Covers (utf8EncodeChar c) rest where
  ne_nil := String.utf8EncodeChar_ne_nil
  beginsChar _ := ⟨c, [], by rw [List.append_nil]⟩
  longest b _ := by
    rintro ⟨c', more, hc'⟩
    rw [List.append_assoc, ← List.append_nil (utf8EncodeChar c')] at hc'
    have hnil := (utf8EncodeChar_append_inj hc').2
    cases hnil
  eq_char_iff c' := by
    constructor
    · intro h
      cases h
      rfl
    · intro h
      have happend : utf8EncodeChar c' ++ [] = utf8EncodeChar c ++ [] := by rw [h]
      rw [(utf8EncodeChar_append_inj happend).1]

theorem eq_nil_of_append (h : piece.Covers bytes (more ++ rest))
    (h' : piece'.Covers (bytes ++ more) rest) : more = [] := by
  cases more with
  | nil => rfl
  | cons b more =>
      have hlength : 2 ≤ (bytes ++ b :: more).length := by
        have := List.length_pos_iff.2 h.ne_nil
        simp only [List.length_append, List.length_cons]
        omega
      have hbegins := h'.beginsChar hlength
      rw [← List.singleton_append, ← List.append_assoc] at hbegins
      exact absurd hbegins.of_append (h.longest b rfl)

theorem unique (h : piece.Covers bytes rest) (h' : piece'.Covers bytes' rest')
    (hsame : bytes ++ rest = bytes' ++ rest') : piece = piece' ∧ rest = rest' := by
  have hbytes : bytes = bytes' ∧ rest = rest' := by
    rcases List.append_eq_append_iff.1 hsame with ⟨more, rfl, rfl⟩ | ⟨more, rfl, rfl⟩
    · simp [h.eq_nil_of_append h']
    · simp [h'.eq_nil_of_append h]
  obtain ⟨rfl, rfl⟩ := hbytes
  refine ⟨?_, rfl⟩
  cases piece with
  | char c => exact ((h'.eq_char_iff c).2 ((h.eq_char_iff c).1 rfl)).symm
  | illFormed =>
      cases piece' with
      | char c => exact (h.eq_char_iff c).2 ((h'.eq_char_iff c).1 rfl)
      | illFormed => rfl

end Piece.Covers

theorem Cut.unique {bytes : Bytes} {ps ps' : List Piece} (h : Cut bytes ps) (h' : Cut bytes ps') :
    ps = ps' := by
  induction h generalizing ps' with
  | nil =>
      generalize hnil : ([] : Bytes) = bytes at h'
      cases h' with
      | nil => rfl
      | cons hfirst _ => exact absurd (List.append_eq_nil_iff.1 hnil.symm).1 hfirst.ne_nil
  | @cons piece bytes rest pieces hfirst _ ih =>
      generalize hwhole : bytes ++ rest = whole at h'
      cases h' with
      | nil => exact absurd (List.append_eq_nil_iff.1 hwhole).1 hfirst.ne_nil
      | cons hfirst' hrest' =>
          obtain ⟨rfl, rfl⟩ := hfirst.unique hfirst' hwhole
          rw [ih hrest']

/-! ## The decoder finds it -/

/-- The sequence is open behind the bytes `opened`: what it admits completes them, and nothing else
does. -/
structure Pending.Opened (p : Pending) (opened : Bytes) : Prop where
  ne_nil : opened ≠ []
  low_le_high : p.low ≤ p.high
  completed : ∀ tail, p.Admits tail →
    ∃ c : Char, c.toNat = p.valueWith tail ∧ utf8EncodeChar c = opened ++ tail
  admits : ∀ c tail, utf8EncodeChar c = opened ++ tail → p.Admits tail

theorem opened_of_start {b : UInt8} {p : Pending} (h : start b = .inr p) : p.Opened [b] where
  ne_nil := List.cons_ne_nil b []
  low_le_high := by
    rcases start_cases b with ⟨_, hstart⟩ | ⟨_, hstart⟩ | ⟨p', hstart, hp⟩ <;>
      rw [hstart] at h <;> cases h
    rw [UInt8.le_iff_toNat_le]
    omega
  completed _ htail := utf8EncodeChar_of_start h htail
  admits c tail hc := by
    rcases start_of_utf8EncodeChar hc with ⟨hstart, _⟩ | ⟨p', hstart, hadmits, _⟩ <;>
      rw [h] at hstart <;> cases hstart
    exact hadmits

namespace Pending.Opened

variable {p : Pending} {opened rest : Bytes} {b : UInt8}

theorem beginsChar (h : p.Opened opened) : BeginsChar opened := by
  have hadmits : p.Admits (p.low :: List.replicate (p.due - 1) 0x80) := by
    refine ⟨⟨UInt8.le_refl _, h.low_le_high⟩, List.length_replicate, fun next hnext => ?_⟩
    rw [List.eq_of_mem_replicate hnext]
    decide
  obtain ⟨c, -, hc⟩ := h.completed _ hadmits
  exact ⟨c, _, hc⟩

/-- A byte in the range that is not the last one leaves the sequence open. -/
theorem after (h : p.Opened opened) (hrange : p.low ≤ b ∧ b ≤ p.high) (hdue : ¬ p.due ≤ 1) :
    (p.after b).Opened (opened ++ [b]) where
  ne_nil := by simp
  low_le_high := by
    rw [after_low, after_high]
    decide
  completed tail htail := by
    obtain ⟨c, hvalue, hc⟩ := h.completed _ ((admits_after_iff hrange hdue).1 htail)
    rw [valueWith_after, List.append_assoc, List.singleton_append]
    exact ⟨c, hvalue, hc⟩
  admits c tail hc := by
    rw [List.append_assoc, List.singleton_append] at hc
    exact (admits_after_iff hrange hdue).2 (h.admits c _ hc)

/-- The last byte completes the character. -/
theorem covers_char (h : p.Opened opened) (hrange : p.low ≤ b ∧ b ≤ p.high) (hdue : p.due ≤ 1)
    (rest : Bytes) : (Piece.char (Char.ofNat (p.after b).value)).Covers (opened ++ [b]) rest := by
  have hadmits : p.Admits [b] := ⟨hrange, by rw [List.length_nil]; omega, by simp⟩
  obtain ⟨c, hvalue, hc⟩ := h.completed _ hadmits
  rw [← valueWith_after, valueWith, List.foldl_nil] at hvalue
  rw [← hvalue, Char.ofNat_toNat, ← hc]
  exact .char c rest

/-- A byte out of the range, or the end, breaks the sequence off. -/
theorem covers_illFormed (h : p.Opened opened)
    (hstop : ∀ b, rest.head? = some b → ¬ (p.low ≤ b ∧ b ≤ p.high)) :
    Piece.illFormed.Covers opened rest where
  ne_nil := h.ne_nil
  beginsChar _ := h.beginsChar
  longest b hb := by
    rintro ⟨c, more, hc⟩
    rw [List.append_assoc, List.singleton_append] at hc
    exact hstop b hb (h.admits c _ hc).1
  eq_char_iff c := by
    constructor
    · intro hchar
      cases hchar
    · intro hc
      cases h.admits c [] (by rw [hc, List.append_nil])

end Pending.Opened

theorem covers_of_start {b : UInt8} {piece : Piece} (h : start b = .inl piece) (rest : Bytes) :
    piece.Covers [b] rest := by
  rcases start_cases b with ⟨hascii, hstart⟩ | ⟨_, hstart⟩ | ⟨p, hstart, _⟩ <;>
    rw [hstart] at h <;> cases h
  · rw [← utf8EncodeChar_of_ascii hascii]
    exact .char _ rest
  · have hnone : ∀ c tail, utf8EncodeChar c ≠ b :: tail := by
      intro c tail hc
      rcases start_of_utf8EncodeChar hc with ⟨hstart', _⟩ | ⟨p, hstart', _⟩ <;>
        rw [hstart] at hstart' <;> cases hstart'
    refine ⟨List.cons_ne_nil b [], ?_, ?_, fun c => ⟨?_, fun hc => absurd hc (hnone c [])⟩⟩
    · intro hlength
      simp at hlength
    · rintro next - ⟨c, more, hc⟩
      exact hnone c _ hc
    · intro hchar
      cases hchar

namespace Decoder

variable {found : List Piece} {p : Pending} {b : UInt8}

theorem step_last (hrange : p.low ≤ b ∧ b ≤ p.high) (hdue : p.due ≤ 1) :
    step ⟨found, some p⟩ b = ⟨.char (Char.ofNat (p.after b).value) :: found, none⟩ := by
  simp [step, hrange, hdue, Pending.after_value]

theorem step_next (hrange : p.low ≤ b ∧ b ≤ p.high) (hdue : ¬ p.due ≤ 1) :
    step ⟨found, some p⟩ b = ⟨found, some (p.after b)⟩ := by
  have hstep : step ⟨found, some p⟩ b =
      ⟨found, some ⟨p.value * 64 + (b.toNat - 0x80), p.due - 1, 0x80, 0xbf⟩⟩ := by
    simp [step, hrange, hdue]
  exact hstep

/-- Where the sequence breaks off, the byte is read as if none had been open. -/
theorem step_stop (hrange : ¬ (p.low ≤ b ∧ b ≤ p.high)) :
    step ⟨found, some p⟩ b = step ⟨.illFormed :: found, none⟩ b := by
  simp [step, hrange]

end Decoder

/-- From any state, the decoder appends the pieces of what is open and of what follows. -/
theorem exists_cut_foldl (bytes : Bytes) :
    (∀ found, ∃ ps, (bytes.foldl Decoder.step ⟨found, none⟩).finish = found.reverse ++ ps ∧
      Cut bytes ps) ∧
    ∀ found p opened, p.Opened opened →
      ∃ ps, (bytes.foldl Decoder.step ⟨found, some p⟩).finish = found.reverse ++ ps ∧
        Cut (opened ++ bytes) ps := by
  induction bytes with
  | nil =>
      refine ⟨fun found => ⟨[], (List.append_nil _).symm, .nil⟩, fun found p opened h => ?_⟩
      exact ⟨[.illFormed], List.reverse_cons, .cons (h.covers_illFormed (by simp)) .nil⟩
  | cons b rest ih =>
      have hnone : ∀ found, ∃ ps,
          ((b :: rest).foldl Decoder.step ⟨found, none⟩).finish = found.reverse ++ ps ∧
            Cut (b :: rest) ps := by
        intro found
        rw [List.foldl_cons, Decoder.step, Decoder.begin]
        cases hstart : start b with
        | inl piece =>
            obtain ⟨ps, hfinish, hcut⟩ := ih.1 (piece :: found)
            refine ⟨piece :: ps, ?_, .cons (covers_of_start hstart rest) hcut⟩
            simpa using hfinish
        | inr p => exact ih.2 found p [b] (opened_of_start hstart)
      refine ⟨hnone, fun found p opened h => ?_⟩
      by_cases hrange : p.low ≤ b ∧ b ≤ p.high
      · by_cases hdue : p.due ≤ 1
        · obtain ⟨ps, hfinish, hcut⟩ := ih.1 (.char (Char.ofNat (p.after b).value) :: found)
          have hcons := Cut.cons (h.covers_char hrange hdue rest) hcut
          rw [List.append_assoc, List.singleton_append] at hcons
          refine ⟨_, ?_, hcons⟩
          rw [List.foldl_cons, Decoder.step_last hrange hdue, hfinish]
          simp
        · obtain ⟨ps, hfinish, hcut⟩ := ih.2 found _ _ (h.after hrange hdue)
          rw [List.append_assoc, List.singleton_append] at hcut
          refine ⟨ps, ?_, hcut⟩
          rw [List.foldl_cons, Decoder.step_next hrange hdue, hfinish]
      · obtain ⟨ps, hfinish, hcut⟩ := hnone (.illFormed :: found)
        have hcovers : Piece.illFormed.Covers opened (b :: rest) := by
          apply h.covers_illFormed
          intro next hnext
          cases hnext
          exact hrange
        refine ⟨.illFormed :: ps, ?_, .cons hcovers hcut⟩
        rw [List.foldl_cons, Decoder.step_stop hrange, ← List.foldl_cons, hfinish]
        simp

theorem cut_pieces (bytes : Bytes) : Cut bytes (pieces bytes) := by
  obtain ⟨ps, hfinish, hcut⟩ := (exists_cut_foldl bytes).1 []
  have hpieces : pieces bytes = ps := hfinish
  rw [hpieces]
  exact hcut

theorem pieces_eq_iff {bytes : Bytes} {ps : List Piece} : pieces bytes = ps ↔ Cut bytes ps := by
  constructor
  · rintro rfl
    exact cut_pieces bytes
  · exact (cut_pieces bytes).unique

/-! ## Well-formed strings -/

theorem encode_eq_flatMap (s : String) : encode s = s.toList.flatMap utf8EncodeChar := by
  rw [encode, String.toUTF8, ← String.utf8Encode_toList, List.utf8Encode, List.data_toByteArray]

theorem cut_map_char {bytes : Bytes} {chars : List Char} :
    Cut bytes (chars.map .char) ↔ chars.flatMap utf8EncodeChar = bytes := by
  constructor
  · intro h
    induction chars generalizing bytes with
    | nil =>
        cases h
        rfl
    | cons c chars ih =>
        cases h with
        | cons hfirst hrest =>
            rw [List.flatMap_cons, (hfirst.eq_char_iff c).1 rfl, ih hrest]
  · rintro rfl
    induction chars with
    | nil => exact .nil
    | cons c chars ih => exact .cons (.char c _) ih

theorem isValid_iff {bytes : Bytes} :
    isValid bytes = true ↔ pieces bytes = (lossyChars bytes).map .char := by
  rw [isValid, lossyChars, List.map_map]
  induction pieces bytes with
  | nil => simp
  | cons piece ps ih => cases piece <;> simp_all [Piece.shown]

/-- Strict decoding is the inverse of encoding. -/
theorem decode?_eq_some_iff {bytes : Bytes} {s : String} :
    decode? bytes = some s ↔ encode s = bytes := by
  rw [encode_eq_flatMap, ← cut_map_char, ← pieces_eq_iff, decode?]
  constructor
  · intro h
    split at h
    next hvalid =>
      cases h
      rw [lossy, String.toList_ofList]
      exact isValid_iff.1 hvalid
    next => cases h
  · intro h
    have hchars : lossyChars bytes = s.toList := by
      rw [lossyChars, h, List.map_map]
      exact List.map_id _
    rw [if_pos (isValid_iff.2 (by rw [hchars, h])), lossy, hchars, String.ofList_toList]

end Tagged.Utf8
