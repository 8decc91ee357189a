import Mathlib.Data.List.TakeWhile
import Tagged.Console.Reader

/-!
# The lines of an input

`Bytes.lines` cuts a text behind its line feeds. A reader that holds a text, in whatever
pieces it hands it out, gives the first of its lines without the terminator and within the
limit, and then holds the other lines.
-/

namespace Tagged

namespace Bytes

/-- The lines of a text, each with its line feed; the last one may lack it. -/
def lines : Bytes → List Bytes
  | [] => []
  | b :: rest =>
    if b == 0x0a then [b] :: lines rest
    else
      match lines rest with
      | [] => [[b]]
      | line :: more => (b :: line) :: more

def withoutReturn (text : Bytes) : Bytes :=
  if text.getLast? = some 0x0d then text.dropLast else text

def withoutTerminator (line : Bytes) : Bytes :=
  if line.getLast? = some 0x0a then withoutReturn line.dropLast else line

theorem flatten_lines (text : Bytes) : text.lines.flatten = text := by
  induction text with
  | nil => rfl
  | cons b rest ih =>
      rw [lines]
      split
      · simp [ih]
      · split
        next hnil =>
          rw [hnil] at ih
          simp [← ih]
        next line more hcons =>
          rw [hcons] at ih
          simp [← ih]

theorem lines_of_not_mem {text : Bytes} (hne : text ≠ []) (hlf : 0x0a ∉ text) :
    text.lines = [text] := by
  induction text with
  | nil => exact absurd rfl hne
  | cons b rest ih =>
      have hb : b ≠ 0x0a := fun h => hlf (by simp [h])
      cases rest with
      | nil => simp [lines, hb]
      | cons c rest =>
          have hrest : 0x0a ∉ c :: rest := fun h => hlf (List.mem_cons_of_mem b h)
          rw [lines, ih (by simp) hrest]
          simp [hb]

theorem lines_append_feed {body : Bytes} (hlf : 0x0a ∉ body) (after : Bytes) :
    (body ++ 0x0a :: after).lines = (body ++ [0x0a]) :: after.lines := by
  induction body with
  | nil => simp [lines]
  | cons b body ih =>
      have hb : b ≠ 0x0a := fun h => hlf (by simp [h])
      have hbody : 0x0a ∉ body := fun h => hlf (List.mem_cons_of_mem b h)
      rw [List.cons_append, lines, ih hbody]
      simp [hb]

theorem lines_flatten_tail (text : Bytes) :
    lines text.lines.tail.flatten = text.lines.tail := by
  by_cases hlf : 0x0a ∈ text
  · obtain ⟨body, after, rfl, hbody⟩ := List.eq_append_cons_of_mem hlf
    rw [lines_append_feed hbody, List.tail_cons, flatten_lines]
  · by_cases hne : text = []
    · rw [hne]
      rfl
    · rw [lines_of_not_mem hne hlf]
      rfl

theorem ne_feed_of_not_mem (text : Bytes) (hlf : 0x0a ∉ text) :
    ∀ b ∈ text, (b != 0x0a) = true := by
  intro b hb
  simpa using fun heq : b = 0x0a => hlf (heq ▸ hb)

/-- Where two texts are joined, a line feed stands in the second or in the first of them. -/
theorem append_eq_append_feed {left right body after : Bytes}
    (h : left ++ right = body ++ 0x0a :: after) :
    (∃ more, body = left ++ more ∧ right = more ++ 0x0a :: after) ∨
      ∃ more, left = body ++ 0x0a :: more ∧ after = more ++ right := by
  rcases List.append_eq_append_iff.1 h with ⟨more, hbody, hright⟩ | ⟨more, hleft, hmore⟩
  · exact .inl ⟨more, hbody, hright⟩
  · cases more with
    | nil => exact .inl ⟨[], by simpa using hleft.symm, by simpa using hmore.symm⟩
    | cons b more =>
        obtain ⟨rfl, hafter⟩ := List.cons.inj hmore
        exact .inr ⟨more, hleft, hafter⟩

theorem withoutTerminator_append_feed (body : Bytes) :
    withoutTerminator (body ++ [0x0a]) = withoutReturn body := by
  simp [withoutTerminator]

theorem withoutTerminator_of_not_mem {text : Bytes} (hlf : 0x0a ∉ text) :
    withoutTerminator text = text := by
  have hlast : text.getLast? ≠ some 0x0a := fun h => hlf (List.mem_of_getLast? h)
  rw [withoutTerminator, if_neg hlast]

end Bytes

/-! ## Readers that hold a text -/

/-- The deliveries hand out the text: in chunks, with any interruptions, and with any number
of empty chunks once it has come to its end. -/
inductive Delivers {ε : Type} : List (Delivery ε) → Bytes → Prop
  | nil : Delivers [] []
  | ended {rest : List (Delivery ε)} (hrest : Delivers rest []) :
      Delivers (.chunk [] :: rest) []
  | interrupted {rest : List (Delivery ε)} {text : Bytes} (hrest : Delivers rest text) :
      Delivers (.interrupted :: rest) text
  | chunk {bytes : Bytes} {rest : List (Delivery ε)} {text : Bytes} (hne : bytes ≠ [])
      (hrest : Delivers rest text) : Delivers (.chunk bytes :: rest) (bytes ++ text)

structure Reader.Holds {ε : Type} (r : Reader ε) (text : Bytes) : Prop where
  ending : r.ending = none
  delivers : Delivers r.pending text

theorem Reader.holds_ofBytes {ε : Type} (text : Bytes) :
    (Reader.ofBytes text : Reader ε).Holds text := by
  refine ⟨rfl, ?_⟩
  cases text with
  | nil => exact .ended .nil
  | cons b rest =>
      have h : Delivers [(.chunk (b :: rest) : Delivery ε)] ((b :: rest) ++ []) :=
        .chunk (by simp) .nil
      rwa [List.append_nil] at h

namespace LineProgress

theorem take_nil (p : LineProgress) (limit : Nat) : p.take limit [] = p := by
  simp [take]

theorem take_append (p : LineProgress) (limit : Nat) (a b : Bytes) :
    p.take limit (a ++ b) = (p.take limit a).take limit b := by
  simp only [take, List.length_append, List.length_take, mk.injEq, and_true]
  constructor
  · rw [List.take_append, List.append_assoc]
    congr 3
    omega
  · omega

end LineProgress

namespace Reader

variable {ε : Type}

theorem gather_of_not_mem {pending : List (Delivery ε)} {text : Bytes}
    (h : Delivers pending text) (hlf : 0x0a ∉ text) (limit : Nat) (p : LineProgress) :
    ∃ rest, Delivers rest [] ∧
      gather limit none p pending = (.ok (p.take limit text), rest) := by
  induction h generalizing p with
  | nil => exact ⟨[], .nil, by rw [gather, LineProgress.take_nil]⟩
  | @ended rest hrest _ =>
      exact ⟨rest, hrest, by simp [gather, LineProgress.take_nil]⟩
  | interrupted _ ih =>
      obtain ⟨rest, hrest, heq⟩ := ih hlf p
      exact ⟨rest, hrest, by rw [gather, heq]⟩
  | @chunk bytes pending text hne _ ih =>
      have hbytes := Bytes.ne_feed_of_not_mem bytes
        (fun hmem => hlf (List.mem_append_left text hmem))
      have htext : 0x0a ∉ text := fun hmem => hlf (List.mem_append_right bytes hmem)
      obtain ⟨rest, hrest, heq⟩ := ih htext (p.take limit bytes)
      refine ⟨rest, hrest, ?_⟩
      rw [LineProgress.take_append, ← heq, gather]
      simp [hne, List.takeWhile_eq_self_iff.2 hbytes, List.dropWhile_eq_nil_iff.2 hbytes]

theorem gather_of_feed {pending : List (Delivery ε)} {text : Bytes}
    (h : Delivers pending text) {body after : Bytes} (htext : text = body ++ 0x0a :: after)
    (hlf : 0x0a ∉ body) (limit : Nat) (p : LineProgress) :
    ∃ rest, Delivers rest after ∧
      gather limit none p pending =
        (.ok { p.take limit body with terminated := true }, rest) := by
  induction h generalizing p body with
  | nil => simp at htext
  | ended => simp at htext
  | interrupted _ ih =>
      obtain ⟨rest, hrest, heq⟩ := ih htext hlf p
      exact ⟨rest, hrest, by rw [gather, heq]⟩
  | @chunk bytes pending text hne hpending ih =>
      rcases Bytes.append_eq_append_feed htext with ⟨more, hbody, hmore⟩ | ⟨more, hbytes, hafter⟩
      · -- the line goes on in a later chunk
        subst hbody
        have hbytes := Bytes.ne_feed_of_not_mem bytes
          (fun hmem => hlf (List.mem_append_left more hmem))
        obtain ⟨rest, hrest, heq⟩ := ih hmore
          (fun hmem => hlf (List.mem_append_right bytes hmem)) (p.take limit bytes)
        refine ⟨rest, hrest, ?_⟩
        rw [LineProgress.take_append, ← heq, gather]
        simp [hne, List.takeWhile_eq_self_iff.2 hbytes, List.dropWhile_eq_nil_iff.2 hbytes]
      · -- the line ends in this chunk, and what is behind it is put back
        have hbody := Bytes.ne_feed_of_not_mem body hlf
        refine ⟨if more.isEmpty then pending else .chunk more :: pending, ?_, ?_⟩
        · cases more with
          | nil => simpa [hafter] using hpending
          | cons b more =>
              rw [hafter]
              exact .chunk (by simp) hpending
        · rw [gather]
          simp [hbytes, List.takeWhile_append_of_pos hbody, List.dropWhile_append_of_pos hbody]

end Reader

namespace LineProgress

def excess (limit : Nat) (body : Bytes) : Option Truncation :=
  if limit < body.length then some ⟨body.length, limit⟩ else none

theorem take_empty (limit : Nat) (body : Bytes) :
    ({} : LineProgress).take limit body = ⟨body.take limit, body.length, false⟩ := by
  simp [take]

theorem take_withoutReturn_of_lt {limit : Nat} {body : Bytes} (h : limit < body.length) :
    body.withoutReturn.take limit = body.take limit := by
  unfold Bytes.withoutReturn
  split
  · rw [List.dropLast_eq_take, List.take_take, Nat.min_eq_left (by omega)]
  · rfl

/-- Within the limit a line loses the carriage return before its line feed. Beyond the limit
it is lost already. -/
theorem finish_terminated (limit : Nat) (body : Bytes) :
    (⟨body.take limit, body.length, true⟩ : LineProgress).finish =
      some ⟨body.withoutReturn.take limit, excess limit body⟩ := by
  unfold finish excess
  by_cases hlong : limit < body.length
  · have hkept : (body.take limit).length = limit := List.length_take_of_le (by omega)
    simp [hlong, hkept, take_withoutReturn_of_lt hlong]
  · have hwhole : body.take limit = body := List.take_of_length_le (by omega)
    have hreturn : body.withoutReturn.take limit = body.withoutReturn := by
      apply List.take_of_length_le
      unfold Bytes.withoutReturn
      split
      · rw [List.length_dropLast]
        omega
      · omega
    rw [hwhole, hreturn, Bytes.withoutReturn]
    by_cases hlast : body.getLast? = some 0x0d <;> simp [hlong, hlast]

theorem finish_open (limit : Nat) {body : Bytes} (hne : body ≠ []) :
    (⟨body.take limit, body.length, false⟩ : LineProgress).finish =
      some ⟨body.take limit, excess limit body⟩ := by
  have hpos := List.length_pos_iff.2 hne
  unfold finish excess
  by_cases hlong : limit < body.length
  · have hkept : (body.take limit).length = limit := List.length_take_of_le (by omega)
    simp [hne, hlong, hkept]
  · have hwhole : body.take limit = body := List.take_of_length_le (by omega)
    simp [hne, hlong, hwhole]

end LineProgress

namespace Reader

variable {ε : Type}

theorem line_of_feed {r : Reader ε} {body after : Bytes}
    (h : r.Holds (body ++ 0x0a :: after)) (hlf : 0x0a ∉ body) (limit : Nat) :
    ∃ t, t.Holds after ∧
      r.line limit =
        (.ok (some ⟨body.withoutReturn.take limit, LineProgress.excess limit body⟩), t) := by
  obtain ⟨rest, hrest, hgather⟩ := gather_of_feed h.delivers rfl hlf limit {}
  refine ⟨{ r with pending := rest }, ⟨h.ending, hrest⟩, ?_⟩
  rw [line, h.ending, hgather, LineProgress.take_empty, ← LineProgress.finish_terminated]
  rfl

theorem line_of_not_mem {r : Reader ε} {text : Bytes} (h : r.Holds text)
    (hne : text ≠ []) (hlf : 0x0a ∉ text) (limit : Nat) :
    ∃ t, t.Holds [] ∧
      r.line limit =
        (.ok (some ⟨text.take limit, LineProgress.excess limit text⟩), t) := by
  obtain ⟨rest, hrest, hgather⟩ := gather_of_not_mem h.delivers hlf limit {}
  refine ⟨{ r with pending := rest }, ⟨h.ending, hrest⟩, ?_⟩
  rw [line, h.ending, hgather, LineProgress.take_empty, ← LineProgress.finish_open limit hne]
  rfl

theorem line_of_nil {r : Reader ε} (h : r.Holds []) (limit : Nat) :
    ∃ t, t.Holds [] ∧ r.line limit = (.ok none, t) := by
  obtain ⟨rest, hrest, hgather⟩ := gather_of_not_mem h.delivers (by simp) limit {}
  refine ⟨{ r with pending := rest }, ⟨h.ending, hrest⟩, ?_⟩
  rw [line, h.ending, hgather]
  rfl

/-- Taking a line off a reader gives the first line of the text that it holds, without its
terminator and within the limit, and leaves the other lines. -/
theorem line_of_holds {r : Reader ε} {text : Bytes} (h : r.Holds text) (limit : Nat) :
    ∃ result t, t.Holds text.lines.tail.flatten ∧ r.line limit = (.ok result, t) ∧
      result.map Line.text =
        text.lines.head?.map (fun line => (Bytes.withoutTerminator line).take limit) := by
  by_cases hlf : 0x0a ∈ text
  · obtain ⟨body, after, rfl, hbody⟩ := List.eq_append_cons_of_mem hlf
    obtain ⟨t, ht, hline⟩ := line_of_feed h hbody limit
    rw [Bytes.lines_append_feed hbody, List.tail_cons, Bytes.flatten_lines]
    exact ⟨_, t, ht, hline, by simp [Bytes.withoutTerminator_append_feed]⟩
  · by_cases hne : text = []
    · subst hne
      obtain ⟨t, ht, hline⟩ := line_of_nil h limit
      exact ⟨_, t, ht, hline, rfl⟩
    · obtain ⟨t, ht, hline⟩ := line_of_not_mem h hne hlf limit
      rw [Bytes.lines_of_not_mem hne hlf]
      exact ⟨_, t, ht, hline, by simp [Bytes.withoutTerminator_of_not_mem hlf]⟩

end Reader

end Tagged
