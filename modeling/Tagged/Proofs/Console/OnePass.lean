import Tagged.Proofs.Console.Lines

/-!
# A line in one pass

A reader meets its input in chunks: it cuts the line to the limit as it goes, and looks for a
carriage return at the end only if nothing was cut off. The line that it gives is still a function
of the whole text that is left to read, which drops the line ending first and cuts afterwards, so
neither the sizes of the chunks nor interruptions between them can be seen in it.
-/

namespace Tagged

namespace Bytes

def firstLine (text : Bytes) : Bytes := text.takeWhile (· != 0x0a)

def afterFeed (text : Bytes) : Bytes := (text.dropWhile (· != 0x0a)).drop 1

/-- The first line without its ending. Only before a line feed is a carriage return part of
that. -/
def lineContent (text : Bytes) : Bytes :=
  if 0x0a ∈ text then text.firstLine.withoutReturn else text.firstLine

def boundedLine (limit : Nat) (text : Bytes) : Option Line :=
  if text = [] then none
  else some ⟨text.lineContent.take limit, LineProgress.excess limit text.firstLine⟩

/-- A line that is cut to the limit first, and then loses a carriage return if it was not cut. -/
def cutThenStripped (limit : Nat) (body : Bytes) : Bytes :=
  if limit < body.length then body.take limit else withoutReturn (body.take limit)

theorem cutThenStripped_eq (limit : Nat) (body : Bytes) :
    cutThenStripped limit body = body.withoutReturn.take limit := by
  unfold cutThenStripped
  split
  next hlong => exact (LineProgress.take_withoutReturn_of_lt hlong).symm
  next hshort =>
    have hlength : body.withoutReturn.length ≤ body.length := by
      unfold withoutReturn
      split
      · rw [List.length_dropLast]
        omega
      · exact le_rfl
    rw [List.take_of_length_le (by omega), List.take_of_length_le (by omega)]

section Split

variable {body : Bytes} (hlf : 0x0a ∉ body)

include hlf

theorem firstLine_append_feed (after : Bytes) : firstLine (body ++ 0x0a :: after) = body := by
  rw [firstLine, List.takeWhile_append_of_pos (ne_feed_of_not_mem body hlf)]
  simp

theorem afterFeed_append_feed (after : Bytes) : afterFeed (body ++ 0x0a :: after) = after := by
  rw [afterFeed, List.dropWhile_append_of_pos (ne_feed_of_not_mem body hlf)]
  simp

theorem firstLine_of_not_mem : firstLine body = body :=
  List.takeWhile_eq_self_iff.2 (ne_feed_of_not_mem body hlf)

theorem afterFeed_of_not_mem : afterFeed body = [] := by
  rw [afterFeed, List.dropWhile_eq_nil_iff.2 (ne_feed_of_not_mem body hlf), List.drop_nil]

theorem boundedLine_append_feed (limit : Nat) (after : Bytes) :
    boundedLine limit (body ++ 0x0a :: after) =
      some ⟨body.withoutReturn.take limit, LineProgress.excess limit body⟩ := by
  simp [boundedLine, lineContent, firstLine_append_feed hlf]

theorem boundedLine_of_not_mem (limit : Nat) (hne : body ≠ []) :
    boundedLine limit body = some ⟨body.take limit, LineProgress.excess limit body⟩ := by
  rw [boundedLine, if_neg hne, lineContent, if_neg hlf, firstLine_of_not_mem hlf]

end Split

end Bytes

/-! ## Chunks and interruptions -/

namespace Delivery

variable {ε : Type}

def bytes : Delivery ε → Bytes
  | chunk bytes => bytes
  | interrupted => []
  | failure _ => []

inductive Steady : Delivery ε → Prop
  | chunk {bytes : Bytes} (hne : bytes ≠ []) : Steady (.chunk bytes)
  | interrupted : Steady .interrupted

end Delivery

theorem Delivers.flatMap_bytes {ε : Type} {pending : List (Delivery ε)} {text : Bytes}
    (h : Delivers pending text) : pending.flatMap Delivery.bytes = text := by
  induction h with
  | nil => rfl
  | ended _ ih => simpa [Delivery.bytes] using ih
  | interrupted _ ih => simpa [Delivery.bytes] using ih
  | chunk _ _ ih => simp [Delivery.bytes, ih]

namespace Reader

variable {ε : Type}

def unread (r : Reader ε) : Bytes := r.pending.flatMap Delivery.bytes

/-- Reads bring chunks in any number and of any size, with interruptions anywhere between them,
and then the end of the input. -/
structure Steady (r : Reader ε) : Prop where
  ending : r.ending = none
  pending : ∀ delivery ∈ r.pending, delivery.Steady

theorem delivers_of_steady {pending : List (Delivery ε)}
    (h : ∀ delivery ∈ pending, delivery.Steady) :
    Delivers pending (pending.flatMap Delivery.bytes) := by
  induction pending with
  | nil => exact .nil
  | cons delivery pending ih =>
      have hrest := ih (fun other hother => h other (List.mem_cons_of_mem delivery hother))
      rw [List.flatMap_cons]
      cases h delivery List.mem_cons_self with
      | chunk hne => exact .chunk hne hrest
      | interrupted => exact .interrupted hrest

theorem Steady.holds {r : Reader ε} (h : r.Steady) : r.Holds r.unread :=
  ⟨h.ending, delivers_of_steady h.pending⟩

theorem Holds.unread_eq {r : Reader ε} {text : Bytes} (h : r.Holds text) : r.unread = text :=
  h.delivers.flatMap_bytes

/-- What is put back of a chunk is not empty. -/
theorem gather_steady (limit : Nat) (ending : Option ε) (p : LineProgress)
    {pending : List (Delivery ε)} (h : ∀ delivery ∈ pending, delivery.Steady) :
    ∀ delivery ∈ (gather limit ending p pending).2, delivery.Steady := by
  induction pending generalizing p with
  | nil =>
      cases ending <;> simp [gather]
  | cons first rest ih =>
      have hrest : ∀ delivery ∈ rest, delivery.Steady :=
        fun delivery hdelivery => h delivery (List.mem_cons_of_mem first hdelivery)
      cases h first List.mem_cons_self with
      | interrupted => exact ih p hrest
      | @chunk bytes hne =>
          rw [gather, if_neg (by simpa using hne)]
          cases hdrop : bytes.dropWhile (· != 0x0a) with
          | nil => exact ih _ hrest
          | cons feed after =>
              cases after with
              | nil => exact hrest
              | cons b after =>
                  intro delivery hdelivery
                  rcases List.mem_cons.1 hdelivery with rfl | hdelivery
                  · exact .chunk (by simp)
                  · exact hrest delivery hdelivery

theorem Steady.line {r : Reader ε} (h : r.Steady) (limit : Nat) : (r.line limit).2.Steady :=
  ⟨h.ending, gather_steady limit r.ending {} h.pending⟩

theorem line_of_text {r : Reader ε} {text : Bytes} (h : r.Holds text) (limit : Nat) :
    ∃ t, t.Holds text.afterFeed ∧ r.line limit = (.ok (text.boundedLine limit), t) := by
  by_cases hlf : 0x0a ∈ text
  · obtain ⟨body, after, rfl, hbody⟩ := List.eq_append_cons_of_mem hlf
    rw [Bytes.afterFeed_append_feed hbody, Bytes.boundedLine_append_feed hbody]
    exact line_of_feed h hbody limit
  · rw [Bytes.afterFeed_of_not_mem hlf]
    by_cases hne : text = []
    · subst hne
      exact line_of_nil h limit
    · rw [Bytes.boundedLine_of_not_mem hlf limit hne]
      exact line_of_not_mem h hne hlf limit

/-- However the unread bytes are spread over chunks and interruptions, the reader gives their first
line as one pass over them finds it, and leaves what is behind the line feed. Before a line feed it
is the same to drop the carriage return and then cut, or to cut first and drop it only from a line
that was not cut. -/
theorem line_eq_boundedLine (r : Reader ε) (h : r.Steady) (limit : Nat) :
    (r.line limit).1 = .ok (r.unread.boundedLine limit) ∧
      (r.line limit).2.unread = r.unread.afterFeed ∧ (r.line limit).2.Steady ∧
      (0x0a ∈ r.unread →
        r.unread.lineContent.take limit = r.unread.firstLine.cutThenStripped limit) := by
  obtain ⟨t, ht, hline⟩ := line_of_text h.holds limit
  refine ⟨by rw [hline], by rw [hline, ht.unread_eq], h.line limit, ?_⟩
  intro hlf
  rw [Bytes.cutThenStripped_eq, Bytes.lineContent, if_pos hlf]

/-- The carriage return is the first byte beyond the limit, and an interruption separates it from
its line feed. -/
theorem line_cut_before_return :
    let r : Reader Unit :=
      { pending := [.chunk (ascii "ab\r"), .interrupted, .chunk (ascii "\ncd")] }
    r.Steady ∧ (r.line 2).1 = .ok (some ⟨ascii "ab", some ⟨3, 2⟩⟩) ∧
      (r.line 2).2.unread = ascii "cd" ∧ (r.line 2).2.Steady ∧
      (0x0a ∈ r.unread →
        r.unread.lineContent.take 2 = r.unread.firstLine.cutThenStripped 2) := by
  intro r
  have hsteady : r.Steady := by
    refine ⟨rfl, ?_⟩
    intro delivery hdelivery
    simp only [r, List.mem_cons, List.not_mem_nil, or_false] at hdelivery
    obtain rfl | rfl | rfl := hdelivery
    · exact .chunk (by decide)
    · exact .interrupted
    · exact .chunk (by decide)
  exact ⟨hsteady, line_eq_boundedLine r hsteady 2⟩

end Reader

end Tagged
