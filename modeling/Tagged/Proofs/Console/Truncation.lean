import Mathlib.Data.List.Basic
import Tagged.Proofs.Console.OnePass
import Tagged.Proofs.Session.Events

/-!
# When a truncation is reported

A line is reported as truncated if it exceeds the limit before its line feed. A carriage return
there counts, though it belongs to the line ending and not to the content. So a line that loses
some of its content is always reported, and so is one more kind of line that loses nothing: its
content just fills the limit, and a carriage return and a line feed are behind it.
-/

namespace Tagged

namespace Bytes

/-- The content of the first line just fills the limit, and ends in a carriage return and a line
feed. -/
def FillsToReturn (limit : Nat) (text : Bytes) : Prop :=
  ∃ content after, text = content ++ 0x0d :: 0x0a :: after ∧ 0x0a ∉ content ∧
    content.length = limit

theorem withoutReturn_cases (body : Bytes) :
    body.withoutReturn = body ∨ body = body.withoutReturn ++ [0x0d] := by
  unfold withoutReturn
  split
  next hlast => exact .inr (List.dropLast_append_getLast? _ hlast).symm
  next => exact .inl rfl

/-- A line is its content, or a carriage return stands between its content and its line feed. -/
theorem firstLine_cases (text : Bytes) :
    text.firstLine = text.lineContent ∨
      0x0a ∈ text ∧ text.firstLine = text.lineContent ++ [0x0d] := by
  unfold lineContent
  split
  next hlf =>
    exact text.firstLine.withoutReturn_cases.imp Eq.symm fun hreturn => ⟨hlf, hreturn⟩
  next => exact .inl rfl

theorem firstLine_append_afterFeed {text : Bytes} (hlf : 0x0a ∈ text) :
    text = text.firstLine ++ 0x0a :: text.afterFeed := by
  obtain ⟨body, after, rfl, hbody⟩ := List.eq_append_cons_of_mem hlf
  rw [firstLine_append_feed hbody, afterFeed_append_feed hbody]

theorem not_mem_firstLine (text : Bytes) : 0x0a ∉ text.firstLine := by
  intro hmem
  have hne := List.mem_takeWhile_imp hmem
  simp at hne

theorem firstLine_append_of_not_mem {left : Bytes} (hlf : 0x0a ∉ left) (right : Bytes) :
    firstLine (left ++ right) = left ++ right.firstLine :=
  List.takeWhile_append_of_pos (ne_feed_of_not_mem left hlf)

theorem firstLine_append_return {content : Bytes} (hlf : 0x0a ∉ content) (after : Bytes) :
    firstLine (content ++ 0x0d :: 0x0a :: after) = content ++ [0x0d] := by
  rw [firstLine_append_of_not_mem hlf]
  rfl

theorem lineContent_append_return {content : Bytes} (hlf : 0x0a ∉ content) (after : Bytes) :
    lineContent (content ++ 0x0d :: 0x0a :: after) = content := by
  rw [lineContent, if_pos (by simp), firstLine_append_return hlf, withoutReturn, if_pos (by simp),
    List.dropLast_concat]

/-- The limit lies between the lengths of a line with its carriage return and without it. -/
theorem fillsToReturn_iff (limit : Nat) (text : Bytes) :
    text.FillsToReturn limit ↔
      text.lineContent.length ≤ limit ∧ limit < text.firstLine.length := by
  constructor
  · rintro ⟨content, after, rfl, hlf, rfl⟩
    rw [lineContent_append_return hlf, firstLine_append_return hlf]
    simp
  · rintro ⟨hle, hlt⟩
    rcases text.firstLine_cases with hsame | ⟨hlf, hreturn⟩
    · rw [hsame] at hlt
      omega
    · refine ⟨text.lineContent, text.afterFeed, ?_, ?_, ?_⟩
      · have hsplit := firstLine_append_afterFeed hlf
        rwa [hreturn, List.append_assoc, List.singleton_append] at hsplit
      · intro hmem
        apply text.not_mem_firstLine
        rw [hreturn]
        exact List.mem_append_left _ hmem
      · rw [hreturn, List.length_append, List.length_singleton] at hlt
        omega

end Bytes

/-! ## The text ahead of a reader -/

namespace Reader

variable {ε : Type}

/-- What the deliveries bring before the first one that fails or finds the end of the input. -/
def upToEnd : List (Delivery ε) → Bytes
  | [] => []
  | .interrupted :: rest => upToEnd rest
  | .failure _ :: _ => []
  | .chunk bytes :: rest => if bytes = [] then [] else bytes ++ upToEnd rest

def ahead (r : Reader ε) : Bytes := upToEnd r.pending

/-- Reading that does not fail has taken in the text ahead up to its first line feed. -/
theorem gather_ok {limit : Nat} {ending : Option ε} {p q : LineProgress}
    {pending rest : List (Delivery ε)} (h : gather limit ending p pending = (.ok q, rest)) :
    q = { p.take limit (upToEnd pending).firstLine with
      terminated := p.terminated || decide (0x0a ∈ upToEnd pending) } := by
  induction pending generalizing p with
  | nil =>
      cases ending with
      | none =>
          cases h
          simp [upToEnd, Bytes.firstLine, LineProgress.take_nil]
      | some error => cases h
  | cons delivery pending ih =>
      cases delivery with
      | interrupted => exact ih h
      | failure error => cases h
      | chunk bytes =>
          rw [upToEnd]
          rw [gather] at h
          by_cases hnil : bytes = []
          · subst hnil
            cases h
            simp [Bytes.firstLine, LineProgress.take_nil]
          · rw [if_neg (by simpa using hnil)] at h
            rw [if_neg hnil]
            by_cases hlf : 0x0a ∈ bytes
            · -- the line ends in this chunk
              obtain ⟨body, after, rfl, hbody⟩ := List.eq_append_cons_of_mem hlf
              have hne := Bytes.ne_feed_of_not_mem body hbody
              rw [List.takeWhile_append_of_pos hne, List.dropWhile_append_of_pos hne] at h
              have hq : { p.take limit body with terminated := true } = q := by
                simpa using congrArg Prod.fst h
              rw [← hq, List.append_assoc, List.cons_append, Bytes.firstLine_append_feed hbody]
              simp
            · -- the whole chunk belongs to the line, which goes on in the next one
              have hne := Bytes.ne_feed_of_not_mem bytes hlf
              rw [List.takeWhile_eq_self_iff.2 hne, List.dropWhile_eq_nil_iff.2 hne] at h
              rw [ih h, Bytes.firstLine_append_of_not_mem hlf, LineProgress.take_append]
              simp [hlf, LineProgress.take]

/-- A line that is read is the first one of the text ahead, whatever comes behind that. -/
theorem line_ok {r : Reader ε} {limit : Nat} {result : Option Line}
    (h : (r.line limit).1 = .ok result) : result = r.ahead.boundedLine limit := by
  rcases hgather : gather limit r.ending {} r.pending with ⟨gathered, rest⟩
  rw [line, hgather] at h
  cases gathered with
  | error error => cases h
  | ok q =>
      cases h
      rw [gather_ok hgather, LineProgress.take_empty, Bool.false_or]
      change LineProgress.finish ⟨r.ahead.firstLine.take limit, r.ahead.firstLine.length,
        decide (0x0a ∈ r.ahead)⟩ = r.ahead.boundedLine limit
      generalize r.ahead = text
      by_cases hlf : 0x0a ∈ text
      · have hne : text ≠ [] := List.ne_nil_of_mem hlf
        rw [decide_eq_true hlf, LineProgress.finish_terminated, Bytes.boundedLine, if_neg hne,
          Bytes.lineContent, if_pos hlf]
      · rw [decide_eq_false hlf, Bytes.firstLine_of_not_mem hlf]
        by_cases hne : text = []
        · subst hne
          rfl
        · rw [LineProgress.finish_open limit hne, Bytes.boundedLine_of_not_mem hlf limit hne]

theorem line_some {r : Reader ε} {limit : Nat} {line : Line}
    (h : (r.line limit).1 = .ok (some line)) :
    line = ⟨r.ahead.lineContent.take limit, LineProgress.excess limit r.ahead.firstLine⟩ := by
  have hline := line_ok h
  unfold Bytes.boundedLine at hline
  split at hline
  next => cases hline
  next => exact Option.some.inj hline

end Reader

/-! ## Reports -/

theorem LineProgress.isSome_excess_iff (limit : Nat) (body : Bytes) :
    (excess limit body).isSome = true ↔ limit < body.length := by
  unfold excess
  split
  next hlt => simp [hlt]
  next hle => simp [hle]

namespace Reader

/-- Whatever the reads bring, the report of a truncation says whether content of the line was lost,
except where the content just fills the limit before a carriage return and a line feed. Then the
line is whole, and is reported as one byte too long. A session that reads the line raises an event
exactly if there is a report. -/
theorem truncation_reports_loss_iff {ε : Type} (r : Reader ε) (limit : Nat) {line : Line}
    (hread : (r.line limit).1 = .ok (some line)) :
    ((line.truncation.isSome = true ↔ line.text.length < r.ahead.lineContent.length) ↔
      ¬ r.ahead.FillsToReturn limit) ∧
    (r.ahead.FillsToReturn limit → line = ⟨r.ahead.lineContent, some ⟨limit + 1, limit⟩⟩) ∧
    ∀ s : Session, (s.input.line Session.inputLimit).1 = .ok (some line) →
      ((∃ length kept, Event.lineTruncated length kept ∈ s.raised .input) ↔
        line.truncation.isSome = true) := by
  refine ⟨?_, ?_, ?_⟩
  · rw [line_some hread, LineProgress.isSome_excess_iff, List.length_take, Bytes.fillsToReturn_iff]
    have hle : r.ahead.lineContent.length ≤ r.ahead.firstLine.length := by
      rcases r.ahead.firstLine_cases with hsame | ⟨-, hreturn⟩
      · rw [hsame]
      · rw [hreturn, List.length_append]
        omega
    omega
  · intro hfills
    obtain ⟨content, after, htext, hlf, rfl⟩ := hfills
    rw [line_some hread, htext, Bytes.lineContent_append_return hlf,
      Bytes.firstLine_append_return hlf, List.take_length]
    simp [LineProgress.excess]
  · intro s hsession
    rw [Session.raised, Session.lineEvents, hsession]
    cases hcut : line.truncation <;> simp [hcut]

/-- A line that loses a byte, and the same line with a limit that its content just fills. Its line
ending comes behind an interruption, and a failure behind that. -/
theorem truncation_reports_loss_across_chunks :
    let r : Reader Unit :=
      { pending := [.chunk (ascii "abc"), .interrupted, .chunk (ascii "\r\nd"), .failure ()] }
    let short : Line := ⟨ascii "ab", some ⟨4, 2⟩⟩
    let whole : Line := ⟨ascii "abc", some ⟨4, 3⟩⟩
    (r.line 2).1 = .ok (some short) ∧ ¬ r.ahead.FillsToReturn 2 ∧
      (short.truncation.isSome = true ↔ short.text.length < r.ahead.lineContent.length) ∧
      (r.line 3).1 = .ok (some whole) ∧ r.ahead.FillsToReturn 3 ∧
      whole = ⟨r.ahead.lineContent, some ⟨4, 3⟩⟩ := by
  intro r short whole
  have hshort : (r.line 2).1 = .ok (some short) := by decide
  have hwhole : (r.line 3).1 = .ok (some whole) := by decide
  have hnot : ¬ r.ahead.FillsToReturn 2 := by
    rw [Bytes.fillsToReturn_iff]
    decide
  have hfills : r.ahead.FillsToReturn 3 := by
    rw [Bytes.fillsToReturn_iff]
    decide
  exact ⟨hshort, hnot, (truncation_reports_loss_iff r 2 hshort).1.2 hnot, hwhole, hfills,
    (truncation_reports_loss_iff r 3 hwhole).2.1 hfills⟩

/-- Nothing of the content is lost, and a truncation is reported. -/
theorem whole_line_is_reported :
    let r : Reader Unit := .ofBytes (ascii "ab\r\n")
    let line : Line := ⟨ascii "ab", some ⟨3, 2⟩⟩
    (r.line 2).1 = .ok (some line) ∧ r.ahead.lineContent = line.text ∧
      ¬ (line.truncation.isSome = true ↔ line.text.length < r.ahead.lineContent.length) := by
  decide

end Reader

end Tagged
