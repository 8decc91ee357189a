import Tagged.Session.Run

/-!
# Values that operations make

Every string that an operation answers was made from bytes just then. So it is live, and it ends
before any NUL.
-/

namespace Tagged

namespace Value

inductive Made : Value → Prop
  | ofBytes (bytes : Bytes) : Made (.ofBytes bytes)
  | other {v : Value} (h : v.asText? = none) : Made v

theorem Made.ne_released {v : Value} (h : v.Made) : v ≠ .string .released := by
  cases h with
  | ofBytes bytes => nofun
  | other hnone =>
      rintro rfl
      cases hnone

theorem eq_string_of_expectText {v : Value} {operation : String} {text : Text}
    (h : v.expectText operation = .ok text) : v = .string text := by
  cases v <;> cases h
  rfl

theorem made_duplicate (v : Value) : v.duplicate.Made := by
  cases v with
  | string text => exact .ofBytes text.bytes
  | _ => exact .other rfl

theorem made_choose (ints : Int64 → Int64 → Int64) (floats : Binary64 → Binary64 → Binary64)
    (v w : Value) : (choose ints floats v w).Made := by
  apply Made.other
  cases v <;> cases w <;> rfl

end Value

theorem UnaryOp.made_apply {op : UnaryOp} {v u : Value} (h : op.apply v = .ok u) : u.Made := by
  cases op with
  | duplicate =>
      cases h
      exact v.made_duplicate
  | toText =>
      cases h
      exact .ofBytes v.render
  | toInt | toFloat | abs =>
      cases h
      cases v <;> exact .other rfl
  | stringToInt | length =>
      cases v <;> cases h
      exact .other rfl
  | intToString | upper | lower =>
      cases v <;> cases h
      exact .ofBytes _

theorem BinaryOp.made_apply (op : BinaryOp) (v w : Value) : (op.apply v w).Made := by
  cases op with
  | max | min => exact Value.made_choose _ _ v w
  | pow => exact .other rfl
  | concat => exact .ofBytes _

namespace Session

theorem made_readLine (s : Session) : s.readLine.1.Made := by
  unfold readLine
  dsimp only
  split
  · split <;> exact .ofBytes _
  · exact .ofBytes _
  · exact .ofBytes _

theorem made_prompt {s : Session} {v line : Value} (h : (s.prompt v).1 = .ok line) :
    line.Made := by
  unfold prompt at h
  split at h
  · cases h
  · cases h
    exact made_readLine _

theorem made_loadFile {s : Session} {path content : Value}
    (h : (s.loadFile path).1 = .ok content) : content.Made := by
  unfold loadFile at h
  split at h
  · cases h
  · split at h <;> cases h <;> exact .ofBytes _

theorem made_saveFile {s : Session} {path content result : Value}
    (h : (s.saveFile path content).1 = .ok result) : result.Made := by
  unfold saveFile at h
  split at h
  · cases h
  · split at h
    · cases h
    · split at h <;> cases h <;> exact .other rfl

theorem made_fileExists {s : Session} {path result : Value}
    (h : (s.fileExists path).1 = .ok result) : result.Made := by
  unfold fileExists at h
  split at h <;> cases h
  exact .other rfl

theorem made_sleep (s : Session) (v : Value) : (s.sleep v).1.Made := by
  unfold sleep
  split <;> exact .other rfl

theorem exists_of_map_eq_ok {α β : Type} {result : Except Fault α} {f : α → β} {b : β}
    (h : result.map f = .ok b) : ∃ a, result = .ok a ∧ b = f a := by
  cases result with
  | error fault => cases h
  | ok a =>
      cases h
      exact ⟨a, rfl, rfl⟩

theorem made_of_answerValue {outcome : Except Fault Value × Session} {v : Value}
    (hmade : ∀ w, outcome.1 = .ok w → w.Made) (h : (answerValue outcome).1 = .ok (.value v)) :
    v.Made := by
  obtain ⟨w, hw, hv⟩ := exists_of_map_eq_ok h
  cases hv
  exact hmade v hw

theorem answerDone_ne_value (outcome : Except Failure Unit × Session) (v : Value) :
    (answerDone outcome).1 ≠ .ok (.value v) := by
  obtain ⟨result, t⟩ := outcome
  cases result <;> nofun

/-- Every value that an operation answers was made by it. -/
theorem made_of_perform {s : Session} {operation : Operation} {v : Value}
    (h : (s.perform operation).1 = .ok (.value v)) : v.Made := by
  cases operation with
  | makeString bytes =>
      cases h
      exact .ofBytes _
  | makeInt | makeFloat | makeBool | makeVoid =>
      cases h
      exact .other rfl
  | unary op a => exact made_of_answerValue (fun _ hu => UnaryOp.made_apply hu) h
  | binary op a b =>
      cases h
      exact op.made_apply _ _
  | loadFile path => exact made_of_answerValue (fun _ hw => made_loadFile hw) h
  | saveFile path content => exact made_of_answerValue (fun _ hw => made_saveFile hw) h
  | fileExists path => exact made_of_answerValue (fun _ hw => made_fileExists hw) h
  | inputPrompt prompt => exact made_of_answerValue (fun _ hw => made_prompt hw) h
  | input =>
      cases h
      exact s.made_readLine
  | sleep duration =>
      cases h
      exact made_sleep _ _
  | free operand =>
      cases operand with
      | none => cases h
      | some operand => cases operand <;> cases h
  | validate | expectText | expectInt =>
      obtain ⟨_, _, hanswer⟩ := exists_of_map_eq_ok h
      cases hanswer
  | write bytes =>
      simp only [perform, writeSome] at h
      split at h <;> cases h
  | writeAll bytes => exact absurd h (answerDone_ne_value _ v)
  | flush => exact absurd h (answerDone_ne_value _ v)
  | _ => cases h

end Session

end Tagged
