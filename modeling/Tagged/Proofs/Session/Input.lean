import Tagged.Proofs.Console.Lines
import Tagged.Proofs.Session.Faults

/-!
# Standard input along a run

The steps of a program that ask for a line get the lines of standard input one by one, each
in full or up to the limit, whatever other steps stand between them. Once there are no more
lines they get empty strings.
-/

namespace Tagged

def Operation.readsLine : Operation → Bool
  | .input => true
  | .inputPrompt _ => true
  | _ => false

namespace Session

/-- The string that a program gets for the line with the given index: without the terminator,
within the limit, and up to the first NUL. -/
def lineValue (text : Bytes) (k : Nat) : Value :=
  let line := (text.lines[k]?.map Bytes.withoutTerminator).getD []
  .string (.live ((line.take 1023).takeWhile (· != 0)))

def lineAnswers (steps : List Step) (answers : List Answer) : List Answer :=
  ((steps.zip answers).filter fun (step, _) => step.operation.readsLine).map Prod.snd

theorem lineValue_succ (text : Bytes) (k : Nat) :
    lineValue text (k + 1) = lineValue text.lines.tail.flatten k := by
  rw [lineValue, lineValue, Bytes.lines_flatten_tail, List.getElem?_tail]

theorem readLine_input (s : Session) :
    s.readLine.2.input = (s.input.line inputLimit).2 := by
  have hlog : ∀ (t : Session) (e : Event), (t.log e).input = t.input := by
    intro t e
    exact t.changes_log e .input (by simp)
  unfold readLine
  dsimp only
  split
  · split
    · rw [hlog, setInput]
    · rfl
  · rfl
  · rw [hlog, setInput]

theorem readLine_value {s : Session} {result : Option Line} {r : Reader Failure}
    (h : s.input.line inputLimit = (.ok result, r)) :
    s.readLine.1 = .ofBytes ((result.map Line.text).getD []) := by
  unfold readLine
  rw [h]
  cases result with
  | none => rfl
  | some line =>
      dsimp only
      split <;> rfl

theorem readLine_of_holds {s : Session} {text : Bytes} (h : s.input.Holds text) :
    s.readLine.1 = lineValue text 0 ∧ s.readLine.2.input.Holds text.lines.tail.flatten := by
  obtain ⟨result, r, hr, hline, hresult⟩ := Reader.line_of_holds h inputLimit
  constructor
  · rw [readLine_value hline, hresult, lineValue, ← List.head?_eq_getElem?]
    cases text.lines.head? <;> rfl
  · rw [readLine_input, hline]
    exact hr

theorem showPrompt_input (s : Session) (prompt : Bytes) :
    (s.showPrompt prompt).input = s.input := by
  exact s.changes_showPrompt prompt .input (by simp)

theorem keep_input (s : Session) (name : Option String) (answer : Answer) :
    (s.keep name answer).input = s.input := by
  exact s.changes_keep name answer .input (by simp)

theorem step_input_of_not_readsLine (s : Session) {step : Step}
    (hreads : step.operation.readsLine = false) : (s.step step).2.input = s.input := by
  have htouches : Part.input ∉ Part.bindings :: step.operation.touches := by
    cases hop : step.operation with
    | input => simp [hop, Operation.readsLine] at hreads
    | inputPrompt => simp [hop, Operation.readsLine] at hreads
    | _ => simp [Operation.touches]
  exact s.step_changes step .input htouches

theorem perform_of_readsLine {s t : Session} {text : Bytes} (h : s.input.Holds text)
    {operation : Operation} (hreads : operation.readsLine = true) {answer : Answer}
    (hperform : s.perform operation = (.ok answer, t)) :
    answer = .value (lineValue text 0) ∧ t.input.Holds text.lines.tail.flatten := by
  cases operation with
  | input =>
      obtain ⟨hvalue, hinput⟩ := readLine_of_holds h
      obtain ⟨hanswer, rfl⟩ := Prod.mk.inj hperform
      cases hanswer
      exact ⟨congrArg Answer.value hvalue, hinput⟩
  | inputPrompt v =>
      rw [perform, prompt] at hperform
      split at hperform
      next => cases (Prod.mk.inj hperform).1
      next prompt _ =>
        rw [← s.showPrompt_input prompt.bytes] at h
        obtain ⟨hvalue, hinput⟩ := readLine_of_holds h
        obtain ⟨hanswer, rfl⟩ := Prod.mk.inj hperform
        cases hanswer
        exact ⟨congrArg Answer.value hvalue, hinput⟩
  | _ => simp [Operation.readsLine] at hreads

/-- A step that asks for a line and does not fault gets the first one. -/
theorem step_of_readsLine {s t : Session} {text : Bytes} (h : s.input.Holds text) {step : Step}
    (hreads : step.operation.readsLine = true) {answer : Answer}
    (hstep : s.step step = (.ok answer, t)) :
    answer = .value (lineValue text 0) ∧ t.input.Holds text.lines.tail.flatten := by
  unfold Session.step at hstep
  split at hstep
  next value u hperform =>
    obtain ⟨hanswer, rfl⟩ := Prod.mk.inj hstep
    cases hanswer
    rw [keep_input]
    exact perform_of_readsLine h hreads hperform
  next => cases (Prod.mk.inj hstep).1

theorem lineAnswers_cons (step : Step) (steps : List Step) (answer : Answer)
    (answers : List Answer) :
    lineAnswers (step :: steps) (answer :: answers) =
      if step.operation.readsLine then answer :: lineAnswers steps answers
      else lineAnswers steps answers := by
  unfold lineAnswers
  cases hreads : step.operation.readsLine <;> simp [hreads]

/-- The steps of a program that ask for a line get the lines of standard input in their
order, and afterwards empty strings. What they have not got is left to be read. -/
theorem run_reads_lines {s : Session} {text : Bytes} (h : s.input.Holds text)
    (steps : List Step) :
    (∀ (k : Nat) (answer : Answer),
      (lineAnswers steps (s.run steps).answers)[k]? = some answer →
        answer = .value (lineValue text k)) ∧
    (s.run steps).final.input.Holds
      (text.lines.drop (lineAnswers steps (s.run steps).answers).length).flatten := by
  induction steps generalizing s text with
  | nil =>
      refine ⟨by simp [lineAnswers], ?_⟩
      have hexit : s.exit.input = s.input := s.changes_exit .input (by simp)
      rw [run, hexit]
      simpa [lineAnswers, Bytes.flatten_lines] using h
  | cons step steps ih =>
      rw [run]
      split
      next answer t hstep =>
        dsimp only
        rw [lineAnswers_cons]
        cases hreads : step.operation.readsLine with
        | false =>
            have hinput : t.input = s.input := by
              have := s.step_input_of_not_readsLine hreads
              rwa [hstep] at this
            exact ih (hinput ▸ h)
        | true =>
            -- the rest of the program reads the lines behind the first one
            obtain ⟨hanswer, hinput⟩ := step_of_readsLine h hreads hstep
            obtain ⟨hvalues, hfinal⟩ := ih hinput
            rw [Bytes.lines_flatten_tail, List.drop_tail] at hfinal
            refine ⟨?_, hfinal⟩
            intro k value hk
            cases k with
            | zero => exact (Option.some.inj hk).symm.trans hanswer
            | succ k =>
                rw [lineValue_succ]
                exact hvalues k value hk
      next fault t hstep =>
        have hterminate : (t.terminate fault).input = t.input :=
          t.changes_terminate fault .input (by simp)
        refine ⟨by simp [lineAnswers], ?_⟩
        rw [hterminate, eq_of_step_error hstep]
        simpa [lineAnswers, Bytes.flatten_lines] using h

theorem run_reads_two_lines :
    let text := ascii "ab\r\ncd"
    let s : Session := { input := .ofBytes text }
    let steps : List Step := [⟨.input, none⟩, ⟨.makeInt 1, none⟩, ⟨.input, none⟩, ⟨.input, none⟩]
    let got := lineAnswers steps (s.run steps).answers
    s.input.Holds text ∧ (s.run steps).final.input.Holds [] ∧
      got[0]? = some (.value (.ofBytes (ascii "ab"))) ∧
      got[1]? = some (.value (.ofBytes (ascii "cd"))) ∧
      got[2]? = some (.value (.ofBytes [])) := by
  intro text s steps got
  have htext : s.input.Holds text := Reader.holds_ofBytes text
  obtain ⟨hvalues, hfinal⟩ := run_reads_lines htext steps
  have hgot : ∀ k, k < 3 → got[k]? = some (.value (lineValue text k)) := by
    intro k hk
    have hlength : k < got.length := hk
    rw [List.getElem?_eq_getElem hlength]
    exact congrArg some (hvalues k _ (List.getElem?_eq_getElem hlength))
  refine ⟨htext, hfinal, ?_, ?_, ?_⟩
  · exact hgot 0 (by decide)
  · exact hgot 1 (by decide)
  · exact hgot 2 (by decide)

end Session

end Tagged
