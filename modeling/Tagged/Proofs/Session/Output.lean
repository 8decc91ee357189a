import Tagged.Proofs.Console.Written
import Tagged.Proofs.Session.NulFree

/-!
# Standard output along a run

What a program leaves on a standard output that accepts everything is what its steps write, one
behind the other, and nothing else. A fault ends the program, but what was written before it is
flushed all the same.
-/

namespace Tagged

namespace Session

def Performed.output (p : Performed) : Bytes :=
  match p.operation, p.answer with
  | .print v newline, _ =>
    (v.eval p.before).toText.asBytes?.getD [] ++ if newline then [0x0a] else []
  | .inputPrompt v, _ => (v.eval p.before).asBytes?.getD []
  | .writeAll bytes, _ => bytes
  | .write bytes, .count n => bytes.take n
  | _, _ => []

/-! ## Operations -/

variable {s t : Session}

theorem writeAll_appends (h : s.output.device = .accepting) (bytes : Bytes) :
    ∃ t, s.writeAll bytes = (.ok (), t) ∧ s.output.Appends bytes t.output := by
  obtain ⟨hok, happends⟩ := Output.writeAll_appends h bytes
  exact ⟨s.setOutput (s.output.writeAll bytes).2, Prod.ext hok rfl, happends⟩

theorem flush_appends (h : s.output.device = .accepting) :
    ∃ t, s.flush = (.ok (), t) ∧ s.output.Appends [] t.output := by
  obtain ⟨hok, happends, -, -⟩ := Output.flush_appends h
  exact ⟨s.setOutput s.output.flush.2, Prod.ext hok rfl, happends⟩

theorem print_appends (h : s.output.device = .accepting) (v : Value) (newline : Bool) :
    s.output.Appends (v.render ++ if newline then [0x0a] else []) (s.print v newline).output := by
  obtain ⟨t, hwrite, happends⟩ := writeAll_appends h v.render
  rw [print, hwrite]
  cases newline with
  | false => simpa using happends
  | true =>
      obtain ⟨u, hfeed, hmore⟩ := writeAll_appends happends.device [0x0a]
      simp only [if_true, hfeed]
      exact happends.trans hmore

theorem showPrompt_appends (h : s.output.device = .accepting) (prompt : Bytes) :
    s.output.Appends prompt (s.showPrompt prompt).output := by
  obtain ⟨t, hwrite, happends⟩ := writeAll_appends h prompt
  obtain ⟨u, hflush, hnothing⟩ := flush_appends happends.device
  rw [showPrompt, hwrite]
  simp only [hflush]
  have hall := happends.trans hnothing
  rwa [List.append_nil] at hall

theorem prompt_appends (h : s.output.device = .accepting) {v line : Value}
    (hprompt : s.prompt v = (.ok line, t)) : s.output.Appends (v.asBytes?.getD []) t.output := by
  unfold prompt at hprompt
  split at hprompt
  next => cases hprompt
  next text htext =>
    have hshow := showPrompt_appends h text.bytes
    have hread : (s.showPrompt text.bytes).readLine.2.output = (s.showPrompt text.bytes).output :=
      changes_readLine _ .output (by simp)
    rw [← hread] at hshow
    rw [Value.eq_string_of_expectText htext]
    obtain ⟨-, rfl⟩ := Prod.mk.inj hprompt
    exact hshow

theorem writeSome_appends (h : s.output.device = .accepting) (bytes : Bytes) :
    ∃ n t, s.writeSome bytes = (.ok (.count n), t) ∧
      s.output.Appends (bytes.take n) t.output := by
  obtain ⟨n, hok, happends⟩ := Output.write_appends h bytes
  rcases hwrite : s.output.write bytes with ⟨result, output⟩
  rw [hwrite] at hok happends
  cases hok
  exact ⟨n, s.setOutput output, by rw [writeSome, hwrite], happends⟩

theorem output_eq_nil_of_not_touched {operation : Operation}
    (h : Part.output ∉ operation.touches) (answer : Answer) :
    Performed.output ⟨s, operation, answer⟩ = [] := by
  cases operation with
  | print | inputPrompt | write | writeAll => simp [Operation.touches] at h
  | _ => rfl

/-- An operation writes what is said of it, and one that touches no output writes nothing. -/
theorem perform_appends (hs : s.NulFree) (h : s.output.device = .accepting)
    {operation : Operation} {answer : Answer}
    (hperform : s.perform operation = (.ok answer, t)) :
    s.output.Appends (Performed.output ⟨s, operation, answer⟩) t.output := by
  by_cases htouches : Part.output ∈ operation.touches
  · cases operation with
    | print v newline =>
        cases hperform
        have hprint := print_appends h (v.eval s) newline
        have htext : (v.eval s).toText.asBytes? = some (v.eval s).render :=
          Value.asBytes?_ofBytes (hs.eval v).render
        simpa [Performed.output, htext] using hprint
    | inputPrompt v =>
        rcases hprompt : s.prompt (v.eval s) with ⟨result, u⟩
        rw [perform, hprompt] at hperform
        cases result with
        | error fault => cases hperform
        | ok line =>
            cases hperform
            exact prompt_appends h hprompt
    | write bytes =>
        obtain ⟨n, u, hwrite, happends⟩ := writeSome_appends h bytes
        rw [perform, hwrite] at hperform
        cases hperform
        exact happends
    | writeAll bytes =>
        obtain ⟨u, hwrite, happends⟩ := writeAll_appends h bytes
        rw [perform, hwrite] at hperform
        cases hperform
        exact happends
    | flush =>
        obtain ⟨u, hflush, happends⟩ := flush_appends h
        rw [perform, hflush] at hperform
        cases hperform
        exact happends
    | _ => simp [Operation.touches] at htouches
  · have hsame : t.output = s.output := by
      have hchanges := s.perform_changes operation .output htouches
      rwa [hperform] at hchanges
    rw [output_eq_nil_of_not_touched htouches, hsame]
    exact .refl h

/-! ## Runs -/

theorem step_appends (hs : s.NulFree) (h : s.output.device = .accepting) {step : Step}
    {answer : Answer} (hstep : s.step step = (.ok answer, t)) :
    s.output.Appends (Performed.output ⟨s, step.operation, answer⟩) t.output := by
  obtain ⟨u, hperform, rfl⟩ := exists_perform_of_step hstep
  have hkeep : (u.keep step.keep answer).output = u.output :=
    u.changes_keep _ _ .output (by simp)
  rw [hkeep]
  exact perform_appends hs h hperform

theorem exit_output (h : s.output.device = .accepting) :
    s.exit.output.bytes = s.output.written ∧ s.exit.output.buffered = [] := by
  obtain ⟨-, -, hbytes, hbuffered⟩ := Output.flush_appends h
  exact ⟨hbytes, hbuffered⟩

theorem terminate_output (s : Session) (fault : Fault) :
    (s.terminate fault).output = s.exit.output := by
  rw [terminate_eq]

theorem run_output (hs : s.NulFree) (h : s.output.device = .accepting) (program : List Step) :
    (s.run program).final.output.bytes =
        s.output.written ++ ((s.performed program).map Performed.output).flatten ∧
      (s.run program).final.output.buffered = [] := by
  induction program generalizing s with
  | nil => simpa [run, performed] using exit_output h
  | cons step program ih =>
      rw [run]
      split
      next answer t hstep =>
        have happends := step_appends hs h hstep
        obtain ⟨hbytes, hbuffered⟩ := ih (hs.step hstep).2 happends.device
        refine ⟨?_, hbuffered⟩
        rw [performed_of_ok hstep, List.map_cons, List.flatten_cons, ← List.append_assoc,
          ← happends.written]
        exact hbytes
      next fault t hstep =>
        -- the step that faults has written nothing, and the end of the program flushes the rest
        rw [performed_of_error hstep, eq_of_step_error hstep, terminate_output]
        simpa using exit_output h

/-- A program that starts without variables and with an empty standard output that accepts
everything leaves on it what its steps have written, in their order: the text of each printed
value, with its line feed, each prompt, and the bytes that were written raw. This holds whether
the program comes to its end or faults, and nothing stays in the buffer. The steps are those
before the fault, or all of them if there is none. -/
theorem run_output_is_concatenation (hbindings : s.bindings = [])
    (houtput : s.output = { device := .accepting }) (program : List Step) :
    (s.run program).outputBytes = ((s.performed program).map Performed.output).flatten ∧
    (s.run program).final.output.buffered = [] ∧
    (s.performed program).map Performed.answer = (s.run program).answers ∧
    (s.performed program).map Performed.operation <+: program.map Step.operation ∧
    ((s.run program).fault = none →
      (s.performed program).map Performed.operation = program.map Step.operation) := by
  have hs : s.NulFree := .of_bindings_eq_nil hbindings
  have hdevice : s.output.device = .accepting := by rw [houtput]
  have hwritten : s.output.written = [] := by
    rw [houtput]
    rfl
  obtain ⟨hbytes, hbuffered⟩ := run_output hs hdevice program
  rw [hwritten, List.nil_append] at hbytes
  exact ⟨hbytes, hbuffered, s.performed_answers program⟩

/-- Printed values, a prompt and raw bytes before a fault, which ends the program. -/
theorem faulting_run_output_is_concatenation :
    let s : Session := { input := .ofBytes (ascii "line\n") }
    let program : List Step :=
      [⟨.print (.int (-5)) true, none⟩, ⟨.inputPrompt (.bytes (ascii "? ")), none⟩,
        ⟨.writeAll [0x61, 0x00, 0x62], none⟩, ⟨.print (.bool true) false, none⟩,
        ⟨.unary .length (.int 5), none⟩, ⟨.print (.int 6) true, none⟩]
    s.bindings = [] ∧ s.output = { device := .accepting } ∧
      (s.run program).outputBytes = ascii "-5\n? a" ++ 0x00 :: ascii "btrue" := by
  intro s program
  refine ⟨rfl, rfl, ?_⟩
  rw [(run_output_is_concatenation (s := s) rfl rfl program).1]
  decide +kernel

end Session

end Tagged
