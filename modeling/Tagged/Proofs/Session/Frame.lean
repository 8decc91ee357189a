import Tagged.Session.Run

/-!
# What a step can change

A session consists of parts. `Operation.touches` names the parts that an operation may
change, and `perform_changes` says that it changes no other. Whatever is said of one part
along a run has to look at those operations only that touch it.
-/

namespace Tagged

namespace Session

inductive Part where
  | bindings
  | files
  | input
  | output
  | errors
  | filters
  | logVariable
  | subscriber
  | handler
  | collector
  | clock
deriving DecidableEq, Repr

def Same (s t : Session) : Part → Prop
  | .bindings => t.bindings = s.bindings
  | .files => t.files = s.files
  | .input => t.input = s.input
  | .output => t.output = s.output
  | .errors => t.notices = s.notices
  | .filters => t.filters = s.filters
  | .logVariable => t.logVariable = s.logVariable
  | .subscriber => t.subscriber = s.subscriber
  | .handler => t.handler = s.handler
  | .collector => t.collector = s.collector
  | .clock => t.clock = s.clock

/-- From the first session to the second, no part changes but the given ones. -/
def Changes (s : Session) (parts : List Part) (t : Session) : Prop :=
  ∀ part, part ∉ parts → s.Same t part

namespace Changes

theorem refl (s : Session) (parts : List Part) : s.Changes parts s := by
  intro part _
  cases part <;> rfl

theorem trans {s t u : Session} {parts : List Part} (hst : s.Changes parts t)
    (htu : t.Changes parts u) : s.Changes parts u := by
  intro part hpart
  have h₁ := hst part hpart
  have h₂ := htu part hpart
  cases part <;> exact Eq.trans h₂ h₁

theorem mono {s t : Session} {parts more : List Part} (h : s.Changes parts t)
    (hsub : parts ⊆ more) : s.Changes more t := by
  intro part hpart
  exact h part (fun hmem => hpart (hsub hmem))

end Changes

end Session

def Operation.touches : Operation → List Session.Part
  | .loadFile _ => [.errors]
  | .saveFile _ _ => [.files, .errors]
  | .input => [.input, .errors]
  | .inputPrompt _ => [.input, .output, .errors]
  | .sleep _ => [.errors]
  | .print _ _ => [.output]
  | .free _ => [.bindings]
  | .write _ => [.output]
  | .writeAll _ => [.output]
  | .flush => [.output]
  | .configure _ => [.logVariable]
  | .putFile _ _ => [.files]
  | .makeDirectories _ => [.files]
  | .makeLink _ _ => [.files]
  | .start => [.subscriber, .errors]
  | .installLogging _ => [.subscriber, .errors]
  | .installHandler _ => [.handler]
  | .registerCollector => [.collector]
  | .collect => [.collector, .errors]
  | .cleanUp => [.collector, .errors]
  | _ => []

theorem Operation.filters_not_mem_touches (operation : Operation) :
    Session.Part.filters ∉ operation.touches := by
  cases operation <;> simp [touches]

namespace Session

/-! ## Updates of one part -/

theorem log_eq (s : Session) (e : Event) :
    s.log e = { s with notices := (s.log e).notices } := by
  unfold log
  split
  · split <;> rfl
  · rfl

theorem changes_log (s : Session) (e : Event) : s.Changes [.errors] (s.log e) := by
  rw [log_eq]
  intro part hpart
  cases part with
  | errors => exact absurd (by simp) hpart
  | _ => rfl

theorem changes_set (s : Session) (name : String) (v : Value) :
    s.Changes [.bindings] (s.set name v) := by
  intro part hpart
  cases part with
  | bindings => exact absurd (by simp) hpart
  | _ => rfl

theorem changes_setInput (s : Session) (input : Reader Failure) :
    s.Changes [.input] (s.setInput input) := by
  intro part hpart
  cases part with
  | input => exact absurd (by simp) hpart
  | _ => rfl

theorem changes_setOutput (s : Session) (output : Output) :
    s.Changes [.output] (s.setOutput output) := by
  intro part hpart
  cases part with
  | output => exact absurd (by simp) hpart
  | _ => rfl

theorem changes_setFiles (s : Session) (files : FileTree) :
    s.Changes [.files] { s with files } := by
  intro part hpart
  cases part with
  | files => exact absurd (by simp) hpart
  | _ => rfl

theorem changes_setSubscriber (s : Session) (subscriber : Option Filter) :
    s.Changes [.subscriber] { s with subscriber } := by
  intro part hpart
  cases part with
  | subscriber => exact absurd (by simp) hpart
  | _ => rfl

theorem changes_setCollector (s : Session) (collector : Option HookCounts) :
    s.Changes [.collector] { s with collector } := by
  intro part hpart
  cases part with
  | collector => exact absurd (by simp) hpart
  | _ => rfl

/-! ## Operations on the console -/

theorem changes_writeAll (s : Session) (bytes : Bytes) :
    s.Changes [.output] (s.writeAll bytes).2 := by
  exact s.changes_setOutput _

theorem changes_flush (s : Session) : s.Changes [.output] s.flush.2 := by
  exact s.changes_setOutput _

theorem changes_print (s : Session) (v : Value) (newline : Bool) :
    s.Changes [.output] (s.print v newline) := by
  have hfirst := s.changes_writeAll v.render
  unfold print
  split
  next t ht =>
    rw [ht] at hfirst
    cases newline with
    | false => exact hfirst
    | true => exact hfirst.trans (t.changes_writeAll _)
  next t ht =>
    rw [ht] at hfirst
    exact hfirst

theorem changes_readLine (s : Session) : s.Changes [.input, .errors] s.readLine.2 := by
  have hinput : s.Changes [.input, .errors] (s.setInput (s.input.line inputLimit).2) :=
    (s.changes_setInput _).mono (by simp)
  have hlog : ∀ e, s.Changes [.input, .errors]
      ((s.setInput (s.input.line inputLimit).2).log e) := by
    intro e
    exact hinput.trans ((changes_log _ e).mono (by simp))
  unfold readLine
  dsimp only
  split
  · split
    · exact hlog _
    · exact hinput
  · exact hinput
  · exact hlog _

theorem changes_showPrompt (s : Session) (prompt : Bytes) :
    s.Changes [.output, .errors] (s.showPrompt prompt) := by
  have hlog : ∀ (t : Session) (e : Event), t.Changes [.output, .errors] (t.log e) := by
    intro t e
    exact (t.changes_log e).mono (by simp)
  have hwrite : s.Changes [.output, .errors] (s.writeAll prompt).2 :=
    (s.changes_writeAll prompt).mono (by simp)
  unfold showPrompt
  split
  next failure t ht =>
    rw [ht] at hwrite
    exact hwrite.trans (hlog t _)
  next t ht =>
    rw [ht] at hwrite
    have hflush : t.Changes [.output, .errors] t.flush.2 :=
      t.changes_flush.mono (by simp)
    split
    next failure u hu =>
      rw [hu] at hflush
      exact (hwrite.trans hflush).trans (hlog u _)
    next u hu =>
      rw [hu] at hflush
      exact hwrite.trans hflush

theorem changes_prompt (s : Session) (v : Value) :
    s.Changes [.input, .output, .errors] (s.prompt v).2 := by
  unfold prompt
  split
  · exact Changes.refl s _
  · exact ((s.changes_showPrompt _).mono (by simp)).trans
      ((changes_readLine _).mono (by simp))

/-! ## Operations on files and registrations -/

theorem changes_loadFile (s : Session) (path : Value) :
    s.Changes [.errors] (s.loadFile path).2 := by
  unfold loadFile
  split
  · exact Changes.refl s _
  · split
    · exact Changes.refl s _
    · exact s.changes_log _

theorem changes_saveFile (s : Session) (path content : Value) :
    s.Changes [.files, .errors] (s.saveFile path content).2 := by
  unfold saveFile
  split
  · exact Changes.refl s _
  · split
    · exact Changes.refl s _
    · split
      · exact (s.changes_setFiles _).mono (by simp)
      · exact (s.changes_log _).mono (by simp)

theorem changes_fileExists (s : Session) (path : Value) :
    s.Changes [] (s.fileExists path).2 := by
  unfold fileExists
  split <;> exact Changes.refl s _

theorem changes_putFile (s : Session) (path content : Bytes) :
    s.Changes [.files] (s.putFile path content) := by
  unfold putFile
  split
  · exact s.changes_setFiles _
  · exact Changes.refl s _

theorem changes_installLogging (s : Session) (config : LogConfig) :
    s.Changes [.subscriber, .errors] (s.installLogging config).2 := by
  have hinstalled : ∀ filter, s.Changes [.subscriber, .errors]
      (if s.subscriber.isNone then { s with subscriber := some filter } else s) := by
    intro filter
    split
    · exact (s.changes_setSubscriber _).mono (by simp)
    · exact Changes.refl s _
  unfold installLogging
  dsimp only
  split
  · exact (hinstalled _).trans ((changes_log _ _).mono (by simp))
  · exact hinstalled _

theorem changes_start (s : Session) : s.Changes [.subscriber, .errors] s.start := by
  have hinstall := s.changes_installLogging (LogConfig.ofVariable s.logVariable)
  unfold start
  dsimp only
  split
  · exact hinstall.trans ((changes_log _ _).mono (by simp))
  · exact hinstall

theorem changes_installHandler (s : Session) (handler : FaultHandler) :
    s.Changes [.handler] (s.installHandler handler).2 := by
  unfold installHandler
  split
  · exact Changes.refl s _
  · intro part hpart
    cases part with
    | handler => exact absurd (by simp) hpart
    | _ => rfl

theorem changes_registerCollector (s : Session) :
    s.Changes [.collector] s.registerCollector.2 := by
  unfold registerCollector
  split
  · exact Changes.refl s _
  · exact s.changes_setCollector _

theorem changes_collect (s : Session) : s.Changes [.collector, .errors] s.collect := by
  unfold collect
  split
  · exact (s.changes_setCollector _).mono (by simp)
  · exact (s.changes_log _).mono (by simp)

theorem changes_cleanUp (s : Session) : s.Changes [.collector, .errors] s.cleanUp := by
  unfold cleanUp
  split
  · exact (s.changes_setCollector _).mono (by simp)
  · exact (s.changes_log _).mono (by simp)

theorem changes_sleep (s : Session) (v : Value) : s.Changes [.errors] (s.sleep v).2 := by
  unfold sleep
  split
  · exact Changes.refl s _
  · exact s.changes_log _

theorem changes_configure (s : Session) (value : Option Bytes) :
    s.Changes [.logVariable] (s.configure value).2 := by
  intro part hpart
  cases part with
  | logVariable => exact absurd (by simp) hpart
  | _ => rfl

theorem changes_free (s : Session) (operand : Operand) :
    s.Changes [.bindings] (s.free operand).2 := by
  cases operand with
  | named name => exact s.changes_set _ _
  | _ => exact Changes.refl s _

theorem changes_writeSome (s : Session) (bytes : Bytes) :
    s.Changes [.output] (s.writeSome bytes).2 := by
  unfold writeSome
  split <;> exact s.changes_setOutput _

/-! ## Operations and steps -/

theorem answerDone_session (outcome : Except Failure Unit × Session) :
    (answerDone outcome).2 = outcome.2 := by
  obtain ⟨result, t⟩ := outcome
  cases result <;> rfl

theorem perform_changes (s : Session) (operation : Operation) :
    s.Changes operation.touches (s.perform operation).2 := by
  cases operation with
  | loadFile path => exact s.changes_loadFile _
  | saveFile path content => exact s.changes_saveFile _ _
  | fileExists path => exact s.changes_fileExists _
  | input => exact s.changes_readLine
  | inputPrompt prompt => exact s.changes_prompt _
  | sleep duration => exact s.changes_sleep _
  | print v newline => exact s.changes_print _ _
  | free operand =>
      cases operand with
      | none => exact Changes.refl s _
      | some operand => exact s.changes_free operand
  | write bytes => exact s.changes_writeSome bytes
  | writeAll bytes =>
      rw [perform, answerDone_session]
      exact s.changes_writeAll bytes
  | flush =>
      rw [perform, answerDone_session]
      exact s.changes_flush
  | configure value => exact s.changes_configure value
  | putFile path content => exact s.changes_putFile path content
  | makeDirectories path => exact s.changes_setFiles _
  | makeLink path target => exact s.changes_setFiles _
  | start => exact s.changes_start
  | installLogging config => exact s.changes_installLogging config
  | installHandler handler => exact s.changes_installHandler handler
  | registerCollector => exact s.changes_registerCollector
  | collect => exact s.changes_collect
  | cleanUp => exact s.changes_cleanUp
  | _ => exact Changes.refl s _

theorem changes_keep (s : Session) (name : Option String) (answer : Answer) :
    s.Changes [.bindings] (s.keep name answer) := by
  unfold keep
  split
  · split
    · exact s.changes_set _ _
    · exact Changes.refl s _
  · exact Changes.refl s _

theorem step_changes (s : Session) (step : Step) :
    s.Changes (.bindings :: step.operation.touches) (s.step step).2 := by
  have hperform : s.Changes (.bindings :: step.operation.touches)
      (s.perform step.operation).2 :=
    (s.perform_changes step.operation).mono (List.subset_cons_self _ _)
  unfold Session.step
  split
  next answer t ht =>
    rw [ht] at hperform
    exact hperform.trans ((t.changes_keep _ _).mono (by simp))
  next fault t ht =>
    rw [ht] at hperform
    exact hperform

/-! ## The end of a program -/

theorem changes_exit (s : Session) : s.Changes [.output] s.exit := by
  exact s.changes_flush

/-- The end of a program that faults differs from any other on standard error only. -/
theorem terminate_eq (s : Session) (fault : Fault) :
    s.terminate fault = { s.exit with notices := (s.terminate fault).notices } := by
  unfold terminate exit flush
  dsimp only
  rw [log_eq]
  split <;> rfl

theorem changes_terminate (s : Session) (fault : Fault) :
    s.Changes [.output, .errors] (s.terminate fault) := by
  have herrors : s.exit.Changes [.errors] (s.terminate fault) := by
    rw [terminate_eq]
    intro part hpart
    cases part with
    | errors => exact absurd (by simp) hpart
    | _ => rfl
  exact (s.changes_exit.mono (by simp)).trans (herrors.mono (by simp))

end Session

end Tagged
