import Tagged.Proofs.Session.Operands

/-!
# Logging and the program

A program cannot tell whether and what is logged. `Session.quiet` forgets which events were shown
and which filters decide about it, and it forgets nothing else that a step could look at. Two runs
that start alike up to that, with any two values of the log variable and with any filters in the
program, go alike: they differ on standard error only, and there in the shown events only.
-/

namespace Tagged

def Filter.silent : Filter := ⟨fun _ => false⟩

def Operation.withoutFilter : Operation → Operation
  | .installLogging _ => .installLogging .default
  | operation => operation

def Step.withoutFilter (step : Step) : Step :=
  { step with operation := step.operation.withoutFilter }

namespace Session

/-- The session without its shown events and its log variable, and with a subscriber that shows
nothing in the place of any other. -/
def quiet (s : Session) : Session :=
  { s with
    notices := s.notices.filter (!·.isEvent)
    logVariable := none
    subscriber := s.subscriber.map fun _ => .silent }

@[simp] theorem quiet_quiet (s : Session) : s.quiet.quiet = s.quiet := by
  simp [quiet, Option.map_map, Function.comp_def]

theorem quiet_log (s : Session) (e : Event) : (s.log e).quiet = s.quiet := by
  unfold log
  split
  · split
    · simp [quiet, Notice.isEvent]
    · rfl
  · rfl

theorem log_quiet (s : Session) (e : Event) : s.quiet.log e = s.quiet := by
  unfold log quiet
  cases s.subscriber <;> rfl

theorem unnoticed_quiet : Unnoticed quiet where
  changes s := by
    intro part hpart
    cases part with
    | errors | logVariable | subscriber => exact absurd (by simp) hpart
    | _ => rfl
  setInput _ _ := rfl
  setOutput _ _ := rfl
  setFiles _ _ := rfl
  setHandler _ _ := rfl
  setCollector _ _ := rfl
  log s e := by rw [log_quiet, quiet_log]
  note s n h := by simp [note, quiet, h]

/-! ## Operations -/

/-- Whatever the filter, afterwards there is a subscriber, and nothing else has changed. -/
theorem quiet_installLogging (s : Session) (config : LogConfig) :
    (s.installLogging config).2.quiet = { s.quiet with subscriber := some .silent } := by
  have hinstalled : ∀ filter : Filter,
      quiet (if s.subscriber.isNone then { s with subscriber := some filter } else s) =
        { s.quiet with subscriber := some .silent } := by
    intro filter
    cases hsub : s.subscriber <;> simp [quiet, hsub]
  unfold installLogging
  dsimp only
  split
  · rw [quiet_log, hinstalled]
  · exact hinstalled _

theorem quiet_start (s : Session) :
    s.start.quiet = { s.quiet with subscriber := some .silent } := by
  unfold start
  dsimp only
  split
  · rw [quiet_log, quiet_installLogging]
  · exact quiet_installLogging s _

theorem eval_quiet (s : Session) (operand : Operand) : operand.eval s.quiet = operand.eval s := by
  cases operand <;> rfl

/-- Whatever filters are asked for, an operation answers the same to the quiet session and leaves
the same behind. -/
theorem perform_quiet (s : Session) (operation : Operation) :
    (s.quiet.perform operation.withoutFilter).map id quiet =
      (s.perform operation).map id quiet := by
  by_cases htouches : ∀ part ∈ [Part.bindings, Part.logVariable, Part.subscriber],
      part ∉ operation.touches
  · have hread : ∀ (_ : Nat) (v : Operand), (v.eval s).Revived (v.eval s.quiet) := by
      intro _ v
      rw [eval_quiet]
      exact .same _
    have hperform := unnoticed_quiet.perform hread (fun _ _ v => s.eval_quiet v) htouches
    have hsame : operation.withoutFilter = operation := by
      cases operation with
      | installLogging => simp [Operation.touches] at htouches
      | _ => rfl
    rw [Operation.mapOperands_self] at hperform
    rw [hsame, hperform]
    exact Prod.ext rfl (quiet_quiet _)
  · cases operation with
    | free operand =>
        cases operand with
        | none => exact Prod.ext rfl s.quiet_quiet
        | some operand =>
            have hfree : s.quiet.free operand = (s.free operand).map id quiet := by
              cases operand <;> rfl
            exact (congrArg (Prod.map id quiet) hfree).trans (Prod.ext rfl (quiet_quiet _))
    | configure value => exact Prod.ext rfl s.quiet_quiet
    | start =>
        refine Prod.ext rfl ?_
        show s.quiet.start.quiet = s.start.quiet
        rw [quiet_start, quiet_start, quiet_quiet]
    | installLogging config =>
        refine Prod.ext (congrArg (Except.ok ∘ Answer.flag) Option.isNone_map) ?_
        show (s.quiet.installLogging _).2.quiet = (s.installLogging config).2.quiet
        rw [quiet_installLogging, quiet_installLogging, quiet_quiet]
    | _ => exact absurd (by simp [Operation.touches]) htouches

/-! ## Steps and runs -/

theorem quiet_keep (s : Session) (name : Option String) (answer : Answer) :
    (s.keep name answer).quiet = s.quiet.keep name answer := by
  cases answer with
  | value v => cases name <;> rfl
  | _ => rfl

/-- Sessions that are alike but for the log take the same step alike. -/
theorem step_alike {s t : Session} (h : s.quiet = t.quiet) {step step' : Step}
    (hstep : step.withoutFilter = step'.withoutFilter) :
    (s.step step).map id quiet = (t.step step').map id quiet := by
  obtain ⟨operation, keep⟩ := step
  obtain ⟨operation', keep'⟩ := step'
  obtain ⟨hoperation, rfl⟩ := Step.mk.inj hstep
  have hperform : (s.perform operation).map id quiet = (t.perform operation').map id quiet := by
    calc (s.perform operation).map id quiet
        = (s.quiet.perform operation.withoutFilter).map id quiet := (s.perform_quiet operation).symm
      _ = (t.quiet.perform operation'.withoutFilter).map id quiet := by rw [h, hoperation]
      _ = (t.perform operation').map id quiet := t.perform_quiet operation'
  unfold Session.step
  dsimp only
  rcases hs : s.perform operation with ⟨result, u⟩
  rcases ht : t.perform operation' with ⟨result', u'⟩
  rw [hs, ht] at hperform
  obtain ⟨rfl, hu⟩ := Prod.mk.inj hperform
  cases result with
  | error fault => exact Prod.ext rfl hu
  | ok answer =>
      refine Prod.ext rfl ?_
      show (u.keep keep answer).quiet = (u'.keep keep answer).quiet
      rw [quiet_keep, quiet_keep, hu]

end Session

structure Report.Alike (r r' : Report) : Prop where
  answers : r.answers = r'.answers
  fault : r.fault = r'.fault
  final : r.final.quiet = r'.final.quiet

namespace Session

theorem run_alike {s t : Session} (h : s.quiet = t.quiet) {program program' : List Step}
    (hprogram : program.map Step.withoutFilter = program'.map Step.withoutFilter) :
    (s.run program).Alike (t.run program') := by
  have hg := unnoticed_quiet
  induction program generalizing s t program' with
  | nil =>
      obtain rfl := List.map_eq_nil_iff.1 hprogram.symm
      refine ⟨rfl, rfl, ?_⟩
      show s.exit.quiet = t.exit.quiet
      rw [← hg.exit, ← hg.exit, h]
  | cons step program ih =>
      cases program' with
      | nil => cases hprogram
      | cons step' program' =>
          obtain ⟨hstep, hrest⟩ := List.cons_eq_cons.1 hprogram
          have halike := step_alike h hstep
          rw [run, run]
          rcases hs : s.step step with ⟨result, u⟩
          rcases ht : t.step step' with ⟨result', u'⟩
          rw [hs, ht] at halike
          obtain ⟨rfl, hu⟩ := Prod.mk.inj halike
          cases result with
          | error fault =>
              refine ⟨rfl, rfl, ?_⟩
              show (u.terminate fault).quiet = (u'.terminate fault).quiet
              rw [← hg.terminate, ← hg.terminate, hu]
          | ok answer =>
              have hrun := ih hu hrest
              exact ⟨congrArg (answer :: ·) hrun.answers, hrun.fault, hrun.final⟩

/-- Logging does not interfere. Two runs of a program, with any two values of the log variable at
the start and with any filters in the place of those that the program installs, give the same
answers and the same fault, and so the same exit status. They leave the same bytes on standard
output, the same files, the same unread input and the same lines on standard error that are no
shown events. -/
theorem logging_does_not_interfere (s : Session) (value value' : Option Bytes)
    {program program' : List Step}
    (hprogram : program.map Step.withoutFilter = program'.map Step.withoutFilter) :
    let report := Session.run { s with logVariable := value } program
    let report' := Session.run { s with logVariable := value' } program'
    report.answers = report'.answers ∧
    report.fault = report'.fault ∧
    report.exitStatus = report'.exitStatus ∧
    report.outputBytes = report'.outputBytes ∧
    report.final.files = report'.final.files ∧
    report.final.input = report'.final.input ∧
    report.final.notices.filter (!·.isEvent) = report'.final.notices.filter (!·.isEvent) := by
  intro report report'
  have hquiet : quiet { s with logVariable := value } = quiet { s with logVariable := value' } :=
    rfl
  have halike : report.Alike report' := run_alike hquiet hprogram
  have hexit : report.exitStatus = report'.exitStatus := by
    rw [Report.exitStatus, Report.exitStatus, halike.fault]
  have houtput := congrArg (Output.bytes ∘ Session.output) halike.final
  have hfiles := congrArg Session.files halike.final
  have hinput := congrArg Session.input halike.final
  have hnotices := congrArg Session.notices halike.final
  exact ⟨halike.answers, halike.fault, hexit, houtput, hfiles, hinput, hnotices⟩

/-- The same program with a filter that shows everything, in an environment that asks for
nothing, and with a filter that cannot be read, in one that asks for everything. -/
theorem logging_does_not_interfere_with_fault :
    let program (filter : String) : List Step :=
      [⟨.installLogging ⟨filter⟩, none⟩, ⟨.start, none⟩, ⟨.loadFile (.bytes (ascii "f")), none⟩,
        ⟨.print (.bool true) true, none⟩, ⟨.unary .length (.int 5), none⟩]
    let report := Session.run { logVariable := none } (program "trace")
    let report' := Session.run { logVariable := some (ascii "trace") } (program "yaf_runtime=loud")
    report.final.notices ≠ report'.final.notices ∧
      report.answers = report'.answers ∧ report.exitStatus = report'.exitStatus ∧
      report.outputBytes = report'.outputBytes := by
  intro program report report'
  have hprogram : (program "trace").map Step.withoutFilter =
      (program "yaf_runtime=loud").map Step.withoutFilter := rfl
  obtain ⟨hanswers, -, hexit, houtput, -⟩ :=
    logging_does_not_interfere {} none (some (ascii "trace")) hprogram
  exact ⟨by decide +kernel, hanswers, hexit, houtput⟩

end Session

end Tagged
