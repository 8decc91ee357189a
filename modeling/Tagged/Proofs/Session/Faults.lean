import Tagged.Proofs.Session.Frame
import Tagged.Proofs.Session.Trace

/-!
# Faults

Which operations are strict, what they demand of their operands, and in which order. A step
faults exactly if a demand is not met, the fault names the first one that is not, and the
session is then left as it was.
-/

namespace Tagged

/-- What an operation demands of its operands, in the order in which it looks at them, and
the name that it gives itself in a fault. -/
structure Demands where
  operation : String
  operands : List (Operand × Tag)

/-- The fault of the first operand that has another tag than the demanded one. -/
def Demands.fault? (s : Session) (d : Demands) : Option Fault :=
  (d.operands.find? fun (v, expected) => (v.eval s).tag ≠ expected).map
    fun (v, expected) => ⟨d.operation, expected, (v.eval s).tag⟩

namespace Operation

/-- The strict operations. Every other one takes operands of any tag. -/
def demands : Operation → Option Demands
  | .unary .length v => some ⟨"string_length", [(v, .string)]⟩
  | .unary .upper v => some ⟨"string_upper", [(v, .string)]⟩
  | .unary .lower v => some ⟨"string_lower", [(v, .string)]⟩
  | .unary .stringToInt v => some ⟨"string_to_int", [(v, .string)]⟩
  | .unary .intToString v => some ⟨"int_to_string", [(v, .int)]⟩
  | .loadFile path => some ⟨"read_file", [(path, .string)]⟩
  | .saveFile path content => some ⟨"write_file", [(path, .string), (content, .string)]⟩
  | .fileExists path => some ⟨"file_exists", [(path, .string)]⟩
  | .inputPrompt prompt => some ⟨"input_prompt", [(prompt, .string)]⟩
  | .validate v expected operation => some ⟨operation, [(v, expected)]⟩
  | .expectText v operation => some ⟨operation, [(v, .string)]⟩
  | .expectInt v operation => some ⟨operation, [(v, .int)]⟩
  | _ => none

def fault? (s : Session) : Operation → Option Fault
  | .fatal fault => some fault
  | operation => operation.demands.bind (Demands.fault? s)

end Operation

namespace Value

theorem expectText_of_tag_ne {v : Value} (h : v.tag ≠ .string) (operation : String) :
    v.expectText operation = .error ⟨operation, .string, v.tag⟩ := by
  cases v with
  | string text => exact absurd rfl h
  | _ => rfl

theorem expectInt_of_tag_ne {v : Value} (h : v.tag ≠ .int) (operation : String) :
    v.expectInt operation = .error ⟨operation, .int, v.tag⟩ := by
  cases v with
  | int n => exact absurd rfl h
  | _ => rfl

end Value

namespace Demands

theorem fault?_of_tag_ne {s : Session} {v : Operand} {expected : Tag}
    (h : (v.eval s).tag ≠ expected) (operation : String) (rest : List (Operand × Tag)) :
    fault? s ⟨operation, (v, expected) :: rest⟩ =
      some ⟨operation, expected, (v.eval s).tag⟩ := by
  simp [fault?, h]

theorem fault?_of_tag_eq {s : Session} {v : Operand} {expected : Tag}
    (h : (v.eval s).tag = expected) (operation : String) (rest : List (Operand × Tag)) :
    fault? s ⟨operation, (v, expected) :: rest⟩ = fault? s ⟨operation, rest⟩ := by
  simp [fault?, h]

end Demands

/-- An operation answers as its demands say: with their fault and an unchanged session, or,
where all of them are met, without a fault. -/
def Session.FaultsAs (s : Session) (fault? : Option Fault)
    (outcome : Except Fault Answer × Session) : Prop :=
  match fault? with
  | some fault => outcome = (.error fault, s)
  | none => ∃ answer t, outcome = (.ok answer, t)

namespace Session

namespace FaultsAs

/-- The first demand decides, if it is not met, and leaves it to the others, if it is. -/
theorem of_tag {s : Session} {v : Operand} {expected : Tag} {operation : String}
    {rest : List (Operand × Tag)} {outcome : Except Fault Answer × Session}
    (hne : (v.eval s).tag ≠ expected →
      outcome = (.error ⟨operation, expected, (v.eval s).tag⟩, s))
    (heq : (v.eval s).tag = expected →
      s.FaultsAs (Demands.fault? s ⟨operation, rest⟩) outcome) :
    s.FaultsAs (Demands.fault? s ⟨operation, (v, expected) :: rest⟩) outcome := by
  by_cases htag : (v.eval s).tag = expected
  · rw [Demands.fault?_of_tag_eq htag]
    exact heq htag
  · rw [Demands.fault?_of_tag_ne htag]
    exact hne htag

theorem of_text {s : Session} {v : Operand} {operation : String}
    {rest : List (Operand × Tag)} {outcome : Except Fault Answer × Session}
    (herror : ∀ fault, (v.eval s).expectText operation = .error fault →
      outcome = (.error fault, s))
    (hok : ∀ text, v.eval s = .string text →
      s.FaultsAs (Demands.fault? s ⟨operation, rest⟩) outcome) :
    s.FaultsAs (Demands.fault? s ⟨operation, (v, .string) :: rest⟩) outcome := by
  apply of_tag
  · intro hne
    exact herror _ (Value.expectText_of_tag_ne hne operation)
  · intro heq
    obtain ⟨text, htext⟩ := Value.exists_eq_string heq
    exact hok text htext

theorem of_int {s : Session} {v : Operand} {operation : String}
    {rest : List (Operand × Tag)} {outcome : Except Fault Answer × Session}
    (herror : ∀ fault, (v.eval s).expectInt operation = .error fault →
      outcome = (.error fault, s))
    (hok : ∀ n, v.eval s = .int n →
      s.FaultsAs (Demands.fault? s ⟨operation, rest⟩) outcome) :
    s.FaultsAs (Demands.fault? s ⟨operation, (v, .int) :: rest⟩) outcome := by
  apply of_tag
  · intro hne
    exact herror _ (Value.expectInt_of_tag_ne hne operation)
  · intro heq
    obtain ⟨n, hn⟩ := Value.exists_eq_int heq
    exact hok n hn

end FaultsAs

theorem perform_unary (s : Session) (op : UnaryOp) (v : Operand) :
    s.FaultsAs (Operation.fault? s (.unary op v)) (s.perform (.unary op v)) := by
  cases op with
  | stringToInt | length | upper | lower =>
      refine FaultsAs.of_text (fun fault h => ?_) (fun text h => ?_)
      · simp only [perform, UnaryOp.apply, Value.stringToInt, Value.length, Value.upper,
          Value.lower, h]
        rfl
      · rw [perform, h]
        exact ⟨_, _, rfl⟩
  | intToString =>
      refine FaultsAs.of_int (fun fault h => ?_) (fun n h => ?_)
      · simp only [perform, UnaryOp.apply, Value.intToString, h]
        rfl
      · rw [perform, h]
        exact ⟨_, _, rfl⟩
  | duplicate | toText | toInt | toFloat | abs => exact ⟨_, _, rfl⟩

theorem perform_loadFile (s : Session) (path : Operand) :
    s.FaultsAs (Operation.fault? s (.loadFile path)) (s.perform (.loadFile path)) := by
  refine FaultsAs.of_text (fun fault h => ?_) (fun text h => ?_)
  · simp only [perform, loadFile, h]
    rfl
  · rw [perform, h, loadFile]
    simp only [Value.expectText]
    cases s.files.read text.bytes with
    | ok content => exact ⟨_, _, rfl⟩
    | error failure => exact ⟨_, _, rfl⟩

theorem perform_saveFile (s : Session) (path content : Operand) :
    s.FaultsAs (Operation.fault? s (.saveFile path content))
      (s.perform (.saveFile path content)) := by
  refine FaultsAs.of_text (fun fault h => ?_) (fun text h => ?_)
  · simp only [perform, saveFile, h]
    rfl
  · refine FaultsAs.of_text (fun fault h' => ?_) (fun text' h' => ?_)
    · simp only [perform, saveFile, h, h']
      rfl
    · rw [perform, h, h', saveFile]
      simp only [Value.expectText]
      cases s.files.write text.bytes text'.bytes with
      | ok files => exact ⟨_, _, rfl⟩
      | error failure => exact ⟨_, _, rfl⟩

theorem perform_faultsAs (s : Session) (operation : Operation) :
    s.FaultsAs (operation.fault? s) (s.perform operation) := by
  cases operation with
  | unary op v => exact s.perform_unary op v
  | loadFile path => exact s.perform_loadFile path
  | saveFile path content => exact s.perform_saveFile path content
  | fileExists path =>
      refine FaultsAs.of_text (fun fault h => ?_) (fun text h => ?_)
      · simp only [perform, fileExists, h]
        rfl
      · rw [perform, h]
        exact ⟨_, _, rfl⟩
  | inputPrompt prompt =>
      refine FaultsAs.of_text (fun fault h => ?_) (fun text h => ?_)
      · simp only [perform, Session.prompt, h]
        rfl
      · rw [perform, h]
        exact ⟨_, _, rfl⟩
  | expectText v operation =>
      refine FaultsAs.of_text (fun fault h => ?_) (fun text h => ?_)
      · simp only [perform, h]
        rfl
      · rw [perform, h]
        exact ⟨_, _, rfl⟩
  | expectInt v operation =>
      refine FaultsAs.of_int (fun fault h => ?_) (fun n h => ?_)
      · simp only [perform, h]
        rfl
      · rw [perform, h]
        exact ⟨_, _, rfl⟩
  | validate v expected operation =>
      apply FaultsAs.of_tag
      · intro hne
        rw [perform, Value.validate, if_neg hne]
        rfl
      · intro heq
        rw [perform, Value.validate, if_pos heq]
        exact ⟨_, _, rfl⟩
  | fatal fault => rfl
  | free operand =>
      cases operand with
      | none => exact ⟨_, _, rfl⟩
      | some operand => cases operand <;> exact ⟨_, _, rfl⟩
  | write bytes =>
      rw [perform, writeSome]
      cases s.output.write bytes with
      | mk result output => cases result <;> exact ⟨_, _, rfl⟩
  | writeAll bytes =>
      rw [perform]
      cases s.writeAll bytes with
      | mk result t => cases result <;> exact ⟨_, _, rfl⟩
  | flush =>
      rw [perform]
      cases s.flush with
      | mk result t => cases result <;> exact ⟨_, _, rfl⟩
  | _ => exact ⟨_, _, rfl⟩

theorem step_of_fault {s : Session} {step : Step} {fault : Fault}
    (h : step.operation.fault? s = some fault) : s.step step = (.error fault, s) := by
  have hperform := s.perform_faultsAs step.operation
  rw [h] at hperform
  rw [Session.step, show s.perform step.operation = (.error fault, s) from hperform]

theorem step_of_no_fault {s : Session} {step : Step} (h : step.operation.fault? s = none) :
    ∃ answer t, s.step step = (.ok answer, t) := by
  have hperform := s.perform_faultsAs step.operation
  rw [h] at hperform
  obtain ⟨answer, t, hperform⟩ := hperform
  refine ⟨answer, t.keep step.keep answer, ?_⟩
  rw [Session.step, hperform]

theorem step_error_iff (s : Session) (step : Step) (fault : Fault) :
    (s.step step).1 = .error fault ↔ step.operation.fault? s = some fault := by
  constructor
  · intro h
    cases hfault : step.operation.fault? s with
    | none =>
        obtain ⟨answer, t, hstep⟩ := step_of_no_fault hfault
        rw [hstep] at h
        cases h
    | some other =>
        rw [step_of_fault hfault] at h
        cases h
        rfl
  · intro h
    rw [step_of_fault h]

theorem eq_of_step_error {s t : Session} {step : Step} {fault : Fault}
    (h : s.step step = (.error fault, t)) : t = s := by
  have hfault := (s.step_error_iff step fault).1 (by rw [h])
  rw [step_of_fault hfault] at h
  exact (Prod.mk.inj h).2.symm

def finish (s : Session) : Option Fault → Session
  | none => s.exit
  | some fault => s.terminate fault

theorem changes_finish (s : Session) (fault : Option Fault) :
    s.Changes [.output, .errors] (s.finish fault) := by
  cases fault with
  | none => exact s.changes_exit.mono (by simp)
  | some fault => exact s.changes_terminate fault

/-- A run ends behind its steps, which are all steps of the program unless there is a fault. -/
theorem exists_finish (s : Session) (program : List Step) :
    ∃ before after t, program = before ++ after ∧
      s.Performs before (s.run program).answers t ∧ s.performed program = s.performed before ∧
      (s.run program).final = t.finish (s.run program).fault := by
  induction program generalizing s with
  | nil => exact ⟨[], [], s, rfl, .nil s, rfl, rfl⟩
  | cons step program ih =>
      rw [run]
      split
      next answer t hstep =>
        obtain ⟨before, after, u, rfl, hperforms, hperformed, hfinal⟩ := ih t
        refine ⟨step :: before, after, u, rfl, .cons hstep hperforms, ?_, hfinal⟩
        rw [performed_of_ok hstep, performed_of_ok hstep, hperformed]
      next fault t hstep =>
        refine ⟨[], step :: program, s, rfl, .nil s, performed_of_error hstep _, ?_⟩
        rw [eq_of_step_error hstep]
        rfl

/-- Whatever was performed before, a step faults exactly if it is one of the strict operations
and has an operand of another tag than demanded, and the fault is that of the first such
operand. No other step faults. The step that faults changes nothing, and the program ends as
it would have ended before the step, standard error aside. -/
theorem step_faults_iff_unmet_demand {s₀ s : Session} {before : List Step} {answers : List Answer}
    (hbefore : s₀.Performs before answers s) (step : Step) (after : List Step) :
    (∀ fault, (s.step step).1 = .error fault ↔ step.operation.fault? s = some fault) ∧
    (step.operation.demands = none → (∀ fault, step.operation ≠ .fatal fault) →
      ∃ answer, (s.step step).1 = .ok answer) ∧
    ∀ fault, (s.step step).1 = .error fault →
      (s.step step).2 = s ∧
      (s₀.run (before ++ step :: after)).answers = answers ∧
      (s₀.run (before ++ step :: after)).fault = some fault ∧
      (s₀.run (before ++ step :: after)).final =
        { (s₀.run before).final with
          notices := (s₀.run (before ++ step :: after)).final.notices } := by
  refine ⟨s.step_error_iff step, ?_, ?_⟩
  · intro hdemands hfatal
    have hnone : step.operation.fault? s = none := by
      unfold Operation.fault?
      split
      next fault heq => exact absurd heq (hfatal fault)
      next => rw [hdemands, Option.bind_none]
    obtain ⟨answer, t, hstep⟩ := step_of_no_fault hnone
    exact ⟨answer, by rw [hstep]⟩
  · intro fault herror
    have hstep := step_of_fault ((s.step_error_iff step fault).1 herror)
    rw [hbefore.run_fault hstep after, hbefore.run_eq]
    exact ⟨by rw [hstep], rfl, rfl, s.terminate_eq fault⟩

/-- A write of a number to a file: the path is in order, the content is not, and the file
is not created. -/
theorem saveFile_faults_on_unmet_demand :
    let store : Step := { operation := .makeInt 5, keep := some "x" }
    let save : Step := { operation := .saveFile (.bytes (ascii "f")) (.named "x") }
    let fault : Fault := ⟨"write_file", .string, .int⟩
    let s : Session := Session.set {} "x" (.int 5)
    Performs {} [store] [.value (.int 5)] s ∧ (s.step save).1 = .error fault ∧
      (Session.run {} ([store] ++ [save])).fault = some fault ∧
      (Session.run {} ([store] ++ [save])).final.files = {} := by
  intro store save fault s
  have hstore : Performs {} [store] [.value (.int 5)] s := .cons rfl (.nil s)
  obtain ⟨hiff, _, hatomic⟩ := step_faults_iff_unmet_demand hstore save []
  have herror : (s.step save).1 = .error fault := (hiff fault).2 (by decide)
  obtain ⟨_, _, hfault, hfinal⟩ := hatomic fault herror
  refine ⟨hstore, herror, hfault, ?_⟩
  rw [hfinal]
  rfl

end Session

end Tagged
