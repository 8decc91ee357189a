import Tagged.Session.Run

/-!
# Traces

A trace is the part of a run that goes without a fault. `Session.Performs` relates the
session before it, its steps, their answers and the session behind it. Every run is a trace,
followed either by the end of the program or by a step that faults.
-/

namespace Tagged.Session

/-- A step that does not fault performs its operation and keeps the answer. -/
theorem exists_perform_of_step {s t : Session} {step : Step} {answer : Answer}
    (h : s.step step = (.ok answer, t)) :
    ∃ u, s.perform step.operation = (.ok answer, u) ∧ t = u.keep step.keep answer := by
  unfold Session.step at h
  split at h
  next value u hperform =>
    cases h
    exact ⟨u, hperform, rfl⟩
  next => cases h

/-- The steps are performed one after the other from the first session, give these answers,
and leave the last session. -/
inductive Performs : Session → List Step → List Answer → Session → Prop
  | nil (s : Session) : Performs s [] [] s
  | cons {s t u : Session} {step : Step} {steps : List Step} {answer : Answer}
      {answers : List Answer} (hstep : s.step step = (.ok answer, t))
      (hrest : Performs t steps answers u) :
      Performs s (step :: steps) (answer :: answers) u

namespace Performs

/-- A run goes through its trace and continues from the session behind it. -/
theorem run_append {s t : Session} {steps : List Step} {answers : List Answer}
    (h : Performs s steps answers t) (rest : List Step) :
    s.run (steps ++ rest) =
      { t.run rest with answers := answers ++ (t.run rest).answers } := by
  induction h with
  | nil => rfl
  | cons hstep _ ih =>
      rw [List.cons_append, run]
      simp only [hstep, ih, List.cons_append]

theorem run_eq {s t : Session} {steps : List Step} {answers : List Answer}
    (h : Performs s steps answers t) : s.run steps = ⟨answers, none, t.exit⟩ := by
  have hrun := h.run_append []
  simpa [run] using hrun

/-- A fault behind a trace ends the run there, whatever steps follow. -/
theorem run_fault {s t u : Session} {steps : List Step} {answers : List Answer}
    (h : Performs s steps answers t) {step : Step} {fault : Fault}
    (hstep : t.step step = (.error fault, u)) (rest : List Step) :
    s.run (steps ++ step :: rest) = ⟨answers, some fault, u.terminate fault⟩ := by
  have hrun : t.run (step :: rest) = ⟨[], some fault, u.terminate fault⟩ := by
    rw [run]
    simp only [hstep]
  rw [h.run_append, hrun, List.append_nil]

/-- What every step keeps holds behind a trace, and what every step gives holds of its answers. -/
theorem invariant {P : Session → Prop} {Q : Answer → Prop}
    (hstep : ∀ {s step answer t}, P s → s.step step = (.ok answer, t) → Q answer ∧ P t)
    {s t : Session} {steps : List Step} {answers : List Answer}
    (h : Performs s steps answers t) (hs : P s) : (∀ answer ∈ answers, Q answer) ∧ P t := by
  induction h with
  | nil => exact ⟨by simp, hs⟩
  | cons hfirst _ ih =>
      obtain ⟨hanswer, hnext⟩ := hstep hs hfirst
      obtain ⟨hanswers, hlast⟩ := ih hnext
      exact ⟨by simpa using ⟨hanswer, hanswers⟩, hlast⟩

end Performs

structure Performed where
  before : Session
  operation : Operation
  answer : Answer

def performed (s : Session) : List Step → List Performed
  | [] => []
  | step :: rest =>
    match s.step step with
    | (.ok answer, t) => ⟨s, step.operation, answer⟩ :: t.performed rest
    | (.error _, _) => []

theorem performed_of_ok {s t : Session} {step : Step} {answer : Answer}
    (h : s.step step = (.ok answer, t)) (rest : List Step) :
    s.performed (step :: rest) = ⟨s, step.operation, answer⟩ :: t.performed rest := by
  rw [performed, h]

theorem performed_of_error {s t : Session} {step : Step} {fault : Fault}
    (h : s.step step = (.error fault, t)) (rest : List Step) :
    s.performed (step :: rest) = [] := by
  rw [performed, h]

/-- The steps that a run performs are the first ones of the program, one for each answer, and
all of them unless there is a fault. -/
theorem performed_answers (s : Session) (program : List Step) :
    (s.performed program).map Performed.answer = (s.run program).answers ∧
      (s.performed program).map Performed.operation <+: program.map Step.operation ∧
      ((s.run program).fault = none →
        (s.performed program).map Performed.operation = program.map Step.operation) := by
  induction program generalizing s with
  | nil => exact ⟨rfl, List.nil_prefix, fun _ => rfl⟩
  | cons step program ih =>
      rw [run]
      split
      next answer t hstep =>
        obtain ⟨hanswers, hprefix, hall⟩ := ih t
        rw [performed_of_ok hstep, List.map_cons, List.map_cons, List.map_cons,
          List.cons_prefix_cons]
        refine ⟨congrArg (answer :: ·) hanswers, ⟨rfl, hprefix⟩, ?_⟩
        intro hfault
        exact congrArg (step.operation :: ·) (hall hfault)
      next fault t hstep =>
        rw [performed_of_error hstep]
        refine ⟨rfl, List.nil_prefix, ?_⟩
        rintro ⟨⟩

/-- The program comes to the session after some of its steps, or after none. -/
def Reaches (s : Session) (program : List Step) (t : Session) : Prop :=
  ∃ before after answers, program = before ++ after ∧ s.Performs before answers t

end Tagged.Session
