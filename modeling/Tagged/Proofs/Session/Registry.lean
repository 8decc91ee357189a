import Tagged.Proofs.Session.Events

/-!
# One-time registrations along a run

The log subscriber, the fault handler and the collector are each registered by the first operation
that asks for it. What is registered at some point of a run, which filter and which handler are in
force and how often the hooks were called follow from the operations performed so far, and what was
raised or called before a registration is lost for it. Nothing here depends on how filters are
written, but that the default text can be read.
-/

namespace Tagged

inductive Registration where
  | subscriber
  | handler
  | collector
deriving DecidableEq, Repr

/-- The filter that a configuration asks for, or that of the default one if its own cannot be
read. -/
def FilterLanguage.accepted? (filters : FilterLanguage) (config : LogConfig) : Option Filter :=
  (filters.parse config.filter).toOption.or (filters.parse LogConfig.default.filter).toOption

theorem FilterLanguage.accepted?_eq_some (filters : FilterLanguage) (config : LogConfig) :
    filters.accepted? config = some (filters.read config.filter).1 := by
  rw [accepted?, filters.parse_default, read]
  cases filters.parse config.filter <;> rfl

namespace Operation

def registers : Operation → Option Registration
  | .start => some .subscriber
  | .installLogging _ => some .subscriber
  | .installHandler _ => some .handler
  | .registerCollector => some .collector
  | _ => none

def installs (filters : FilterLanguage) (value : Option Bytes) : Operation → Option Filter
  | .start => filters.accepted? (.ofVariable value)
  | .installLogging config => filters.accepted? config
  | _ => none

def handler? : Operation → Option FaultHandler
  | .installHandler handler => some handler
  | _ => none

def configures (value : Option Bytes) : Operation → Option Bytes
  | .configure new => new
  | _ => value

def isCollect : Operation → Bool
  | .collect => true
  | _ => false

def isCleanUp : Operation → Bool
  | .cleanUp => true
  | _ => false

def counts (counted : Option HookCounts) : Operation → Option HookCounts
  | .registerCollector => counted.or (some {})
  | .collect => counted.map fun counts => { counts with collects := counts.collects + 1 }
  | .cleanUp => counted.map fun counts => { counts with cleanups := counts.cleanups + 1 }
  | _ => counted

theorem isSome_installs (filters : FilterLanguage) (value : Option Bytes)
    (operation : Operation) :
    (operation.installs filters value).isSome = (operation.registers == some .subscriber) := by
  cases operation with
  | start =>
      rw [installs, filters.accepted?_eq_some]
      rfl
  | installLogging config =>
      rw [installs, filters.accepted?_eq_some]
      rfl
  | _ => rfl

theorem isSome_handler? (operation : Operation) :
    operation.handler?.isSome = (operation.registers == some .handler) := by
  cases operation <;> rfl

theorem counts_some (counts : HookCounts) (operation : Operation) :
    operation.counts (some counts) = some
      ⟨counts.collects + (if operation.isCollect then 1 else 0),
        counts.cleanups + if operation.isCleanUp then 1 else 0⟩ := by
  cases operation <;> rfl

theorem isSome_counts (counted : Option HookCounts) (operation : Operation) :
    (operation.counts counted).isSome =
      (counted.isSome || operation.registers == some .collector) := by
  cases operation with
  | registerCollector | collect | cleanUp => cases counted <;> rfl
  | _ => exact (Bool.or_false _).symm

end Operation

namespace Session

/-! ## Histories -/

def isMade (r : Registration) (operations : List Operation) : Bool :=
  operations.any (·.registers == some r)

/-- The filter of the first installation, where the variable has this value at first. -/
def firstFilter (filters : FilterLanguage) (value : Option Bytes) :
    List Operation → Option Filter
  | [] => none
  | operation :: rest =>
    (operation.installs filters value).or
      (firstFilter filters (operation.configures value) rest)

def firstHandler (operations : List Operation) : Option FaultHandler :=
  operations.findSome? Operation.handler?

def hooksSince (operations : List Operation) : HookCounts :=
  let since := operations.dropWhile (·.registers != some .collector)
  ⟨since.countP Operation.isCollect, since.countP Operation.isCleanUp⟩

/-- What an operation on the registrations is answered after these operations. -/
def registryAnswer (earlier : List Operation) : Operation → Option Answer
  | .installLogging _ => some (.flag (!isMade .subscriber earlier))
  | .installHandler _ => some (.flag (!isMade .handler earlier))
  | .registerCollector => some (.flag (!isMade .collector earlier))
  | .collect => some (.hooks (hooksSince (earlier ++ [.collect])))
  | .cleanUp => some (.hooks (hooksSince (earlier ++ [.cleanUp])))
  | _ => none

def registered (s : Session) : Registration → Bool
  | .subscriber => s.subscriber.isSome
  | .handler => s.handler.isSome
  | .collector => s.collector.isSome

/-! ## Operations -/

variable {s t : Session}

theorem log_subscriber (s : Session) (e : Event) : (s.log e).subscriber = s.subscriber :=
  s.changes_log e .subscriber (by simp)

theorem installLogging_subscriber (s : Session) (config : LogConfig) :
    (s.installLogging config).2.subscriber =
      s.subscriber.or (s.filters.accepted? config) := by
  rw [FilterLanguage.accepted?_eq_some]
  unfold installLogging
  dsimp only
  split <;> cases hs : s.subscriber <;> simp [log_subscriber, hs]

theorem start_subscriber (s : Session) :
    s.start.subscriber = s.subscriber.or (s.filters.accepted? (.ofVariable s.logVariable)) := by
  rw [← installLogging_subscriber]
  unfold start
  dsimp only
  split
  · exact log_subscriber _ _
  · rfl

theorem perform_subscriber (s : Session) (operation : Operation) :
    (s.perform operation).2.subscriber =
      s.subscriber.or (operation.installs s.filters s.logVariable) := by
  by_cases htouches : Part.subscriber ∈ operation.touches
  · cases operation with
    | start => exact s.start_subscriber
    | installLogging config => exact s.installLogging_subscriber config
    | _ => simp [Operation.touches] at htouches
  · have hnone : operation.installs s.filters s.logVariable = none := by
      cases operation with
      | start | installLogging => simp [Operation.touches] at htouches
      | _ => rfl
    rw [hnone, Option.or_none]
    exact s.perform_changes operation .subscriber htouches

theorem perform_logVariable (s : Session) (operation : Operation) :
    (s.perform operation).2.logVariable = operation.configures s.logVariable := by
  by_cases htouches : Part.logVariable ∈ operation.touches
  · cases operation with
    | configure value => rfl
    | _ => simp [Operation.touches] at htouches
  · have hsame : operation.configures s.logVariable = s.logVariable := by
      cases operation with
      | configure => simp [Operation.touches] at htouches
      | _ => rfl
    rw [hsame]
    exact s.perform_changes operation .logVariable htouches

theorem perform_handler (s : Session) (operation : Operation) :
    (s.perform operation).2.handler = s.handler.or operation.handler? := by
  by_cases htouches : Part.handler ∈ operation.touches
  · cases operation with
    | installHandler handler =>
        simp only [perform, answerFlag, installHandler, Operation.handler?]
        split
        next hs => rw [hs]; rfl
        next hs => rw [hs]; rfl
    | _ => simp [Operation.touches] at htouches
  · have hnone : operation.handler? = none := by
      cases operation with
      | installHandler => simp [Operation.touches] at htouches
      | _ => rfl
    rw [hnone, Option.or_none]
    exact s.perform_changes operation .handler htouches

theorem perform_collector (s : Session) (operation : Operation) :
    (s.perform operation).2.collector = operation.counts s.collector := by
  have hlog : ∀ e, (s.log e).collector = s.collector :=
    fun e => s.changes_log e .collector (by simp)
  by_cases htouches : Part.collector ∈ operation.touches
  · cases operation with
    | registerCollector =>
        simp only [perform, answerFlag, registerCollector, Operation.counts]
        split
        next counts hs => rw [hs]; rfl
        next hs => rw [hs]; rfl
    | collect =>
        simp only [perform, collect, Operation.counts]
        split
        next counts hs => rw [hs]; rfl
        next hs => rw [hlog, hs]; rfl
    | cleanUp =>
        simp only [perform, cleanUp, Operation.counts]
        split
        next counts hs => rw [hs]; rfl
        next hs => rw [hlog, hs]; rfl
    | _ => simp [Operation.touches] at htouches
  · have hsame : operation.counts s.collector = s.collector := by
      cases operation with
      | registerCollector | collect | cleanUp => simp [Operation.touches] at htouches
      | _ => rfl
    rw [hsame]
    exact s.perform_changes operation .collector htouches

/-- A registration that was made stays, and any other is made by the operations that ask for it. -/
theorem perform_registered (s : Session) (operation : Operation) (r : Registration) :
    (s.perform operation).2.registered r =
      (s.registered r || operation.registers == some r) := by
  cases r with
  | subscriber =>
      rw [registered, perform_subscriber, Option.isSome_or, Operation.isSome_installs]
      rfl
  | handler =>
      rw [registered, perform_handler, Option.isSome_or, Operation.isSome_handler?]
      rfl
  | collector =>
      rw [registered, perform_collector, Operation.isSome_counts]
      rfl

/-! ## Steps -/

section Step

variable {step : Step} {answer : Answer}

theorem step_filters (h : s.step step = (.ok answer, t)) : t.filters = s.filters := by
  have hperform : (s.perform step.operation).2.filters = s.filters :=
    s.perform_changes step.operation .filters step.operation.filters_not_mem_touches
  rw [← hperform]
  exact changes_of_step h .filters (by simp)

theorem step_subscriber (h : s.step step = (.ok answer, t)) :
    t.subscriber = s.subscriber.or (step.operation.installs s.filters s.logVariable) := by
  rw [← perform_subscriber]
  exact changes_of_step h .subscriber (by simp)

theorem step_logVariable (h : s.step step = (.ok answer, t)) :
    t.logVariable = step.operation.configures s.logVariable := by
  rw [← perform_logVariable]
  exact changes_of_step h .logVariable (by simp)

theorem step_handler (h : s.step step = (.ok answer, t)) :
    t.handler = s.handler.or step.operation.handler? := by
  rw [← perform_handler]
  exact changes_of_step h .handler (by simp)

theorem step_collector (h : s.step step = (.ok answer, t)) :
    t.collector = step.operation.counts s.collector := by
  rw [← perform_collector]
  exact changes_of_step h .collector (by simp)

theorem step_registered (h : s.step step = (.ok answer, t)) (r : Registration) :
    t.registered r = (s.registered r || step.operation.registers == some r) := by
  have hsame := changes_of_step h
  rw [← perform_registered]
  cases r with
  | subscriber => exact congrArg Option.isSome (hsame .subscriber (by simp))
  | handler => exact congrArg Option.isSome (hsame .handler (by simp))
  | collector => exact congrArg Option.isSome (hsame .collector (by simp))

end Step

/-- The events of a step are written by the subscriber before it, or else by the one that it
installs. -/
theorem Performed.written_eq (p : Performed) :
    p.written =
      shown (p.before.subscriber.or
        (p.operation.installs p.before.filters p.before.logVariable)) p.events := by
  rw [Performed.written, perform_subscriber]

/-! ## Traces -/

namespace Performs

variable {steps : List Step} {answers : List Answer}

theorem snoc {u : Session} {step : Step} {answer : Answer} (h : s.Performs steps answers t)
    (hstep : t.step step = (.ok answer, u)) :
    s.Performs (steps ++ [step]) (answers ++ [answer]) u := by
  induction h with
  | nil s => exact .cons hstep (.nil u)
  | cons hfirst _ ih => exact .cons hfirst (ih hstep)

theorem operations (h : s.Performs steps answers t) :
    (s.performed steps).map Performed.operation = steps.map Step.operation := by
  induction h with
  | nil s => rfl
  | cons hstep _ ih => rw [performed_of_ok hstep, List.map_cons, List.map_cons, ih]

theorem registered (h : s.Performs steps answers t) (r : Registration) :
    t.registered r = (s.registered r || isMade r (steps.map Step.operation)) := by
  induction h with
  | nil s => exact (Bool.or_false _).symm
  | cons hstep _ ih =>
      rw [ih, step_registered hstep, Bool.or_assoc]
      rfl

theorem subscriber (h : s.Performs steps answers t) :
    t.subscriber =
      s.subscriber.or (firstFilter s.filters s.logVariable (steps.map Step.operation)) := by
  induction h with
  | nil s => exact (Option.or_none).symm
  | cons hstep _ ih =>
      rw [ih, step_subscriber hstep, step_logVariable hstep, step_filters hstep, Option.or_assoc]
      rfl

theorem handler (h : s.Performs steps answers t) :
    t.handler = s.handler.or (firstHandler (steps.map Step.operation)) := by
  induction h with
  | nil s => exact (Option.or_none).symm
  | @cons _ _ _ step _ _ _ hstep _ ih =>
      rw [ih, step_handler hstep, Option.or_assoc, firstHandler, firstHandler, List.map_cons,
        List.findSome?_cons]
      cases step.operation.handler? <;> rfl

/-- Every later call of a hook is counted. -/
theorem collector_of_some (h : s.Performs steps answers t) {counts : HookCounts}
    (hs : s.collector = some counts) :
    t.collector = some
      ⟨counts.collects + (steps.map Step.operation).countP Operation.isCollect,
        counts.cleanups + (steps.map Step.operation).countP Operation.isCleanUp⟩ := by
  induction h generalizing counts with
  | nil s => exact hs
  | @cons s t _ step _ _ _ hstep _ ih =>
      have hnext := step_collector hstep
      rw [hs, Operation.counts_some] at hnext
      rw [ih hnext, List.map_cons, List.countP_cons, List.countP_cons]
      simp only [Nat.add_assoc, Nat.add_comm]

/-- The hooks count from the first registration on. -/
theorem collector_of_none (h : s.Performs steps answers t) (hs : s.collector = none) :
    t.collector.getD {} = hooksSince (steps.map Step.operation) := by
  induction h with
  | nil s =>
      rw [hs]
      rfl
  | @cons s t _ step steps _ _ hstep hrest ih =>
      have hnext := step_collector hstep
      rw [hs] at hnext
      by_cases hregisters : step.operation.registers = some .collector
      · have hoperation : step.operation = .registerCollector := by
          cases hoperation : step.operation with
          | registerCollector => rfl
          | _ => simp [hoperation, Operation.registers] at hregisters
        -- the counts start at zero here, and the steps behind add to them
        rw [hoperation] at hnext
        rw [hrest.collector_of_some hnext]
        simp [hooksSince, hoperation, Operation.registers, Operation.isCollect,
          Operation.isCleanUp]
      · have hnone : t.collector = none := by
          have hsome := Operation.isSome_counts none step.operation
          rw [← hnext, beq_eq_false_iff_ne.2 hregisters] at hsome
          exact Option.isNone_iff_eq_none.1 (Option.isSome_eq_false_iff.1 hsome)
        rw [ih hnone]
        simp [hooksSince, hregisters]

/-- A subscriber hears every later event. -/
theorem written_of_some (h : s.Performs steps answers t) {filter : Filter}
    (hs : s.subscriber = some filter) :
    (s.performed steps).flatMap Performed.written =
      shown (some filter) ((s.performed steps).flatMap Performed.events) := by
  induction h with
  | nil s => rfl
  | cons hstep _ ih =>
      have hsubscriber := step_subscriber hstep
      rw [hs] at hsubscriber
      rw [performed_of_ok hstep, List.flatMap_cons, List.flatMap_cons, shown_append,
        Performed.written_eq, hs, ih hsubscriber]
      rfl

/-- The first subscriber hears the events from its installation on, and none before it. -/
theorem written_of_none (h : s.Performs steps answers t) (hs : s.subscriber = none) :
    (s.performed steps).flatMap Performed.written =
      shown (firstFilter s.filters s.logVariable (steps.map Step.operation))
        (((s.performed steps).dropWhile (·.operation.registers != some .subscriber)).flatMap
          Performed.events) := by
  induction h with
  | nil s => rfl
  | @cons s t _ step steps answer _ hstep hrest ih =>
      have hsubscriber := step_subscriber hstep
      have hnot : (step.operation.registers != some .subscriber) =
          (step.operation.installs s.filters s.logVariable).isNone := by
        rw [bne, ← Operation.isSome_installs s.filters s.logVariable, Option.not_isSome]
      rw [hs, Option.none_or] at hsubscriber
      rw [performed_of_ok hstep, List.flatMap_cons, Performed.written_eq, hs, Option.none_or,
        List.map_cons, firstFilter, List.dropWhile_cons]
      dsimp only
      rw [hnot]
      cases hinstalls : step.operation.installs s.filters s.logVariable with
      | none =>
          rw [hinstalls] at hsubscriber
          rw [ih hsubscriber, step_logVariable hstep, step_filters hstep]
          rfl
      | some filter =>
          -- the subscriber hears the step that installs it, and its filter stays from here on
          rw [hinstalls] at hsubscriber
          rw [hrest.written_of_some hsubscriber]
          exact (shown_append _ _ _).symm

end Performs

/-! ## Programs -/

structure Fresh (s : Session) : Prop where
  registered : ∀ r, s.registered r = false
  notices : s.notices = []

namespace Fresh

variable {steps : List Step} {answers : List Answer}

theorem subscriber (hs : s.Fresh) : s.subscriber = none :=
  Option.not_isSome_iff_eq_none.1 (ne_true_of_eq_false (hs.registered .subscriber))

theorem handler (hs : s.Fresh) : s.handler = none :=
  Option.not_isSome_iff_eq_none.1 (ne_true_of_eq_false (hs.registered .handler))

theorem collector (hs : s.Fresh) : s.collector = none :=
  Option.not_isSome_iff_eq_none.1 (ne_true_of_eq_false (hs.registered .collector))

theorem isMade (hs : s.Fresh) (h : s.Performs steps answers t) (r : Registration) :
    t.registered r = isMade r (steps.map Step.operation) := by
  rw [h.registered, hs.registered, Bool.false_or]

theorem firstFilter (hs : s.Fresh) (h : s.Performs steps answers t) :
    t.subscriber = firstFilter s.filters s.logVariable (steps.map Step.operation) := by
  rw [h.subscriber, hs.subscriber, Option.none_or]

theorem firstHandler (hs : s.Fresh) (h : s.Performs steps answers t) :
    t.handler = firstHandler (steps.map Step.operation) := by
  rw [h.handler, hs.handler, Option.none_or]

/-- The hook that is called last is counted as well. -/
theorem hooks (hs : s.Fresh) (h : s.Performs steps answers t) {operation : Operation}
    {keep : Option String} {u : Session}
    (hstep : t.step ⟨operation, keep⟩ = (.ok (.hooks (u.collector.getD {})), u)) :
    (t.step ⟨operation, keep⟩).1 =
      .ok (.hooks (hooksSince (steps.map Step.operation ++ [operation]))) := by
  have hcounts := (h.snoc hstep).collector_of_none hs.collector
  rw [List.map_append] at hcounts
  rw [hstep, hcounts]
  rfl

theorem answer (hs : s.Fresh) (h : s.Performs steps answers t) {step : Step} {answer : Answer}
    (hanswer : registryAnswer (steps.map Step.operation) step.operation = some answer) :
    (t.step step).1 = .ok answer := by
  obtain ⟨operation, keep⟩ := step
  cases operation with
  | installLogging config =>
      cases hanswer
      rw [← hs.isMade h]
      show Except.ok (Answer.flag t.subscriber.isNone) = .ok (.flag (!t.subscriber.isSome))
      rw [Option.not_isSome]
  | installHandler handler =>
      cases hanswer
      rw [← hs.isMade h]
      show (t.step ⟨.installHandler handler, keep⟩).1 = .ok (.flag (!t.handler.isSome))
      simp only [step, perform, installHandler]
      cases t.handler <;> rfl
  | registerCollector =>
      cases hanswer
      rw [← hs.isMade h]
      show (t.step ⟨.registerCollector, keep⟩).1 = .ok (.flag (!t.collector.isSome))
      simp only [step, perform, registerCollector]
      cases t.collector <;> rfl
  | collect =>
      cases hanswer
      exact hs.hooks h rfl
  | cleanUp =>
      cases hanswer
      exact hs.hooks h rfl
  | _ => cases hanswer

theorem run_notices (hs : s.Fresh) (program : List Step) :
    let done := s.performed program
    let operations := done.map Performed.operation
    let heard := done.dropWhile (·.operation.registers != some .subscriber)
    let fault := (s.run program).fault.toList
    (s.run program).final.notices.reverse =
      (shown (Session.firstFilter s.filters s.logVariable operations)
          (heard.flatMap Performed.events ++ fault.map Event.fault)).map Notice.event ++
        handled (Session.firstHandler operations) fault ++ fault.map Notice.terminated := by
  intro done operations heard fault
  obtain ⟨before, after, t, -, hperforms, hdone, hfinal⟩ := s.exists_finish program
  have hoperations : operations = before.map Step.operation := by
    rw [← hperforms.operations, ← hdone]
  have hnotices : t.notices.reverse =
      (shown (Session.firstFilter s.filters s.logVariable operations)
        (heard.flatMap Performed.events)).map Notice.event := by
    rw [hperforms.notices, hs.notices, hperforms.written_of_none hs.subscriber, ← hoperations,
      ← hdone]
    rfl
  rw [hfinal, finish_notices, hnotices, hs.firstFilter hperforms, hs.firstHandler hperforms,
    ← hoperations, shown_append, List.map_append]

end Fresh

/-- The first registration of each kind wins for ever. Of the operations that install a subscriber,
set the handler or register a collector exactly the first of its kind is accepted, and the hooks
count from the first registration of a collector on. The filter in force is that of the first
installation, the default one if its own cannot be read, the handler in force is the first one set,
and no later operation changes them. On standard error stand, in their order, those events that this
filter shows, out of those that were raised from the installation on, and nothing else but the
handler's line and the text of a fault. -/
theorem first_registration_wins {s : Session} (hs : s.Fresh) :
    (∀ before answers t, s.Performs before answers t →
      let earlier := before.map Step.operation
      (∀ r, t.registered r = isMade r earlier) ∧
      (∀ step answer, registryAnswer earlier step.operation = some answer →
        (t.step step).1 = .ok answer) ∧
      t.subscriber = firstFilter s.filters s.logVariable earlier ∧
      t.handler = firstHandler earlier ∧
      ∀ rest more u, t.Performs rest more u →
        (t.registered .subscriber = true → u.subscriber = t.subscriber) ∧
        (t.registered .handler = true → u.handler = t.handler)) ∧
    ∀ program,
      let done := s.performed program
      let operations := done.map Performed.operation
      let heard := done.dropWhile (·.operation.registers != some .subscriber)
      let fault := (s.run program).fault.toList
      (s.run program).final.notices.reverse =
        (shown (firstFilter s.filters s.logVariable operations)
            (heard.flatMap Performed.events ++ fault.map Event.fault)).map Notice.event ++
          handled (firstHandler operations) fault ++ fault.map Notice.terminated := by
  refine ⟨?_, hs.run_notices⟩
  intro before answers t h earlier
  refine ⟨hs.isMade h, fun step answer => hs.answer h, hs.firstFilter h, hs.firstHandler h, ?_⟩
  intro rest more u hrest
  constructor
  · intro hregistered
    rw [hrest.subscriber, Option.or_of_isSome hregistered]
  · intro hregistered
    rw [hrest.handler, Option.or_of_isSome hregistered]

/-- A hook call and an event before the registrations are lost, a filter that cannot be read is
replaced by the default one, and a later filter and a later handler are refused. -/
theorem first_registration_wins_with_unreadable_filter :
    let s : Session := { logVariable := some (ascii "trace") }
    let fault : Fault := ⟨"op", .int, .bool⟩
    let first : FaultHandler := ⟨fun f => "first: " ++ f.message⟩
    let second : FaultHandler := ⟨fun f => "second: " ++ f.message⟩
    let before : List Step :=
      [⟨.collect, none⟩, ⟨.installLogging ⟨"yaf_runtime=loud"⟩, none⟩, ⟨.start, none⟩,
        ⟨.registerCollector, none⟩, ⟨.collect, none⟩, ⟨.installHandler first, none⟩]
    let program := before ++
      [⟨.installHandler second, none⟩, ⟨.collect, none⟩, ⟨.fatal fault, none⟩]
    s.Fresh ∧ registryAnswer (before.map Step.operation) .collect = some (.hooks ⟨2, 0⟩) ∧
      (∃ answers t, s.Performs before answers t ∧
        (t.step ⟨.collect, none⟩).1 = .ok (.hooks ⟨2, 0⟩) ∧
        (t.step ⟨.installHandler second, none⟩).1 = .ok (.flag false) ∧
        t.subscriber = some s.filters.fallback ∧ t.handler = some first) ∧
      (s.run program).final.notices.reverse =
        [.event (.filterRejected Directive.unknownLevel "yaf_runtime=loud"),
          .event (.fault fault), .handled (first.report fault), .terminated fault] := by
  intro s fault first second before program
  have hs : s.Fresh := ⟨fun r => by cases r <;> rfl, rfl⟩
  obtain ⟨htraces, hnotices⟩ := first_registration_wins hs
  refine ⟨hs, by decide +kernel, ?_, ?_⟩
  · have hperforms : s.Performs before _ _ :=
      .cons rfl (.cons rfl (.cons rfl (.cons rfl (.cons rfl (.cons rfl (.nil _))))))
    obtain ⟨-, hanswer, hfilter, hhandler, -⟩ := htraces _ _ _ hperforms
    exact ⟨_, _, hperforms, hanswer _ _ (by decide +kernel), hanswer _ _ (by decide +kernel),
      hfilter.trans rfl, hhandler.trans rfl⟩
  · rw [hnotices program]
    decide +kernel

end Session

end Tagged
