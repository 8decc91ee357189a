import Tagged.Proofs.Session.Faults
import Tagged.Proofs.Session.Unnoticed

/-!
# Events along a run

`Session.raised` names the events that an operation raises. The subscriber that is in force writes
those of them that its filter shows to standard error, at once and in their order, and without a
subscriber none of them is written, then or later. So standard error holds the events of the steps
one behind the other, and after a fault the text of the fault.
-/

namespace Tagged

namespace Session

/-- The events that a subscriber writes, out of those that it is told. -/
def shown : Option Filter → List Event → List Event
  | some filter, events => events.filter filter.shows
  | none, _ => []

theorem shown_append (subscriber : Option Filter) (events more : List Event) :
    shown subscriber (events ++ more) = shown subscriber events ++ shown subscriber more := by
  cases subscriber with
  | none => rfl
  | some filter => exact List.filter_append events more

def handled : Option FaultHandler → List Fault → List Notice
  | some handler, faults => faults.map (.handled ∘ handler.report)
  | none, _ => []

/-- From the first session to the second these events are raised. The subscriber of the second
one hears them all, and nothing else is written to standard error. -/
structure Reports (s : Session) (filter : Option Filter) (events : List Event)
    (t : Session) : Prop where
  subscriber : t.subscriber = filter
  notices : t.notices = ((shown filter events).map Notice.event).reverse ++ s.notices

namespace Reports

variable {s t u : Session} {filter : Option Filter} {events more : List Event}

theorem of_eq (hsubscriber : t.subscriber = filter) (hnotices : t.notices = s.notices) :
    s.Reports filter [] t := by
  refine ⟨hsubscriber, ?_⟩
  cases filter <;> exact hnotices

theorem refl (s : Session) : s.Reports s.subscriber [] s := of_eq rfl rfl

theorem trans (h : s.Reports filter events t) (hmore : t.Reports filter more u) :
    s.Reports filter (events ++ more) u := by
  refine ⟨hmore.subscriber, ?_⟩
  rw [hmore.notices, h.notices, shown_append, List.map_append, List.reverse_append,
    List.append_assoc]

theorem self (h : s.Reports filter events t) : s.Reports t.subscriber events t := by
  rw [h.subscriber]
  exact h

/-- One more event is raised. -/
theorem log (h : s.Reports filter events t) (e : Event) :
    s.Reports filter (events ++ [e]) (t.log e) := by
  refine h.trans ⟨?_, ?_⟩
  · rw [log_eq]
    exact h.subscriber
  · unfold Session.log
    rw [h.subscriber]
    cases filter with
    | none => rfl
    | some filter =>
        dsimp only
        split
        next hshown => simp [shown, hshown]
        next hshown => simp [shown, hshown]

end Reports

/-! ## The events of an operation -/

def failureEvents {α : Type} (event : Failure → Event) : Except Failure α → List Event
  | .ok _ => []
  | .error failure => [event failure]

def loadEvents (files : FileTree) : Value → List Event
  | .string path => failureEvents (.readFailed path.bytes) (files.read path.bytes)
  | _ => []

def saveEvents (files : FileTree) : Value → Value → List Event
  | .string path, .string content =>
    failureEvents (.writeFailed path.bytes) (files.write path.bytes content.bytes)
  | _, _ => []

def lineEvents (input : Reader Failure) : List Event :=
  match (input.line inputLimit).1 with
  | .ok (some line) => (line.truncation.map fun cut => .lineTruncated cut.length cut.kept).toList
  | .ok none => []
  | .error failure => [.inputFailed failure]

def showEvents (output : Output) (prompt : Bytes) : List Event :=
  match output.writeAll prompt with
  | (.ok (), output) => failureEvents .promptFailed output.flush.1
  | (.error failure, _) => [.promptFailed failure]

def promptEvents (output : Output) (input : Reader Failure) : Value → List Event
  | .string prompt => showEvents output prompt.bytes ++ lineEvents input
  | _ => []

def sleepEvents (duration : Value) : List Event :=
  if (duration? duration).isNone then [.sleepNotNumeric duration.tag] else []

def filterEvents (filters : FilterLanguage) (config : LogConfig) : List Event :=
  match filters.parse config.filter with
  | .ok _ => []
  | .error reason => [.filterRejected reason config.filter]

/-- Only a start that installs the subscriber is reported. -/
def startEvents (filters : FilterLanguage) (subscriber : Option Filter) (config : LogConfig) :
    List Event :=
  filterEvents filters config ++ if subscriber.isNone then [.started config.filter] else []

def raised (s : Session) : Operation → List Event
  | .loadFile path => loadEvents s.files (path.eval s)
  | .saveFile path content => saveEvents s.files (path.eval s) (content.eval s)
  | .input => lineEvents s.input
  | .inputPrompt prompt => promptEvents s.output s.input (prompt.eval s)
  | .sleep duration => sleepEvents (duration.eval s)
  | .start => startEvents s.filters s.subscriber (.ofVariable s.logVariable)
  | .installLogging config => filterEvents s.filters config
  | .collect => if s.collector.isNone then [.nothingToCollect] else []
  | .cleanUp => if s.collector.isNone then [.nothingToCleanUp] else []
  | _ => []

variable {s t : Session}

theorem reports_loadFile (s : Session) (path : Value) :
    s.Reports s.subscriber (loadEvents s.files path) (s.loadFile path).2 := by
  cases path with
  | string path =>
      unfold loadFile loadEvents
      dsimp only [Value.expectText]
      cases s.files.read path.bytes with
      | ok content => exact .refl s
      | error failure => exact (Reports.refl s).log _
  | _ => exact .refl s

theorem reports_saveFile (s : Session) (path content : Value) :
    s.Reports s.subscriber (saveEvents s.files path content) (s.saveFile path content).2 := by
  cases path with
  | string path =>
      cases content with
      | string content =>
          unfold saveFile saveEvents
          dsimp only [Value.expectText]
          cases s.files.write path.bytes content.bytes with
          | ok files => exact .of_eq rfl rfl
          | error failure => exact (Reports.refl s).log _
      | _ => exact .refl s
  | _ => exact .refl s

theorem reports_readLine (s : Session) :
    s.Reports s.subscriber (lineEvents s.input) s.readLine.2 := by
  rcases hline : s.input.line inputLimit with ⟨result, input⟩
  have hread : s.Reports s.subscriber [] (s.setInput input) := .of_eq rfl rfl
  unfold readLine lineEvents
  rw [hline]
  match result with
  | .ok (some ⟨_, some cut⟩) => exact hread.log _
  | .ok (some ⟨_, none⟩) => exact hread
  | .ok none => exact hread
  | .error failure => exact hread.log _

theorem reports_showPrompt (s : Session) (prompt : Bytes) :
    s.Reports s.subscriber (showEvents s.output prompt) (s.showPrompt prompt) := by
  have houtput : ∀ output, s.Reports s.subscriber [] (s.setOutput output) :=
    fun _ => .of_eq rfl rfl
  rcases hwrite : s.output.writeAll prompt with ⟨result, output⟩
  unfold showPrompt showEvents writeAll
  rw [hwrite]
  cases result with
  | error failure => exact (houtput output).log _
  | ok =>
      rcases hflush : output.flush with ⟨result, flushed⟩
      dsimp only [flush, setOutput]
      rw [hflush]
      cases result with
      | error failure => exact (houtput flushed).log _
      | ok => exact houtput flushed

theorem reports_prompt (s : Session) (v : Value) :
    s.Reports s.subscriber (promptEvents s.output s.input v) (s.prompt v).2 := by
  cases v with
  | string prompt =>
      have hshow := s.reports_showPrompt prompt.bytes
      have hread := (s.showPrompt prompt.bytes).reports_readLine
      have hinput : (s.showPrompt prompt.bytes).input = s.input :=
        s.changes_showPrompt prompt.bytes .input (by simp)
      rw [hshow.subscriber, hinput] at hread
      exact hshow.trans hread
  | _ => exact .refl s

theorem reports_sleep (s : Session) (duration : Value) :
    s.Reports s.subscriber (sleepEvents duration) (s.sleep duration).2 := by
  unfold sleep sleepEvents
  cases duration? duration with
  | none => exact (Reports.refl s).log _
  | some seconds => exact .refl s

theorem reports_collect (s : Session) :
    s.Reports s.subscriber (if s.collector.isNone then [.nothingToCollect] else []) s.collect := by
  unfold collect
  cases s.collector with
  | none => exact (Reports.refl s).log _
  | some counts => exact .of_eq rfl rfl

theorem reports_cleanUp (s : Session) :
    s.Reports s.subscriber (if s.collector.isNone then [.nothingToCleanUp] else []) s.cleanUp := by
  unfold cleanUp
  cases s.collector with
  | none => exact (Reports.refl s).log _
  | some counts => exact .of_eq rfl rfl

theorem reports_installLogging (s : Session) (config : LogConfig) :
    s.Reports (s.installLogging config).2.subscriber (filterEvents s.filters config)
      (s.installLogging config).2 := by
  have hinstalled : ∀ filter : Filter,
      s.Reports (if s.subscriber.isNone then some filter else s.subscriber) []
        (if s.subscriber.isNone then { s with subscriber := some filter } else s) := by
    intro filter
    split
    · exact .of_eq rfl rfl
    · exact .refl s
  unfold installLogging filterEvents FilterLanguage.read
  cases s.filters.parse config.filter with
  | ok filter => exact (hinstalled filter).self
  | error reason =>
      exact ((hinstalled s.filters.fallback).log (.filterRejected reason config.filter)).self

theorem reports_start (s : Session) :
    s.Reports s.start.subscriber
      (startEvents s.filters s.subscriber (.ofVariable s.logVariable)) s.start := by
  have hinstall := s.reports_installLogging (.ofVariable s.logVariable)
  have hflag : (s.installLogging (.ofVariable s.logVariable)).1 = s.subscriber.isNone := rfl
  unfold start startEvents
  dsimp only
  rw [hflag]
  split
  · exact (hinstall.log (.started _)).self
  · rw [List.append_nil]
    exact hinstall

theorem raised_eq_nil_of_not_touched {operation : Operation}
    (h : Part.errors ∉ operation.touches) : s.raised operation = [] := by
  cases operation with
  | loadFile | saveFile | input | inputPrompt | sleep | start | installLogging | collect
  | cleanUp => simp [Operation.touches] at h
  | _ => rfl

/-- The subscriber behind an operation hears the events of the operation, also those of its own
installation. -/
theorem perform_reports (s : Session) (operation : Operation) :
    s.Reports (s.perform operation).2.subscriber (s.raised operation)
      (s.perform operation).2 := by
  by_cases htouches : Part.errors ∈ operation.touches
  · cases operation with
    | loadFile path => exact (s.reports_loadFile _).self
    | saveFile path content => exact (s.reports_saveFile _ _).self
    | input => exact s.reports_readLine.self
    | inputPrompt prompt => exact (s.reports_prompt _).self
    | sleep duration => exact (s.reports_sleep _).self
    | start => exact s.reports_start
    | installLogging config => exact s.reports_installLogging config
    | collect => exact s.reports_collect.self
    | cleanUp => exact s.reports_cleanUp.self
    | _ => simp [Operation.touches] at htouches
  · rw [raised_eq_nil_of_not_touched htouches]
    exact .of_eq rfl (s.perform_changes operation .errors htouches)

/-! ## Runs -/

def Performed.events (p : Performed) : List Event := p.before.raised p.operation

def Performed.written (p : Performed) : List Event :=
  shown (p.before.perform p.operation).2.subscriber p.events

/-- A step leaves what its operation leaves, but for the variable that keeps the answer. -/
theorem changes_of_step {step : Step} {answer : Answer} (h : s.step step = (.ok answer, t)) :
    (s.perform step.operation).2.Changes [.bindings] t := by
  obtain ⟨u, hperform, rfl⟩ := exists_perform_of_step h
  rw [hperform]
  exact u.changes_keep _ _

theorem step_notices {step : Step} {answer : Answer} (h : s.step step = (.ok answer, t)) :
    t.notices =
      ((Performed.written ⟨s, step.operation, answer⟩).map Notice.event).reverse ++ s.notices := by
  have hkeep : t.notices = (s.perform step.operation).2.notices :=
    changes_of_step h .errors (by simp)
  rw [hkeep]
  exact (s.perform_reports step.operation).notices

theorem Performs.notices {steps : List Step} {answers : List Answer}
    (h : s.Performs steps answers t) :
    t.notices.reverse =
      s.notices.reverse ++ ((s.performed steps).flatMap Performed.written).map Notice.event := by
  induction h with
  | nil s => simp [performed]
  | cons hstep _ ih =>
      rw [ih, performed_of_ok hstep, step_notices hstep]
      simp

theorem finish_notices (s : Session) (fault : Option Fault) :
    (s.finish fault).notices.reverse =
      s.notices.reverse ++ (shown s.subscriber (fault.toList.map Event.fault)).map Notice.event ++
        handled s.handler fault.toList ++
        fault.toList.map Notice.terminated := by
  cases fault with
  | none =>
      have hexit : s.exit.notices = s.notices := s.changes_exit .errors (by simp)
      rw [finish, hexit]
      cases s.subscriber <;> cases s.handler <;> simp [shown, handled]
  | some fault =>
      have hlog := ((Reports.refl s).log (.fault fault)).notices
      have hhandler : (s.log (.fault fault)).handler = s.handler :=
        s.changes_log _ .handler (by simp)
      have hflush : ∀ t : Session, t.flush.2.notices = t.notices :=
        fun t => t.changes_flush .errors (by simp)
      rw [finish, terminate_eq_note, note, hflush, hhandler]
      cases s.handler <;> simp [note, handled, hlog]

end Session

end Tagged
