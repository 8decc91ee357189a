import Tagged.Proofs.Session.Faults
import Tagged.Proofs.Session.Made
import Tagged.Proofs.Session.Operands
import Tagged.Proofs.Stores

/-!
# Released strings

An operand that is a released string when its step is performed can be replaced by an empty one:
the run answers the same and leaves the same behind. `Session.Revives` relates a program to those
that come out of it in this way, and `Session.Revived` relates the sessions of the two runs.
Nothing but `free` makes a released string, and what is released stays as it is when it is
released again.
-/

namespace Tagged

/-- In the session, the second operand is the first one, or an empty literal in the place of a
released string. -/
inductive Operand.Revived (s : Session) : Operand → Operand → Prop
  | same (operand : Operand) : Revived s operand operand
  | empty {operand : Operand} (h : operand.eval s = .string .released) :
      Revived s operand (.bytes [])

theorem Operand.revived_ite {s : Session} {operand : Operand}
    (h : operand.eval s = .string .released) (v : Operand) :
    Revived s v (if v = operand then .bytes [] else v) := by
  split
  next hv =>
    rw [hv]
    exact .empty h
  next => exact .same v

namespace Session

def rebind (bindings : List (String × Value)) (s : Session) : Session := { s with bindings }

theorem unnoticed_rebind (bindings : List (String × Value)) : Unnoticed (rebind bindings) where
  changes s := by
    intro part hpart
    cases part with
    | bindings => exact absurd (by simp) hpart
    | _ => rfl
  setInput _ _ := rfl
  setOutput _ _ := rfl
  setFiles _ _ := rfl
  setHandler _ _ := rfl
  setCollector _ _ := rfl
  log s e := by
    unfold log
    dsimp only [rebind]
    split
    · split <;> rfl
    · rfl
  note _ _ _ := rfl

/-- The sessions differ at most in variables that are released strings in the first and live empty
strings in the second. -/
structure Revived (s t : Session) : Prop where
  rest : t = s.rebind t.bindings
  get (name : String) : (s.get name).Revived (t.get name)

namespace Revived

variable {s t : Session}

theorem refl (s : Session) : s.Revived s := ⟨rfl, fun _ => .same _⟩

theorem eval (h : s.Revived t) {operand replaced : Operand}
    (hoperand : operand.Revived s replaced) :
    (operand.eval s).Revived (replaced.eval t) := by
  cases hoperand with
  | empty hreleased =>
      rw [hreleased]
      exact .empty
  | same =>
      cases operand with
      | named name => exact h.get name
      | _ => exact .same _

theorem set (h : s.Revived t) (name : String) (v : Value) :
    (s.set name v).Revived (t.set name v) := by
  refine ⟨?_, fun other => ?_⟩
  · rw [h.rest]
    rfl
  · by_cases hname : other = name
    · rw [hname, get_set_self, get_set_self]
      exact .same v
    · rw [get_set_of_ne hname, get_set_of_ne hname]
      exact h.get other

/-- A variable of the first session can be set to what the other session holds there anyway. -/
theorem set_left (h : s.Revived t) {name : String} {v : Value} (hv : v.Revived (t.get name)) :
    (s.set name v).Revived t := by
  refine ⟨h.rest, fun other => ?_⟩
  by_cases hname : other = name
  · rw [hname, get_set_self]
    exact hv
  · rw [get_set_of_ne hname]
    exact h.get other

theorem of_rebind (h : s.Revived t) {u : Session} (hu : u.bindings = s.bindings) :
    u.Revived (u.rebind t.bindings) := by
  refine ⟨rfl, fun name => ?_⟩
  have hget := h.get name
  unfold Session.get at hget ⊢
  rw [hu]
  exact hget

theorem keep (h : s.Revived t) (name : Option String) (answer : Answer) :
    (s.keep name answer).Revived (t.keep name answer) := by
  cases answer with
  | value v =>
      cases name with
      | none => exact h
      | some name => exact h.set name v
  | _ => exact h

end Revived

/-! ## Operations -/

theorem installLogging_rebind (s : Session) (bindings : List (String × Value))
    (config : LogConfig) :
    (s.rebind bindings).installLogging config =
      (s.installLogging config).map id (rebind bindings) := by
  have hinstalled : ∀ installed : Bool, ∀ filter : Filter,
      (if installed then { s.rebind bindings with subscriber := some filter }
        else s.rebind bindings) =
      rebind bindings (if installed then { s with subscriber := some filter } else s) := by
    intro installed filter
    cases installed <;> rfl
  have hfilters : (s.rebind bindings).filters = s.filters := rfl
  unfold installLogging
  dsimp only
  rw [hinstalled, hfilters]
  split
  · exact Prod.ext rfl ((unnoticed_rebind bindings).log _ _)
  · rfl

theorem start_rebind (s : Session) (bindings : List (String × Value)) :
    (s.rebind bindings).start = s.start.rebind bindings := by
  have hvariable : (s.rebind bindings).logVariable = s.logVariable := rfl
  unfold start
  dsimp only
  rw [hvariable, installLogging_rebind]
  dsimp only [Prod.map, id]
  split
  · exact (unnoticed_rebind bindings).log _ _
  · rfl

/-- An operation that leaves the variables alone does the same with other variables, as long as
its operands read alike. -/
theorem perform_rebind {s : Session} {bindings : List (String × Value)}
    {f : Nat → Operand → Operand}
    (hread : ∀ i v, (Operand.eval s v).Revived ((f i v).eval (s.rebind bindings)))
    {operation : Operation} (hinspects : operation.inspects = false)
    (htouches : Part.bindings ∉ operation.touches) :
    (s.rebind bindings).perform (operation.mapOperands f) =
      (s.perform operation).map id (rebind bindings) := by
  by_cases hlog : Part.logVariable ∈ operation.touches ∨ Part.subscriber ∈ operation.touches
  · cases operation with
    | configure value => rfl
    | start => exact Prod.ext rfl (s.start_rebind bindings)
    | installLogging config => exact congrArg answerFlag (s.installLogging_rebind bindings config)
    | _ => simp [Operation.touches] at hlog
  · apply (unnoticed_rebind bindings).perform hread
    · simp [hinspects]
    · simp [htouches, not_or.1 hlog]

theorem Revived.free {s t : Session} (h : s.Revived t) {operand replaced : Operand}
    (hoperand : operand.Revived s replaced) :
    (t.free replaced).1 = (s.free operand).1 ∧
      (s.free operand).2.Revived (t.free replaced).2 := by
  have hleft : (replaced.eval t).release = (operand.eval s).release :=
    (h.eval hoperand).congr (f := Value.release) rfl
  cases hoperand with
  | same =>
      cases operand with
      | named name =>
          refine ⟨congrArg (Except.ok ∘ Answer.slot) hleft, ?_⟩
          show (s.set name (s.get name).release).Revived (t.set name (t.get name).release)
          rw [show (t.get name).release = (s.get name).release from hleft]
          exact h.set name _
      | _ => exact ⟨rfl, h⟩
  | empty hreleased =>
      cases operand with
      | named name =>
          refine ⟨congrArg (Except.ok ∘ Answer.slot) hleft, ?_⟩
          -- the variable was released before, so it stands for what the other session holds
          have hget : s.get name = .string .released := hreleased
          have hv := h.get name
          rw [hget] at hv
          show (s.set name (s.get name).release).Revived t
          rw [hget]
          exact h.set_left hv
      | _ => exact ⟨congrArg (Except.ok ∘ Answer.slot) hleft, h⟩

theorem Revived.perform {s t : Session} (h : s.Revived t) {f : Nat → Operand → Operand}
    (hf : ∀ i v, Operand.Revived s v (f i v)) {operation : Operation}
    (hinspects : operation.inspects = false) :
    (t.perform (operation.mapOperands f)).1 = (s.perform operation).1 ∧
      (s.perform operation).2.Revived (t.perform (operation.mapOperands f)).2 := by
  by_cases htouches : Part.bindings ∈ operation.touches
  · cases operation with
    | free operand =>
        cases operand with
        | none => exact ⟨rfl, h⟩
        | some operand => exact h.free (hf 0 operand)
    | _ => simp [Operation.touches] at htouches
  · have hread : ∀ i v, (Operand.eval s v).Revived ((f i v).eval (s.rebind t.bindings)) := by
      intro i v
      have hv := h.eval (hf i v)
      rwa [h.rest] at hv
    have hperform := perform_rebind hread hinspects htouches
    rw [← h.rest] at hperform
    have hbindings : (s.perform operation).2.bindings = s.bindings :=
      s.perform_changes operation .bindings htouches
    rw [hperform]
    exact ⟨rfl, h.of_rebind hbindings⟩

theorem Revived.step {s t : Session} (h : s.Revived t) {f : Nat → Operand → Operand}
    (hf : ∀ i v, Operand.Revived s v (f i v)) {step : Step}
    (hinspects : step.operation.inspects = false) :
    (t.step { step with operation := step.operation.mapOperands f }).1 = (s.step step).1 ∧
      (s.step step).2.Revived
        (t.step { step with operation := step.operation.mapOperands f }).2 := by
  obtain ⟨hresult, hsession⟩ := h.perform hf hinspects
  unfold Session.step
  dsimp only
  rcases hs : s.perform step.operation with ⟨result, u⟩
  rcases ht : t.perform (step.operation.mapOperands f) with ⟨result', u'⟩
  rw [hs, ht] at hresult hsession
  obtain rfl : result' = result := hresult
  cases result' with
  | error fault => exact ⟨rfl, hsession⟩
  | ok answer => exact ⟨rfl, hsession.keep step.keep answer⟩

/-! ## Runs -/

/-- The second program comes out of the first one by the replacement of operands: of any operands
that are released strings when the first program performs their step. -/
inductive Revives : Session → List Step → List Step → Prop
  | nil (s : Session) : Revives s [] []
  | cons {s : Session} {step : Step} {rest replaced : List Step} {f : Nat → Operand → Operand}
      (hf : ∀ i v, Operand.Revived s v (f i v))
      (hrest : ∀ answer t, s.step step = (.ok answer, t) → Revives t rest replaced) :
      Revives s (step :: rest)
        ({ step with operation := step.operation.mapOperands f } :: replaced)

theorem Revives.refl (s : Session) (program : List Step) : s.Revives program program := by
  induction program generalizing s with
  | nil => exact .nil s
  | cons step rest ih =>
      have hcons := Revives.cons (f := fun _ v => v) (fun _ v => .same v)
        fun _ t (_ : s.step step = (.ok _, t)) => ih t
      rwa [Operation.mapOperands_self] at hcons

theorem Revived.run {s t : Session} (h : s.Revived t) {program replaced : List Step}
    (hprogram : s.Revives program replaced)
    (hinspects : ∀ step ∈ program, step.operation.inspects = false) :
    (t.run replaced).answers = (s.run program).answers ∧
      (t.run replaced).fault = (s.run program).fault ∧
      (s.run program).final.Revived (t.run replaced).final := by
  induction hprogram generalizing t with
  | nil s =>
      have hexit : t.exit = s.exit.rebind t.bindings :=
        (congrArg Session.exit h.rest).trans ((unnoticed_rebind t.bindings).exit s)
      refine ⟨rfl, rfl, ?_⟩
      show s.exit.Revived t.exit
      rw [hexit]
      exact h.of_rebind (s.changes_exit .bindings (by simp))
  | @cons s step rest replaced f hf _ ih =>
      obtain ⟨hresult, hsession⟩ := h.step hf (hinspects step (by simp))
      rw [Session.run, Session.run]
      rcases hs : s.step step with ⟨result, u⟩
      rcases ht : t.step { step with operation := step.operation.mapOperands f } with ⟨result', u'⟩
      rw [hs, ht] at hresult hsession
      obtain rfl : result' = result := hresult
      cases result' with
      | ok answer =>
          obtain ⟨hanswers, hfault, hfinal⟩ :=
            ih answer u hs hsession fun step hstep => hinspects step (by simp [hstep])
          exact ⟨congrArg (answer :: ·) hanswers, hfault, hfinal⟩
      | error fault =>
          have hterminate : u'.terminate fault = (u.terminate fault).rebind u'.bindings :=
            (congrArg (Session.terminate · fault) hsession.rest).trans
              ((unnoticed_rebind u'.bindings).terminate u fault)
          refine ⟨rfl, rfl, ?_⟩
          show (u.terminate fault).Revived (u'.terminate fault)
          rw [hterminate]
          exact hsession.of_rebind (u.changes_terminate fault .bindings (by simp))

/-! ## What makes a released string -/

theorem released_of_perform {s : Session} {operation : Operation} {name : String}
    (h : (s.perform operation).2.get name = .string .released) :
    s.get name = .string .released ∨ operation = .free (some (.named name)) := by
  by_cases htouches : Part.bindings ∈ operation.touches
  · cases operation with
    | free operand =>
        match operand with
        | some (.named other) =>
            by_cases hname : name = other
            · rw [hname]
              exact .inr rfl
            · rw [show (s.perform (.free (some (.named other)))).2 =
                s.set other (s.get other).release from rfl, get_set_of_ne hname] at h
              exact .inl h
        | none | some (.int _) | some (.float _) | some (.bytes _) | some (.bool _) | some .array
        | some .released => exact .inl h
    | _ => simp [Operation.touches] at htouches
  · have hbindings : (s.perform operation).2.bindings = s.bindings :=
      s.perform_changes operation .bindings htouches
    unfold Session.get at h ⊢
    rw [hbindings] at h
    exact .inl h

theorem released_of_keep {s : Session} {keep : Option String} {answer : Answer}
    (hanswer : ∀ v, answer = .value v → v ≠ .string .released) {name : String}
    (h : (s.keep keep answer).get name = .string .released) : s.get name = .string .released := by
  cases answer with
  | value v =>
      cases keep with
      | none => exact h
      | some other =>
          have hset : (s.set other v).get name = .string .released := h
          by_cases hname : name = other
          · rw [hname, get_set_self] at hset
            exact absurd hset (hanswer v rfl)
          · rwa [get_set_of_ne hname] at hset
  | _ => exact h

/-- No answered value is a released string, and only the release of a variable leaves one in it. -/
theorem released_of_step {s t : Session} {step : Step} {answer : Answer}
    (h : s.step step = (.ok answer, t)) :
    (∀ v, answer = .value v → v ≠ .string .released) ∧
      ∀ name, t.get name = .string .released →
        s.get name = .string .released ∨ step.operation = .free (some (.named name)) := by
  obtain ⟨u, hperform, rfl⟩ := exists_perform_of_step h
  have hanswer : ∀ v, answer = .value v → v ≠ .string .released := by
    rintro v rfl
    exact (made_of_perform (by rw [hperform])).ne_released
  refine ⟨hanswer, fun name hreleased => ?_⟩
  apply released_of_perform
  rw [hperform]
  exact released_of_keep hanswer hreleased

theorem release_release (v : Value) : v.release.release = v.release := by
  cases v <;> rfl

theorem free_free {s t : Session} {operand : Option Operand} {answer : Answer}
    (h : s.perform (.free operand) = (.ok answer, t)) :
    t.perform (.free operand) = (.ok answer, t) := by
  match operand with
  | some (.named name) =>
      cases h
      show (Except.ok (Answer.slot ((s.set name (s.get name).release).get name).release),
        (s.set name (s.get name).release).set name
          ((s.set name (s.get name).release).get name).release) = _
      rw [get_set_self, release_release, set_set]
      rfl
  | none | some (.int _) | some (.float _) | some (.bytes _) | some (.bool _) | some .array
  | some .released =>
      cases h
      rfl

/-- A released string cannot be told from an empty one without an inspection. Two runs that start
in sessions which differ in that only, and whose programs differ in the replacement of released
operands by empty strings only, answer and fault the same and leave the same output, unread input
and files. The release of a value a second time answers the same as the first and changes nothing.
No answered value is released, and a step that releases a variable is the only one that leaves a
released string in it. -/
theorem released_string_reads_as_empty {s t : Session} (h : s.Revived t)
    {program replaced : List Step} (hprogram : s.Revives program replaced)
    (hinspects : ∀ step ∈ program, step.operation.inspects = false) :
    ((t.run replaced).answers = (s.run program).answers ∧
      (t.run replaced).fault = (s.run program).fault ∧
      (t.run replaced).outputBytes = (s.run program).outputBytes ∧
      (t.run replaced).final.input = (s.run program).final.input ∧
      (t.run replaced).final.files = (s.run program).final.files) ∧
    (∀ (u u' : Session) (operand : Option Operand) (answer : Answer),
      u.perform (.free operand) = (.ok answer, u') →
        u'.perform (.free operand) = (.ok answer, u')) ∧
    ∀ (u u' : Session) (step : Step) (answer : Answer), u.step step = (.ok answer, u') →
      (∀ v, answer = .value v → v ≠ .string .released) ∧
      ∀ name, u'.get name = .string .released →
        u.get name = .string .released ∨ step.operation = .free (some (.named name)) := by
  obtain ⟨hanswers, hfault, hfinal⟩ := h.run hprogram hinspects
  have houtput := congrArg (Output.bytes ∘ Session.output) hfinal.rest
  have hinput := congrArg Session.input hfinal.rest
  have hfiles := congrArg Session.files hfinal.rest
  exact ⟨⟨hanswers, hfault, houtput, hinput, hfiles⟩, fun _ _ _ _ => free_free,
    fun _ _ _ _ => released_of_step⟩

/-- A variable is released, joined to a text, and released again; in the other run it is an empty
string that is joined to the text. -/
theorem released_variable_reads_as_empty :
    let make : Step := ⟨.makeString (some (ascii "ab")), some "x"⟩
    let free : Step := ⟨.free (some (.named "x")), none⟩
    let join (v : Operand) : Step := ⟨.binary .concat v (.bytes (ascii "c")), some "y"⟩
    let program := [make, free, join (.named "x"), free, ⟨.print (.named "y") true, none⟩]
    let replaced := [make, free, join (.bytes []), free, ⟨.print (.named "y") true, none⟩]
    Revives {} program replaced ∧
      (∀ step ∈ program, step.operation.inspects = false) ∧
      (Session.run {} replaced).answers = (Session.run {} program).answers ∧
      (Session.run {} replaced).outputBytes = (Session.run {} program).outputBytes ∧
      (Session.run {} program).outputBytes = ascii "c\n" := by
  intro make free join program replaced
  have hprogram : Revives {} program replaced := by
    refine .cons (fun _ v => .same v) ?_
    rintro _ _ ⟨⟩
    refine .cons (fun _ v => .same v) ?_
    intro _ s hstep
    have hreleased : Operand.eval s (.named "x") = .string .released := by
      cases hstep
      decide
    exact .cons (fun _ v => Operand.revived_ite hreleased v) fun _ t _ => Revives.refl t _
  have hinspects : ∀ step ∈ program, step.operation.inspects = false := by decide
  obtain ⟨⟨hanswers, -, houtput, -⟩, -⟩ :=
    released_string_reads_as_empty (Revived.refl {}) hprogram hinspects
  exact ⟨hprogram, hinspects, hanswers, houtput, by decide +kernel⟩

end Session

end Tagged
