import Tagged.Proofs.Session.Frame

/-!
# Changes that a program does not notice

What a program does to its streams, its files and its registrations does not depend on its
variables, nor on the log. So a change of sessions that concerns nothing else can be made before
such an operation or behind it: the answer is the same, and so is the session that is left.
-/

namespace Tagged

def Notice.isEvent : Notice → Bool
  | .event _ => true
  | _ => false

namespace Session

def note (s : Session) (n : Notice) : Session := { s with notices := n :: s.notices }

theorem terminate_eq_note (s : Session) (fault : Fault) :
    s.terminate fault =
      ((match (s.log (.fault fault)).handler with
        | some handler => (s.log (.fault fault)).note (.handled (handler.report fault))
        | none => s.log (.fault fault)).flush.2).note (.terminated fault) :=
  rfl

theorem answerValue_map (g : Session → Session) (outcome : Except Fault Value × Session) :
    answerValue (outcome.map id g) = (answerValue outcome).map id g :=
  rfl

theorem answerDone_map (g : Session → Session) (outcome : Except Failure Unit × Session) :
    answerDone (outcome.map id g) = (answerDone outcome).map id g := by
  obtain ⟨result, t⟩ := outcome
  cases result <;> rfl

/-- A change that concerns at most the variables and the log, and that can be made before or
behind an update of anything else, the report of an event, and a line on standard error that is
no event. -/
structure Unnoticed (g : Session → Session) : Prop where
  changes (s : Session) : s.Changes [.bindings, .errors, .logVariable, .subscriber] (g s)
  setInput (s : Session) (input : Reader Failure) : (g s).setInput input = g (s.setInput input)
  setOutput (s : Session) (output : Output) : (g s).setOutput output = g (s.setOutput output)
  setFiles (s : Session) (files : FileTree) : { g s with files } = g { s with files }
  setHandler (s : Session) (handler : Option FaultHandler) :
    { g s with handler } = g { s with handler }
  setCollector (s : Session) (collector : Option HookCounts) :
    { g s with collector } = g { s with collector }
  log (s : Session) (e : Event) : (g s).log e = g (s.log e)
  note (s : Session) (n : Notice) (h : n.isEvent = false) : (g s).note n = g (s.note n)

namespace Unnoticed

variable {g : Session → Session}

/-! ## Parts -/

theorem input (hg : Unnoticed g) (s : Session) : (g s).input = s.input :=
  hg.changes s .input (by simp)

theorem output (hg : Unnoticed g) (s : Session) : (g s).output = s.output :=
  hg.changes s .output (by simp)

theorem files (hg : Unnoticed g) (s : Session) : (g s).files = s.files :=
  hg.changes s .files (by simp)

theorem handler (hg : Unnoticed g) (s : Session) : (g s).handler = s.handler :=
  hg.changes s .handler (by simp)

theorem collector (hg : Unnoticed g) (s : Session) : (g s).collector = s.collector :=
  hg.changes s .collector (by simp)

theorem clock (hg : Unnoticed g) (s : Session) : (g s).clock = s.clock :=
  hg.changes s .clock (by simp)

/-! ## The console -/

theorem writeAll (hg : Unnoticed g) (s : Session) (bytes : Bytes) :
    (g s).writeAll bytes = (s.writeAll bytes).map id g := by
  unfold Session.writeAll
  rw [hg.output]
  exact Prod.ext rfl (hg.setOutput s _)

theorem flush (hg : Unnoticed g) (s : Session) : (g s).flush = s.flush.map id g := by
  unfold Session.flush
  rw [hg.output]
  exact Prod.ext rfl (hg.setOutput s _)

theorem print (hg : Unnoticed g) (s : Session) (v : Value) (newline : Bool) :
    (g s).print v newline = g (s.print v newline) := by
  unfold Session.print
  rw [hg.writeAll]
  rcases s.writeAll v.render with ⟨_ | _, t⟩
  · rfl
  · cases newline with
    | false => rfl
    | true =>
        show ((g t).writeAll [0x0a]).2 = g (t.writeAll [0x0a]).2
        rw [hg.writeAll, Prod.map_snd]

theorem writeSome (hg : Unnoticed g) (s : Session) (bytes : Bytes) :
    (g s).writeSome bytes = (s.writeSome bytes).map id g := by
  unfold Session.writeSome
  rw [hg.output]
  rcases s.output.write bytes with ⟨_ | n, output⟩ <;>
    exact Prod.ext rfl (hg.setOutput s output)

theorem readLine (hg : Unnoticed g) (s : Session) : (g s).readLine = s.readLine.map id g := by
  unfold Session.readLine
  rw [hg.input]
  dsimp only
  rw [hg.setInput]
  split
  · split
    · exact Prod.ext rfl (hg.log _ _)
    · rfl
  · rfl
  · exact Prod.ext rfl (hg.log _ _)

theorem showPrompt (hg : Unnoticed g) (s : Session) (prompt : Bytes) :
    (g s).showPrompt prompt = g (s.showPrompt prompt) := by
  unfold Session.showPrompt
  rw [hg.writeAll]
  rcases s.writeAll prompt with ⟨_ | _, t⟩
  · exact hg.log t _
  · simp only [Prod.map_apply, id_eq, hg.flush]
    rcases t.flush with ⟨_ | _, u⟩
    · exact hg.log u _
    · rfl

theorem prompt (hg : Unnoticed g) (s : Session) (v : Value) :
    (g s).prompt v = (s.prompt v).map id g := by
  unfold Session.prompt
  split
  · rfl
  · dsimp only
    rw [hg.showPrompt, hg.readLine]
    rfl

/-! ## Files and the clock -/

theorem loadFile (hg : Unnoticed g) (s : Session) (path : Value) :
    (g s).loadFile path = (s.loadFile path).map id g := by
  unfold Session.loadFile
  split
  · rfl
  · rw [hg.files]
    split
    · rfl
    · exact Prod.ext rfl (hg.log s _)

theorem saveFile (hg : Unnoticed g) (s : Session) (path content : Value) :
    (g s).saveFile path content = (s.saveFile path content).map id g := by
  unfold Session.saveFile
  split
  · rfl
  · split
    · rfl
    · rw [hg.files]
      split
      · exact Prod.ext rfl (hg.setFiles s _)
      · exact Prod.ext rfl (hg.log s _)

theorem fileExists (hg : Unnoticed g) (s : Session) (path : Value) :
    (g s).fileExists path = (s.fileExists path).map id g := by
  unfold Session.fileExists
  rw [hg.files]
  split <;> rfl

theorem putFile (hg : Unnoticed g) (s : Session) (path content : Bytes) :
    (g s).putFile path content = g (s.putFile path content) := by
  unfold Session.putFile
  rw [hg.files]
  split
  · exact hg.setFiles s _
  · rfl

theorem sleep (hg : Unnoticed g) (s : Session) (v : Value) :
    (g s).sleep v = (s.sleep v).map id g := by
  unfold Session.sleep
  split
  · rfl
  · exact Prod.ext rfl (hg.log s _)

theorem readClock (hg : Unnoticed g) (s : Session) : (g s).readClock = s.readClock := by
  have hnow : (g s).now = s.now := by rw [now, now, hg.clock]
  have hmillis : (g s).nowMillis = s.nowMillis := by rw [nowMillis, nowMillis, hg.clock]
  unfold Session.readClock
  rw [hnow, hmillis]

/-! ## Registrations -/

theorem installHandler (hg : Unnoticed g) (s : Session) (handler : FaultHandler) :
    (g s).installHandler handler = (s.installHandler handler).map id g := by
  unfold Session.installHandler
  rw [hg.handler]
  split
  · rfl
  · exact Prod.ext rfl (hg.setHandler s _)

theorem registerCollector (hg : Unnoticed g) (s : Session) :
    (g s).registerCollector = s.registerCollector.map id g := by
  unfold Session.registerCollector
  rw [hg.collector]
  split
  · rfl
  · exact Prod.ext rfl (hg.setCollector s _)

theorem collect (hg : Unnoticed g) (s : Session) : (g s).collect = g s.collect := by
  unfold Session.collect
  rw [hg.collector]
  split
  · exact hg.setCollector s _
  · exact hg.log s _

theorem cleanUp (hg : Unnoticed g) (s : Session) : (g s).cleanUp = g s.cleanUp := by
  unfold Session.cleanUp
  rw [hg.collector]
  split
  · exact hg.setCollector s _
  · exact hg.log s _

/-! ## The end of a program -/

theorem exit (hg : Unnoticed g) (s : Session) : (g s).exit = g s.exit := by
  unfold Session.exit
  rw [hg.flush, Prod.map_snd]

theorem terminate (hg : Unnoticed g) (s : Session) (fault : Fault) :
    (g s).terminate fault = g (s.terminate fault) := by
  rw [terminate_eq_note, terminate_eq_note, hg.log, hg.handler]
  have hend : ∀ t,
      (g t).flush.2.note (.terminated fault) = g (t.flush.2.note (.terminated fault)) := by
    intro t
    rw [hg.flush, Prod.map_snd, hg.note _ _ rfl]
  split
  · rw [hg.note _ _ rfl, hend]
  · exact hend _

end Unnoticed

end Session

end Tagged
