import Tagged.Proofs.Session.Unnoticed

/-!
# Operations with other operands

Nothing but an inspection tells a released string from an empty one. So an operation does the same
with operands that read alike, in sessions between which a program notices no difference.
-/

namespace Tagged

namespace Value

/-- The second value is the first one, or a live empty string in the place of a released one. -/
inductive Revived : Value → Value → Prop
  | same (v : Value) : Revived v v
  | empty : Revived (.string .released) (.string (.live []))

namespace Revived

variable {α : Type} {v v' w w' : Value}

/-- Whatever does not tell the two strings apart does not notice a replacement. -/
theorem congr (h : v.Revived v') {f : Value → α}
    (hf : f (.string (.live [])) = f (.string .released)) : f v' = f v := by
  cases h with
  | same => rfl
  | empty => exact hf

theorem congr₂ (hv : v.Revived v') (hw : w.Revived w') {f : Value → Value → α}
    (hleft : ∀ u, f (.string (.live [])) u = f (.string .released) u)
    (hright : ∀ u, f u (.string (.live [])) = f u (.string .released)) : f v' w' = f v w := by
  calc f v' w' = f v w' := hv.congr (f := fun u => f u w') (hleft w')
    _ = f v w := hw.congr (f := f v) (hright v)

end Revived

end Value

theorem UnaryOp.apply_revived (op : UnaryOp) {v v' : Value} (h : v.Revived v') :
    op.apply v' = op.apply v := by
  apply h.congr
  cases op <;> rfl

theorem BinaryOp.apply_revived (op : BinaryOp) {v v' w w' : Value} (hv : v.Revived v')
    (hw : w.Revived w') : op.apply v' w' = op.apply v w := by
  apply hv.congr₂ hw
  · intro u
    cases op <;> cases u <;> rfl
  · intro u
    cases op <;> cases u <;> rfl

namespace Operation

/-- The operation with other operands; `f` is given the position of each of them. -/
def mapOperands (f : Nat → Operand → Operand) : Operation → Operation
  | .unary op v => .unary op (f 0 v)
  | .binary op v w => .binary op (f 0 v) (f 1 w)
  | .loadFile path => .loadFile (f 0 path)
  | .saveFile path content => .saveFile (f 0 path) (f 1 content)
  | .fileExists path => .fileExists (f 0 path)
  | .inputPrompt prompt => .inputPrompt (f 0 prompt)
  | .sleep duration => .sleep (f 0 duration)
  | .print v newline => .print (f 0 v) newline
  | .free v => .free (v.map (f 0))
  | .tag v => .tag (f 0 v)
  | .views v => .views (f 0 v)
  | .equal v w => .equal (f 0 v) (f 1 w)
  | .inspect v => .inspect (f 0 v)
  | .display v => .display (f 0 v)
  | .textInfo v => .textInfo (f 0 v)
  | .validate v expected operation => .validate (f 0 v) expected operation
  | .expectText v operation => .expectText (f 0 v) operation
  | .expectInt v operation => .expectInt (f 0 v) operation
  | operation => operation

theorem mapOperands_self (operation : Operation) :
    operation.mapOperands (fun _ v => v) = operation := by
  cases operation with
  | free operand => cases operand <;> rfl
  | _ => rfl

def inspects : Operation → Bool
  | .inspect _ => true
  | .textInfo _ => true
  | _ => false

end Operation

namespace Session

/-- A change that a program does not notice can be made before or behind an operation, as long as
the operands read alike: exactly alike, where the operation shows whether a string is released. -/
theorem Unnoticed.perform {g : Session → Session} (hg : Unnoticed g) {s : Session}
    {f : Nat → Operand → Operand} (hread : ∀ i v, (Operand.eval s v).Revived ((f i v).eval (g s)))
    {operation : Operation}
    (hinspects : operation.inspects = true → ∀ i v, (f i v).eval (g s) = v.eval s)
    (htouches : ∀ part ∈ [Part.bindings, Part.logVariable, Part.subscriber],
      part ∉ operation.touches) :
    (g s).perform (operation.mapOperands f) = (s.perform operation).map id g := by
  cases operation with
  | free | configure | start | installLogging => simp [Operation.touches] at htouches
  | inspect v =>
      rw [Operation.mapOperands, Session.perform, hinspects rfl]
      rfl
  | textInfo v =>
      rw [Operation.mapOperands, Session.perform, hinspects rfl]
      rfl
  | unary op v =>
      rw [Operation.mapOperands, Session.perform, op.apply_revived (hread 0 v)]
      rfl
  | binary op v w =>
      rw [Operation.mapOperands, Session.perform, op.apply_revived (hread 0 v) (hread 1 w)]
      rfl
  | loadFile path =>
      have hpath := (hread 0 path).congr (f := (g s).loadFile) rfl
      rw [Operation.mapOperands, Session.perform, Session.perform, hpath, hg.loadFile,
        answerValue_map]
  | saveFile path content =>
      have hoperands := (hread 0 path).congr₂ (hread 1 content)
        (f := (g s).saveFile) (fun u => by cases u <;> rfl) (fun u => by cases u <;> rfl)
      rw [Operation.mapOperands, Session.perform, Session.perform, hoperands, hg.saveFile,
        answerValue_map]
  | fileExists path =>
      have hpath := (hread 0 path).congr (f := (g s).fileExists) rfl
      rw [Operation.mapOperands, Session.perform, Session.perform, hpath, hg.fileExists,
        answerValue_map]
  | inputPrompt prompt =>
      have hprompt := (hread 0 prompt).congr (f := (g s).prompt) rfl
      rw [Operation.mapOperands, Session.perform, Session.perform, hprompt, hg.prompt,
        answerValue_map]
  | sleep duration =>
      have hduration := (hread 0 duration).congr (f := (g s).sleep) rfl
      rw [Operation.mapOperands, Session.perform, hduration, hg.sleep]
      rfl
  | print v newline =>
      have hprint := (hread 0 v).congr (f := fun u => (g s).print u newline) rfl
      rw [Operation.mapOperands, Session.perform, hprint, hg.print]
      rfl
  | tag v =>
      rw [Operation.mapOperands, Session.perform, (hread 0 v).congr (f := Value.tag) rfl]
      rfl
  | views v =>
      rw [Operation.mapOperands, Session.perform, (hread 0 v).congr (f := Value.views) rfl]
      rfl
  | equal v w =>
      have hequal := (hread 0 v).congr₂ (hread 1 w) (f := Value.equal)
        (fun u => by cases u <;> rfl) (fun u => by cases u <;> rfl)
      rw [Operation.mapOperands, Session.perform, hequal]
      rfl
  | display v =>
      rw [Operation.mapOperands, Session.perform, (hread 0 v).congr (f := Value.display) rfl]
      rfl
  | validate v expected operation =>
      have hvalid := (hread 0 v).congr (f := fun u => u.validate expected operation) rfl
      rw [Operation.mapOperands, Session.perform, hvalid]
      rfl
  | expectText v operation =>
      have htext := (hread 0 v).congr
        (f := fun u => (u.expectText operation).map fun text => Answer.bytes text.bytes) rfl
      rw [Operation.mapOperands, Session.perform, htext]
      rfl
  | expectInt v operation =>
      have hint := (hread 0 v).congr (f := fun u => u.expectInt operation) rfl
      rw [Operation.mapOperands, Session.perform, hint]
      rfl
  | input =>
      show (g s).perform .input = _
      rw [Session.perform, hg.readLine]
      rfl
  | write bytes => exact hg.writeSome s bytes
  | writeAll bytes =>
      show answerDone ((g s).writeAll bytes) = _
      rw [hg.writeAll, answerDone_map]
      rfl
  | flush =>
      show answerDone (g s).flush = _
      rw [hg.flush, answerDone_map]
      rfl
  | readClock =>
      show (g s).perform .readClock = _
      rw [Session.perform, hg.readClock]
      rfl
  | putFile path content => exact Prod.ext rfl (hg.putFile s path content)
  | makeDirectories path =>
      show (_, { g s with files := (g s).files.makeDirectories path }) = _
      rw [hg.files, hg.setFiles]
      rfl
  | makeLink path target =>
      show (_, { g s with files := (g s).files.makeLink path target }) = _
      rw [hg.files, hg.setFiles]
      rfl
  | installHandler handler => exact congrArg answerFlag (hg.installHandler s handler)
  | registerCollector => exact congrArg answerFlag (hg.registerCollector s)
  | collect =>
      show (g s).perform .collect = _
      rw [Session.perform, hg.collect]
      simp only [hg.collector]
      rfl
  | cleanUp =>
      show (g s).perform .cleanUp = _
      rw [Session.perform, hg.cleanUp]
      simp only [hg.collector]
      rfl
  | _ => rfl

end Session

end Tagged
