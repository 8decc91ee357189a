import Mathlib.Data.FinEnum
import Tagged.Proofs.FloatText
import Tagged.Proofs.Session.Faults
import Tagged.Proofs.Session.Made

/-!
# Strings without a NUL

A string ends at its first NUL, and files and standard input can hold many. Every operation that
makes a string cuts it there, so no string that a program gets hold of has a NUL in it. From then
on nothing is cut off any more: a copy, a text, a case mapping and a concatenation have all the
bytes that were computed.
-/

namespace Tagged

theorem Byte.mapCase_ne_zero : ∀ b : UInt8, b ≠ 0 → toUpper b ≠ 0 ∧ toLower b ≠ 0 := by
  decide +kernel

namespace Value

def NulFree (v : Value) : Prop := ∀ bytes ∈ v.asBytes?, 0 ∉ bytes

theorem nulFree_of_asBytes?_eq_none {v : Value} (h : v.asBytes? = none) : v.NulFree := by
  intro bytes hbytes
  rw [h] at hbytes
  cases hbytes

theorem nulFree_ofBytes (bytes : Bytes) : (ofBytes bytes).NulFree := by
  rintro _ ⟨⟩ hmem
  have hne := List.mem_takeWhile_imp hmem
  simp at hne

theorem nulFree_released : (Value.string .released).NulFree := by
  rintro _ ⟨⟩
  exact List.not_mem_nil

theorem nulFree_release {v : Value} (h : v.NulFree) : v.release.NulFree := by
  cases v with
  | string text => exact nulFree_released
  | _ => exact h

theorem Made.nulFree {v : Value} (h : v.Made) : v.NulFree := by
  cases h with
  | ofBytes bytes => exact nulFree_ofBytes bytes
  | other hnone => exact nulFree_of_asBytes?_eq_none (by rw [asBytes?, hnone, Option.map_none])

end Value

def Answer.NulFree : Answer → Prop
  | .value v => v.NulFree
  | .slot v => v.NulFree
  | .views seen => ∀ bytes ∈ seen.bytes, 0 ∉ bytes
  | .bytes raw => 0 ∉ raw
  | _ => True

namespace Session

def NulFree (s : Session) : Prop := ∀ binding ∈ s.bindings, binding.2.NulFree

namespace NulFree

variable {s t : Session}

theorem of_bindings_eq (h : s.NulFree) (hbindings : t.bindings = s.bindings) : t.NulFree := by
  rw [NulFree, hbindings]
  exact h

theorem of_bindings_eq_nil (h : s.bindings = []) : s.NulFree := by
  intro binding hmem
  rw [h] at hmem
  cases hmem

theorem get (h : s.NulFree) (name : String) : (s.get name).NulFree := by
  unfold Session.get
  cases hlookup : s.bindings.lookup name with
  | none => exact Value.nulFree_of_asBytes?_eq_none rfl
  | some v =>
      obtain ⟨left, right, hbindings, -⟩ := List.lookup_eq_some_iff.1 hlookup
      exact h (name, v) (by simp [hbindings])

theorem set (h : s.NulFree) {v : Value} (hv : v.NulFree) (name : String) :
    (s.set name v).NulFree := by
  intro binding hmem
  rcases List.mem_cons.1 hmem with rfl | hmem
  · exact hv
  · exact h binding (List.mem_of_mem_filter hmem)

theorem eval (h : s.NulFree) (operand : Operand) : (operand.eval s).NulFree := by
  cases operand with
  | bytes b => exact Value.nulFree_ofBytes b
  | released => exact Value.nulFree_released
  | named name => exact h.get name
  | _ => exact Value.nulFree_of_asBytes?_eq_none rfl

theorem keep (h : s.NulFree) {answer : Answer} (hanswer : answer.NulFree)
    (name : Option String) : (s.keep name answer).NulFree := by
  unfold Session.keep
  split
  · split
    · exact h.set hanswer _
    · exact h
  · exact h

end NulFree

/-! ## Steps -/

theorem nulFree_answerDone {outcome : Except Failure Unit × Session} {answer : Answer}
    (h : (answerDone outcome).1 = .ok answer) : answer.NulFree := by
  obtain ⟨result, t⟩ := outcome
  cases result <;> cases h <;> trivial

theorem NulFree.perform_answer {s : Session} (hs : s.NulFree) {operation : Operation}
    {answer : Answer} (h : (s.perform operation).1 = .ok answer) : answer.NulFree := by
  cases operation with
  | unary | loadFile | saveFile | fileExists | inputPrompt =>
      obtain ⟨_, _, rfl⟩ := exists_of_map_eq_ok h
      exact (made_of_perform h).nulFree
  | makeInt | makeFloat | makeBool | makeVoid | makeString | binary | input | sleep =>
      cases answer with
      | value v => exact (made_of_perform h).nulFree
      | _ => cases h
  | free operand =>
      cases operand with
      | none =>
          cases h
          trivial
      | some operand =>
          have hleft := Value.nulFree_release (hs.eval operand)
          cases operand <;> cases h <;> exact hleft
  | views v =>
      cases h
      exact hs.eval v
  | expectText v operation =>
      obtain ⟨text, htext, rfl⟩ := exists_of_map_eq_ok h
      exact hs.eval v text.bytes (by rw [Value.eq_string_of_expectText htext]; rfl)
  | validate v expected operation =>
      obtain ⟨_, _, rfl⟩ := exists_of_map_eq_ok h
      trivial
  | expectInt v operation =>
      obtain ⟨_, _, rfl⟩ := exists_of_map_eq_ok h
      trivial
  | fatal fault => cases h
  | write bytes =>
      simp only [perform, writeSome] at h
      split at h <;> cases h <;> trivial
  | writeAll bytes => exact nulFree_answerDone h
  | flush => exact nulFree_answerDone h
  | _ =>
      cases h
      trivial

theorem NulFree.perform {s : Session} (hs : s.NulFree) (operation : Operation) :
    (s.perform operation).2.NulFree := by
  by_cases htouches : Part.bindings ∈ operation.touches
  · cases operation with
    | free operand =>
        cases operand with
        | none => exact hs
        | some operand =>
            cases operand with
            | named name => exact hs.set (Value.nulFree_release (hs.get name)) name
            | _ => exact hs
    | _ => simp [Operation.touches] at htouches
  · exact hs.of_bindings_eq (s.perform_changes operation .bindings htouches)

theorem NulFree.step {s t : Session} (hs : s.NulFree) {step : Step} {answer : Answer}
    (h : s.step step = (.ok answer, t)) : answer.NulFree ∧ t.NulFree := by
  obtain ⟨u, hperform, rfl⟩ := exists_perform_of_step h
  have hanswer : answer.NulFree := hs.perform_answer (by rw [hperform])
  have hu : u.NulFree := by
    have hleft := hs.perform step.operation
    rwa [hperform] at hleft
  exact ⟨hanswer, hu.keep hanswer step.keep⟩

theorem NulFree.performs {s t : Session} (hs : s.NulFree) {steps : List Step}
    {answers : List Answer} (h : s.Performs steps answers t) :
    (∀ answer ∈ answers, answer.NulFree) ∧ t.NulFree :=
  h.invariant (fun hnulFree hstep => hnulFree.step hstep) hs

theorem NulFree.run {s : Session} (hs : s.NulFree) (program : List Step) :
    (∀ answer ∈ (s.run program).answers, answer.NulFree) ∧ (s.run program).final.NulFree := by
  obtain ⟨before, after, t, -, hperforms, -, hfinal⟩ := s.exists_finish program
  obtain ⟨hanswers, ht⟩ := hs.performs hperforms
  refine ⟨hanswers, ?_⟩
  rw [hfinal]
  exact ht.of_bindings_eq (t.changes_finish _ .bindings (by simp))

end Session

namespace Value

/-! ## Nothing is cut off -/

def size (v : Value) : Nat := (v.asBytes?.getD []).length

/-- The results of operations on the two values hold all the bytes that were computed. -/
structure Uncut (v w : Value) : Prop where
  duplicate : v.duplicate.asBytes? = v.asBytes? ∧ v.duplicate.size = v.size
  toText : v.toText.asBytes? = some v.render
  upper : ∀ bytes ∈ v.asBytes?, ∃ u, v.upper = .ok u ∧
    u.asBytes? = some (bytes.map Byte.toUpper) ∧ u.size = v.size
  lower : ∀ bytes ∈ v.asBytes?, ∃ u, v.lower = .ok u ∧
    u.asBytes? = some (bytes.map Byte.toLower) ∧ u.size = v.size
  concat : (v.concat w).asBytes? = some (v.asBytes?.getD [] ++ w.asBytes?.getD []) ∧
    (v.concat w).size = v.size + w.size

theorem asBytes?_ofBytes {bytes : Bytes} (h : 0 ∉ bytes) :
    (ofBytes bytes).asBytes? = some bytes := by
  rw [ofBytes_of_notMem h]
  rfl

theorem NulFree.duplicate_asBytes? {v : Value} (h : v.NulFree) :
    v.duplicate.asBytes? = v.asBytes? := by
  cases v with
  | string text => exact asBytes?_ofBytes (h text.bytes rfl)
  | _ => rfl

theorem NulFree.render {v : Value} (h : v.NulFree) : 0 ∉ v.render := by
  cases v with
  | int n =>
      rw [Value.render, intText_eq]
      exact nul_notMem_decimalInt _
  | float x => exact fun hmem => x.general_spec.2.1 (List.mem_of_mem_take hmem)
  | string text => exact h text.bytes rfl
  | bool b => cases b <;> decide
  | array => decide

theorem NulFree.getD {v : Value} (h : v.NulFree) : 0 ∉ v.asBytes?.getD [] := by
  cases hbytes : v.asBytes? with
  | none => exact List.not_mem_nil
  | some bytes => exact h bytes hbytes

theorem size_of_asBytes? {v : Value} {bytes : Bytes} (h : v.asBytes? = some bytes) :
    v.size = bytes.length := by
  rw [size, h, Option.getD_some]

theorem nul_notMem_map {bytes : Bytes} (h : 0 ∉ bytes) {f : UInt8 → UInt8}
    (hf : ∀ b ≠ 0, f b ≠ 0) : 0 ∉ bytes.map f := by
  intro hmem
  obtain ⟨b, hb, hzero⟩ := List.mem_map.1 hmem
  refine hf b ?_ hzero
  rintro rfl
  exact h hb

theorem NulFree.map_bytes {v : Value} (h : v.NulFree) {bytes : Bytes} (hbytes : bytes ∈ v.asBytes?)
    {f : UInt8 → UInt8} (hf : ∀ b ≠ 0, f b ≠ 0) :
    (ofBytes (bytes.map f)).asBytes? = some (bytes.map f) ∧
      (ofBytes (bytes.map f)).size = v.size := by
  have hmapped := asBytes?_ofBytes (nul_notMem_map (h bytes hbytes) hf)
  refine ⟨hmapped, ?_⟩
  rw [size_of_asBytes? hmapped, size_of_asBytes? hbytes, List.length_map]

theorem upper_of_asBytes? {v : Value} {bytes : Bytes} (h : v.asBytes? = some bytes) :
    v.upper = .ok (ofBytes (bytes.map Byte.toUpper)) := by
  cases v <;> cases h
  rfl

theorem lower_of_asBytes? {v : Value} {bytes : Bytes} (h : v.asBytes? = some bytes) :
    v.lower = .ok (ofBytes (bytes.map Byte.toLower)) := by
  cases v <;> cases h
  rfl

theorem NulFree.uncut {v w : Value} (hv : v.NulFree) (hw : w.NulFree) : v.Uncut w where
  duplicate := by
    have hsame := hv.duplicate_asBytes?
    exact ⟨hsame, by rw [size, hsame, size]⟩
  toText := asBytes?_ofBytes hv.render
  upper bytes hbytes :=
    ⟨_, upper_of_asBytes? hbytes, hv.map_bytes hbytes fun b hb => (Byte.mapCase_ne_zero b hb).1⟩
  lower bytes hbytes :=
    ⟨_, lower_of_asBytes? hbytes, hv.map_bytes hbytes fun b hb => (Byte.mapCase_ne_zero b hb).2⟩
  concat := by
    have hconcat : (v.concat w).asBytes? = some (v.asBytes?.getD [] ++ w.asBytes?.getD []) := by
      apply asBytes?_ofBytes
      simp [hv.getD, hw.getD]
    exact ⟨hconcat, by simp [size, hconcat]⟩

end Value

namespace Session

/-- A program that starts without variables never gets a string with a NUL in it, whatever its
input and its files hold: no answer has one, and no variable in any session that the program
comes to. So nothing is cut off the results of operations on what it can name there. -/
theorem reached_strings_nulFree {s : Session} (hstart : s.bindings = []) (program : List Step) :
    (∀ answer ∈ (s.run program).answers, answer.NulFree) ∧
    (s.run program).final.NulFree ∧
    ∀ t, s.Reaches program t →
      t.NulFree ∧ ∀ left right : Operand,
        (left.eval t).NulFree ∧ (left.eval t).Uncut (right.eval t) := by
  have hs : s.NulFree := .of_bindings_eq_nil hstart
  obtain ⟨hanswers, hfinal⟩ := hs.run program
  refine ⟨hanswers, hfinal, ?_⟩
  rintro t ⟨before, after, answers, -, hperforms⟩
  have ht := (hs.performs hperforms).2
  exact ⟨ht, fun left right => ⟨ht.eval left, (ht.eval left).uncut (ht.eval right)⟩⟩

/-- A line and a literal with a NUL in each, and what is left of them. -/
theorem reached_strings_of_nul_input_nulFree :
    let s : Session := { input := .ofBytes [0x61, 0x00, 0x62, 0x0a] }
    let join : Operation := .binary .concat (.named "x") (.bytes [0x63, 0x00, 0x64])
    let program : List Step := [⟨.input, some "x"⟩, ⟨join, some "y"⟩]
    s.bindings = [] ∧
      (s.run program).answers = [.value (.ofBytes (ascii "a")), .value (.ofBytes (ascii "ac"))] ∧
      (∀ answer ∈ (s.run program).answers, answer.NulFree) ∧
      (s.run program).final.NulFree := by
  intro s join program
  obtain ⟨hanswers, hfinal, -⟩ := reached_strings_nulFree (s := s) rfl program
  exact ⟨rfl, by decide, hanswers, hfinal⟩

end Session

end Tagged
