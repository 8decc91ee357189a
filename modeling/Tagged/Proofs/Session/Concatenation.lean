import Tagged.Proofs.CaseMapping

/-!
# Concatenation

Concatenation cuts its result at the first NUL, and values that are no strings vanish in it. As no
string that a program gets hold of has a NUL in it, nothing is ever cut off there: concatenation
joins bytes, with everything that has no bytes as a neutral element, and length and case mapping go
through it.
-/

namespace Tagged

namespace Value

/-- A value that a program without variables at its start can name at some point, or is answered. -/
inductive Reachable : Value → Prop
  | named {s t : Session} {program : List Step} (hstart : s.bindings = [])
      (hreaches : s.Reaches program t) (operand : Operand) : Reachable (operand.eval t)
  | answered {s : Session} {program : List Step} {v : Value} (hstart : s.bindings = [])
      (hanswer : .value v ∈ (s.run program).answers) : Reachable v

def contents (v : Value) : Bytes := v.asBytes?.getD []

def IsBlank (v : Value) : Prop :=
  v.tag ≠ .string ∨ v = .string .released ∨ v = .string (.live [])

structure ConcatLaws (a b c : Value) : Prop where
  assoc : (a.concat b).concat c = a.concat (b.concat c)
  blank : a.IsBlank →
    a.concat b = .string (.live b.contents) ∧ b.concat a = .string (.live b.contents)
  length : ∃ n : Int64, (a.concat b).length = .ok (.int n) ∧
    n = Int64.ofInt (a.contents.length + b.contents.length) ∧
    (a.contents.length + b.contents.length < 2 ^ 63 →
      n.toInt = a.contents.length + b.contents.length)
  upper : a.tag = .string → b.tag = .string →
    ∃ up up', a.upper = .ok up ∧ b.upper = .ok up' ∧ (a.concat b).upper = .ok (up.concat up')
  lower : a.tag = .string → b.tag = .string →
    ∃ low low', a.lower = .ok low ∧ b.lower = .ok low' ∧ (a.concat b).lower = .ok (low.concat low')

theorem Reachable.nulFree {v : Value} (h : v.Reachable) : v.NulFree := by
  cases h with
  | named hstart hreaches operand =>
      obtain ⟨before, after, answers, -, hperforms⟩ := hreaches
      exact ((Session.NulFree.of_bindings_eq_nil hstart).performs hperforms).2.eval operand
  | answered hstart hanswer =>
      exact ((Session.NulFree.of_bindings_eq_nil hstart).run _).1 _ hanswer

theorem contents_of_isBlank {v : Value} (h : v.IsBlank) : v.contents = [] := by
  rcases h with htag | rfl | rfl
  · cases v with
    | string text => exact absurd rfl htag
    | _ => rfl
  · rfl
  · rfl

section NulFree

variable {a b c : Value} (ha : a.NulFree) (hb : b.NulFree)

include ha hb

theorem NulFree.concat_eq : a.concat b = .string (.live (a.contents ++ b.contents)) := by
  apply ofBytes_of_notMem
  rw [List.mem_append, not_or]
  exact ⟨ha.getD, hb.getD⟩

theorem NulFree.contents_concat : (a.concat b).contents = a.contents ++ b.contents := by
  rw [ha.concat_eq hb]
  rfl

theorem NulFree.concat_assoc (hc : c.NulFree) :
    (a.concat b).concat c = a.concat (b.concat c) := by
  have hab : (a.concat b).NulFree := nulFree_ofBytes _
  have hbc : (b.concat c).NulFree := nulFree_ofBytes _
  rw [hab.concat_eq hc, ha.concat_eq hbc, ha.contents_concat hb, hb.contents_concat hc,
    List.append_assoc]

theorem NulFree.concat_blank (h : a.IsBlank) :
    a.concat b = .string (.live b.contents) ∧ b.concat a = .string (.live b.contents) := by
  rw [ha.concat_eq hb, hb.concat_eq ha, contents_of_isBlank h, List.nil_append, List.append_nil]
  exact ⟨rfl, rfl⟩

theorem NulFree.length_concat :
    (a.concat b).length =
      .ok (.int (Int64.ofInt (a.contents.length + b.contents.length))) := by
  rw [ha.concat_eq hb, ← Nat.cast_add, ← List.length_append]
  rfl

end NulFree

/-- An operation that maps the bytes of a string, and makes no NUL of them, goes through a
concatenation. -/
theorem NulFree.map_concat {a b : Value} (ha : a.NulFree) (hb : b.NulFree)
    {op : Value → Except Fault Value} {f : UInt8 → UInt8} (hf : ∀ b ≠ 0, f b ≠ 0)
    (hop : ∀ {text : Text}, 0 ∉ text.bytes →
      op (.string text) = .ok (.string (.live (text.bytes.map f))))
    (hstring : a.tag = .string) (hstring' : b.tag = .string) :
    ∃ u u', op a = .ok u ∧ op b = .ok u' ∧ op (a.concat b) = .ok (u.concat u') := by
  obtain ⟨text, rfl⟩ := exists_eq_string hstring
  obtain ⟨text', rfl⟩ := exists_eq_string hstring'
  have htext : 0 ∉ text.bytes := ha.getD
  have htext' : 0 ∉ text'.bytes := hb.getD
  have hjoined : 0 ∉ (Text.live (text.bytes ++ text'.bytes)).bytes := by
    rw [Text.bytes, List.mem_append, not_or]
    exact ⟨htext, htext'⟩
  have hmapped : ofBytes (text.bytes.map f ++ text'.bytes.map f) =
      .string (.live ((text.bytes ++ text'.bytes).map f)) := by
    rw [← List.map_append]
    exact ofBytes_of_notMem (nul_notMem_map hjoined hf)
  refine ⟨_, _, hop htext, hop htext', ?_⟩
  rw [ha.concat_eq hb]
  exact (hop hjoined).trans (congrArg Except.ok hmapped.symm)

theorem NulFree.concatLaws {a b c : Value} (ha : a.NulFree) (hb : b.NulFree) (hc : c.NulFree) :
    a.ConcatLaws b c where
  assoc := ha.concat_assoc hb hc
  blank := ha.concat_blank hb
  length := by
    refine ⟨_, ha.length_concat hb, rfl, fun hlt => ?_⟩
    exact Int64.toInt_ofInt_of_le (by omega) (by omega)
  upper := ha.map_concat hb (fun b hb => (Byte.mapCase_ne_zero b hb).1) upper_string
  lower := ha.map_concat hb (fun b hb => (Byte.mapCase_ne_zero b hb).2) lower_string

/-- Concatenation of what a program can get hold of is a monoid: it is associative, whatever has no
bytes is neutral, and length and case mapping respect it. -/
theorem concat_is_monoid {a b c : Value} (ha : a.Reachable) (hb : b.Reachable)
    (hc : c.Reachable) : a.ConcatLaws b c :=
  ha.nulFree.concatLaws hb.nulFree hc.nulFree

/-- The rest of a line that had a NUL in it, a released string and a literal. -/
theorem concat_of_cut_line_is_monoid :
    let line : Value := .string (.live (ascii "a"))
    let gone : Value := .string .released
    let literal : Value := .string (.live (ascii "b"))
    line.Reachable ∧ gone.Reachable ∧ literal.Reachable ∧ gone.IsBlank ∧
      line.ConcatLaws gone literal ∧ gone.ConcatLaws line literal ∧
      (line.concat gone).concat literal = .string (.live (ascii "ab")) := by
  intro line gone literal
  let s : Session := { input := .ofBytes [0x61, 0x00, 0x62, 0x0a] }
  have hanswer : .value line ∈ (s.run [⟨.input, none⟩]).answers := by decide
  have hreaches : s.Reaches [] s := ⟨[], [], [], rfl, .nil s⟩
  have hline : line.Reachable := .answered rfl hanswer
  have hgone : gone.Reachable := .named rfl hreaches .released
  have hliteral : literal.Reachable := .named rfl hreaches (.bytes (ascii "b"))
  exact ⟨hline, hgone, hliteral, .inr (.inl rfl), concat_is_monoid hline hgone hliteral,
    concat_is_monoid hgone hline hliteral, by decide⟩

end Value

end Tagged
