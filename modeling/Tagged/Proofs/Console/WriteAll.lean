import Mathlib.Logic.Relation
import Tagged.Proofs.Console.Written

/-!
# Writing all bytes

A write takes a NUL alone, or the bytes up to the next NUL, so it may take several writes to write
all bytes. From write to write, what is written and what is left make up the same bytes, and less
is left every time. A loop that gives up when nothing was written therefore never does so.
-/

namespace Tagged.Output

/-! ## One write -/

/-- What a write takes off the front of the bytes. Text ends before a NUL or with the last byte,
unless it is as long as a run can be. -/
inductive IsRun : Bytes → Bytes → Prop
  | nul (rest : Bytes) : IsRun (0 :: rest) [0]
  | text {taken rest : Bytes} (hne : taken ≠ []) (hfree : 0 ∉ taken)
      (hlength : taken.length ≤ maxRun)
      (hends : rest = [] ∨ rest.head? = some 0 ∨ taken.length = maxRun) :
      IsRun (taken ++ rest) taken

theorem dropWhile_ends (bytes : Bytes) :
    bytes.dropWhile (· != 0) = [] ∨ (bytes.dropWhile (· != 0)).head? = some 0 := by
  have hhead := List.head?_dropWhile_not (· != 0) bytes
  cases hfound : (bytes.dropWhile (· != 0)).head? with
  | none => exact .inl (List.head?_eq_none_iff.1 hfound)
  | some b =>
      rw [hfound] at hhead
      exact .inr (by simpa using hhead)

theorem isRun_run {bytes : Bytes} (hne : bytes ≠ []) : IsRun bytes (run bytes) := by
  obtain ⟨b, rest, rfl⟩ := List.exists_cons_of_ne_nil hne
  by_cases hb : b = 0
  · subst hb
    exact .nul rest
  · have hpos := run_length_pos hne
    rw [run, if_neg (by simpa using hb)] at hpos ⊢
    have hends := dropWhile_ends (b :: rest)
    have hfree : 0 ∉ (b :: rest).takeWhile (· != 0) := by
      intro hmem
      have := List.mem_takeWhile_imp hmem
      simp at this
    have hsplit : b :: rest = (b :: rest).takeWhile (· != 0) ++ (b :: rest).dropWhile (· != 0) :=
      List.takeWhile_append_dropWhile.symm
    generalize (b :: rest).takeWhile (· != 0) = before at *
    generalize (b :: rest).dropWhile (· != 0) = behind at *
    rw [hsplit, ← List.take_append_drop maxRun before, List.append_assoc,
      List.take_append_drop maxRun before]
    refine .text (List.ne_nil_of_length_pos hpos) (fun hmem => hfree (List.mem_of_mem_take hmem))
      (List.length_take_le _ _) ?_
    rcases Nat.le_total before.length maxRun with hshort | hlong
    · rw [List.drop_eq_nil_of_le hshort, List.nil_append]
      exact hends.imp_right .inl
    · exact .inr (.inr (by rw [List.length_take, Nat.min_eq_left hlong]))

/-- Bytes are lost only if a write fails, whatever the device. -/
theorem written_of_put {o o' : Output} {bytes : Bytes} (h : o.put bytes = (.ok (), o')) :
    o'.written = o.written ++ bytes := by
  have hstate : o' = { o with buffered := bytes :: o.buffered, opened := true } := by
    unfold put at h
    split at h
    · exact (Prod.mk.inj h).2.symm
    · split at h
      · exact (Prod.mk.inj h).2.symm
      · cases (Prod.mk.inj h).1
  rw [hstate]
  simp [written]

theorem write_ok {o o' : Output} {bytes : Bytes} {n : Nat} (hne : bytes ≠ [])
    (h : o.write bytes = (.ok n, o')) :
    bytes.take n = run bytes ∧ n = (run bytes).length ∧ o'.written = o.written ++ run bytes := by
  rw [write, if_neg (by simpa using hne)] at h
  rcases hput : o.put (run bytes) with ⟨result, after⟩
  rw [hput] at h
  cases result with
  | error failure => cases (Prod.mk.inj h).1
  | ok _ =>
      cases h
      exact ⟨(List.prefix_iff_eq_take.1 (isPrefix_run bytes)).symm, rfl, written_of_put hput⟩

/-! ## Write after write -/

inductive Step : Output × Bytes → Output × Bytes → Prop
  | mk {o o' : Output} {bytes : Bytes} {n : Nat} (hne : bytes ≠ [])
      (hwrite : o.write bytes = (.ok n, o')) : Step (o, bytes) (o', bytes.drop n)

theorem Step.written_append {s t : Output × Bytes} (h : Step s t) :
    t.1.written ++ t.2 = s.1.written ++ s.2 := by
  obtain @⟨o, o', bytes, n, hne, hwrite⟩ := h
  obtain ⟨htaken, -, hwritten⟩ := write_ok hne hwrite
  dsimp only
  rw [hwritten, ← htaken, List.append_assoc, List.take_append_drop]

theorem Step.length_lt {s t : Output × Bytes} (h : Step s t) : t.2.length < s.2.length := by
  obtain @⟨o, o', bytes, n, hne, hwrite⟩ := h
  exact drop_length_lt hne (pos_of_write_eq_ok hne hwrite)

theorem written_append_of_steps {s t : Output × Bytes} (h : Relation.ReflTransGen Step s t) :
    t.1.written ++ t.2 = s.1.written ++ s.2 := by
  induction h with
  | refl => rfl
  | tail _ hstep ih => rw [hstep.written_append, ih]

theorem wellFounded_step : WellFounded fun after before => Step before after :=
  Subrelation.wf (fun h => Step.length_lt h)
    (InvImage.wf (fun s : Output × Bytes => s.2.length) Nat.lt_wfRel.wf)

theorem steps_of_writeAll {o : Output} {bytes : Bytes} (h : (o.writeAll bytes).1 = .ok ()) :
    Relation.ReflTransGen Step (o, bytes) ((o.writeAll bytes).2, []) := by
  fun_induction writeAll o bytes with
  | case1 o => exact .refl
  | case2 o bytes hne failure o' hwrite => cases h
  | case3 o bytes hne n o' hwrite hlt ih => exact (ih h).head (.mk hne hwrite)

/-! ## The loop with its checks -/

inductive Stop where
  | failed (failure : Failure)
  | wroteNothing
  | wroteTooMuch
deriving DecidableEq, Repr

/-- Repeats `write`, and gives up if it answers that no byte was written, or more than there are. -/
def writeChecked (o : Output) (bytes : Bytes) : Except Stop Unit × Output :=
  if h : bytes = [] then (.ok (), o)
  else
    match o.write bytes with
    | (.error failure, o) => (.error (.failed failure), o)
    | (.ok 0, o) => (.error .wroteNothing, o)
    | (.ok (n + 1), o) =>
      have := drop_length_lt h (Nat.succ_pos n)
      if n + 1 ≤ bytes.length then o.writeChecked (bytes.drop (n + 1))
      else (.error .wroteTooMuch, o)
termination_by bytes.length
decreasing_by exact this

/-- None of the checks ever fails. -/
theorem writeChecked_eq (o : Output) (bytes : Bytes) :
    o.writeChecked bytes = ((o.writeAll bytes).1.mapError .failed, (o.writeAll bytes).2) := by
  fun_induction writeAll o bytes with
  | case1 o =>
      rw [writeChecked]
      rfl
  | case2 o bytes hne failure o' hwrite =>
      rw [writeChecked, dif_neg hne, hwrite]
      rfl
  | case3 o bytes hne n o' hwrite hlt ih =>
      obtain ⟨-, hlength, -⟩ := write_ok hne hwrite
      have hle := (isPrefix_run bytes).length_le
      obtain ⟨m, rfl⟩ := Nat.exists_eq_succ_of_ne_zero (pos_of_write_eq_ok hne hwrite).ne'
      rw [writeChecked, dif_neg hne, hwrite]
      dsimp only
      rw [if_pos (by omega), ih]

theorem writeChecked_ne_wroteNothing (o : Output) (bytes : Bytes) :
    (o.writeChecked bytes).1 ≠ .error .wroteNothing := by
  rw [writeChecked_eq]
  cases (o.writeAll bytes).1 <;> simp [Except.mapError]

/-- A write of some bytes that succeeds takes a NUL or a run of text off their front, and writes
it. So write after write comes to an end, and nothing is lost or written twice on the way. The loop
never stops because nothing was written, and if no write fails, it has written all bytes. -/
theorem write_all_loses_nothing :
    (∀ (o o' : Output) (bytes : Bytes) (n : Nat), bytes ≠ [] → o.write bytes = (.ok n, o') →
      1 ≤ n ∧ n ≤ bytes.length ∧ IsRun bytes (bytes.take n) ∧
        o'.written = o.written ++ bytes.take n) ∧
    (WellFounded fun after before => Step before after) ∧
    (∀ (o o' : Output) (bytes rest : Bytes),
      Relation.ReflTransGen Step (o, bytes) (o', rest) →
        o'.written ++ rest = o.written ++ bytes) ∧
    ∀ (o : Output) (bytes : Bytes),
      (o.writeChecked bytes).1 ≠ .error .wroteNothing ∧
        o.writeChecked bytes = ((o.writeAll bytes).1.mapError .failed, (o.writeAll bytes).2) ∧
        ((o.writeAll bytes).1 = .ok () →
          (o.writeAll bytes).2.written = o.written ++ bytes) ∧
        (o.device = .accepting → (o.writeAll bytes).1 = .ok ()) := by
  refine ⟨fun o o' bytes n hne hwrite => ?_, wellFounded_step,
    fun o o' bytes rest hsteps => written_append_of_steps hsteps, fun o bytes => ?_⟩
  · obtain ⟨htaken, hlength, hwritten⟩ := write_ok hne hwrite
    have hle := (isPrefix_run bytes).length_le
    rw [htaken]
    exact ⟨pos_of_write_eq_ok hne hwrite, by omega, isRun_run hne, hwritten⟩
  · refine ⟨writeChecked_ne_wroteNothing o bytes, writeChecked_eq o bytes, fun hok => ?_,
      fun hdevice => (writeAll_appends hdevice bytes).1⟩
    have hwritten := written_append_of_steps (steps_of_writeAll hok)
    rwa [List.append_nil] at hwritten

/-- Text with a NUL behind it takes two writes, on a full device as well. -/
theorem nul_behind_text_is_written :
    let bytes : Bytes := [0x68, 0x69, 0]
    let o : Output := { device := .full }
    let o' : Output := { device := .full, buffered := [[0x68, 0x69]], opened := true }
    o.write bytes = (.ok 2, o') ∧ IsRun bytes [0x68, 0x69] ∧ o'.written = [0x68, 0x69] ∧
      (o.writeAll bytes).1 = .ok () ∧ (o.writeAll bytes).2.written = bytes := by
  intro bytes o o'
  obtain ⟨hstep, -, -, hloop⟩ := write_all_loses_nothing
  have hwrite : o.write bytes = (.ok 2, o') := rfl
  have hok : (o.writeAll bytes).1 = .ok () := by decide +kernel
  obtain ⟨-, -, hrun, hwritten⟩ := hstep o o' bytes 2 (by decide) hwrite
  exact ⟨hwrite, hrun, hwritten, hok, (hloop o bytes).2.2.1 hok⟩

end Tagged.Output
