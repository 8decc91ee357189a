import Tagged.Proofs.Files.Write
import Tagged.Proofs.Session.NulFree
import Tagged.Proofs.Session.Quiet

/-!
# Files along a run

What a program writes to a file it reads back, for as long as it writes no more, and files that
other paths lead to stay as they were. A write that fails is as good as none. A string has no NUL,
so nothing of it is cut off on the way through a file; a file with a NUL is read up to it.
-/

namespace Tagged

def Operation.writesFiles : Operation → Bool
  | .saveFile _ _ | .putFile _ _ | .makeDirectories _ | .makeLink _ _ => true
  | _ => false

namespace Session

/-- In the session, the value is a path that leads to something at the location. -/
def LeadsTo (s : Session) (path : Value) (loc : Location) : Prop :=
  ∃ text, path = .string text ∧ s.files.resolve .lookup text.bytes = .ok (.found loc)

/-! ## Reading -/

/-- Reading looks at the files only, and what cannot be read is empty. -/
theorem loadFile_string (s : Session) (text : Text) :
    (s.loadFile (.string text)).1 =
      .ok (.ofBytes ((s.files.read text.bytes).toOption.getD [])) := by
  unfold loadFile
  simp only [Value.expectText]
  cases s.files.read text.bytes <;> rfl

theorem loadFile_of_files_eq {s t : Session} (h : t.files = s.files) (path : Value) :
    (t.loadFile path).1 = (s.loadFile path).1 := by
  cases path with
  | string text => rw [loadFile_string, loadFile_string, h]
  | _ => rfl

theorem loadFile_of_leadsTo {s : Session} {path : Value} {loc : Location} {content : Bytes}
    (h : s.LeadsTo path loc) (hloc : s.files.get? loc = some (.file content)) :
    (s.loadFile path).1 = .ok (.string (.live (content.takeWhile (· != 0)))) := by
  obtain ⟨text, rfl, hresolve⟩ := h
  rw [loadFile_string, FileTree.read_of_resolve hresolve hloc]
  rfl

/-- A path exists exactly if it leads somewhere. -/
theorem exists_fileExists_eq (s : Session) (text : Text) :
    ∃ found, (s.fileExists (.string text)).1 = .ok (.bool found) ∧
      (found = true ↔ ∃ loc, s.LeadsTo (.string text) loc) := by
  refine ⟨s.files.contains text.bytes, rfl, ?_⟩
  rw [FileTree.contains_iff]
  constructor
  · rintro ⟨loc, hresolve⟩
    exact ⟨loc, text, rfl, hresolve⟩
  · rintro ⟨loc, _, ⟨⟩, hresolve⟩
    exact ⟨loc, hresolve⟩

theorem fileExists_of_leadsTo {s : Session} {path : Value} {loc : Location}
    (h : s.LeadsTo path loc) : (s.fileExists path).1 = .ok (.bool true) := by
  obtain ⟨text, rfl, -⟩ := id h
  obtain ⟨found, hexists, hfound⟩ := s.exists_fileExists_eq text
  rw [hexists, hfound.2 ⟨loc, h⟩]

/-- What does not exist cannot be read. -/
theorem loadFile_of_not_exists {s : Session} {path : Value}
    (h : (s.fileExists path).1 = .ok (.bool false)) : (s.loadFile path).1 = .ok (.ofBytes []) := by
  cases path with
  | string text =>
      have hcontains : s.files.contains text.bytes = false := by
        injection h with h
        injection h
      have hread : (s.files.read text.bytes).toOption = none := by
        unfold FileTree.read
        split
        next => rfl
        next => rfl
        next loc hresolve =>
          rw [FileTree.contains_iff.2 ⟨loc, hresolve⟩] at hcontains
          cases hcontains
      rw [loadFile_string, hread]
      rfl
  | _ => cases h

/-! ## Writing -/

theorem write_of_saved {s t : Session} {path content : Value}
    (h : s.saveFile path content = (.ok (.bool true), t)) :
    ∃ p c, path = .string p ∧ content = .string c ∧
      s.files.write p.bytes c.bytes = .ok t.files := by
  unfold saveFile at h
  split at h
  next => cases h
  next p hp =>
    split at h
    next => cases h
    next c hc =>
      split at h
      next files hwrite =>
        cases h
        exact ⟨p, c, Value.eq_string_of_expectText hp, Value.eq_string_of_expectText hc, hwrite⟩
      next => cases h

theorem log_of_not_saved {s t : Session} {path content : Value}
    (h : s.saveFile path content = (.ok (.bool false), t)) : ∃ e, t = s.log e := by
  unfold saveFile at h
  split at h
  next => cases h
  next =>
    split at h
    next => cases h
    next =>
      split at h
      next => cases h
      next =>
        cases h
        exact ⟨_, rfl⟩

theorem saveFile_of_step {s t : Session} {path content : Operand} {keep : Option String}
    {answer : Value}
    (h : s.step ⟨.saveFile path content, keep⟩ = (.ok (.value answer), t)) :
    ∃ u, s.saveFile (path.eval s) (content.eval s) = (.ok answer, u) ∧
      t = u.keep keep (.value answer) := by
  obtain ⟨u, hperform, rfl⟩ := exists_perform_of_step h
  rw [perform] at hperform
  rcases hsave : s.saveFile (path.eval s) (content.eval s) with ⟨result, v⟩
  rw [hsave] at hperform
  cases result <;> cases hperform
  exact ⟨u, rfl, rfl⟩

theorem files_of_performs {s t : Session} {steps : List Step} {answers : List Answer}
    (h : s.Performs steps answers t)
    (hsteps : ∀ step ∈ steps, step.operation.writesFiles = false) : t.files = s.files := by
  induction h with
  | nil => rfl
  | @cons s t u step _ _ _ hstep _ ih =>
      have htouches : Part.files ∉ Part.bindings :: step.operation.touches := by
        have hwrites := hsteps step (by simp)
        cases hop : step.operation with
        | saveFile | putFile | makeDirectories | makeLink =>
            simp [hop, Operation.writesFiles] at hwrites
        | _ => simp [Operation.touches]
      have hfiles := s.step_changes step .files htouches
      rw [hstep] at hfiles
      exact (ih fun step hmem => hsteps step (by simp [hmem])).trans hfiles

/-- After a write the path leads to a file with the content, and the paths that lead elsewhere
read as before. -/
theorem leadsTo_of_saved {s t : Session} {path content : Value}
    (h : s.saveFile path content = (.ok (.bool true), t)) :
    (∃ loc text, content = .string text ∧ t.LeadsTo path loc ∧
      t.files.get? loc = some (.file text.bytes)) ∧
    ∀ other loc, s.LeadsTo other loc → ¬ t.LeadsTo path loc →
      (t.loadFile other).1 = (s.loadFile other).1 := by
  obtain ⟨p, c, rfl, rfl, hwrite⟩ := write_of_saved h
  constructor
  · obtain ⟨-, loc, hresolve, hloc, -⟩ := FileTree.write_spec hwrite
    exact ⟨loc, c, rfl, ⟨p, rfl, hresolve⟩, hloc⟩
  · rintro _ loc ⟨q, rfl, hother⟩ hne
    have hpath : t.files.resolve .lookup p.bytes ≠ .ok (.found loc) :=
      fun hresolve => hne ⟨p, rfl, hresolve⟩
    rw [loadFile_string, loadFile_string, FileTree.read_write_of_ne hwrite hother hpath]

theorem leadsTo_of_files_eq {s t : Session} (h : t.files = s.files) {path : Value}
    {loc : Location} : t.LeadsTo path loc ↔ s.LeadsTo path loc := by
  unfold LeadsTo
  rw [h]

theorem equal_ofBytes_of_nulFree {text : Text} (h : 0 ∉ text.bytes) :
    (Value.ofBytes text.bytes).equal (.string text) = true := by
  rw [Value.ofBytes_of_notMem h]
  exact beq_self_eq_true text.bytes

/-- A failed write is as good as none: the rest of the program goes as it would have gone with
nothing but the answer kept. -/
theorem run_alike_of_not_saved {s t : Session} {path content : Operand} {keep : Option String}
    (h : s.step ⟨.saveFile path content, keep⟩ = (.ok (.value (.bool false)), t))
    (rest : List Step) : (t.run rest).Alike ((s.keep keep (.value (.bool false))).run rest) := by
  obtain ⟨u, hsave, rfl⟩ := saveFile_of_step h
  obtain ⟨e, rfl⟩ := log_of_not_saved hsave
  apply run_alike _ rfl
  rw [quiet_keep, quiet_keep, quiet_log]

/-- In every session that a program comes to: a write that answers true is read back through the
same path, and the file exists, right away and after any further steps that write no files; a path
that led elsewhere before reads as it did. A write that answers false leaves the rest of the
program as if it had not been tried. A path exists exactly if it leads somewhere. What does not
exist reads as the empty string, and a file reads up to its first NUL. -/
theorem saved_files_are_read_back {s₀ s : Session} {program : List Step}
    (hstart : s₀.bindings = []) (hreaches : s₀.Reaches program s) (path content : Operand)
    (keep : Option String) :
    (∀ t, s.step ⟨.saveFile path content, keep⟩ = (.ok (.value (.bool true)), t) →
      (∀ rest answers u, (∀ step ∈ rest, step.operation.writesFiles = false) →
        t.Performs rest answers u →
          (∃ v, (u.loadFile (path.eval s)).1 = .ok v ∧ v.equal (content.eval s) = true) ∧
          (u.fileExists (path.eval s)).1 = .ok (.bool true)) ∧
      ∀ other loc, s.LeadsTo other loc → ¬ t.LeadsTo (path.eval s) loc →
        (t.loadFile other).1 = (s.loadFile other).1) ∧
    (∀ t, s.step ⟨.saveFile path content, keep⟩ = (.ok (.value (.bool false)), t) →
      ∀ rest, (t.run rest).answers = ((s.keep keep (.value (.bool false))).run rest).answers) ∧
    (∀ text, ∃ found, (s.fileExists (.string text)).1 = .ok (.bool found) ∧
      (found = true ↔ ∃ loc, s.LeadsTo (.string text) loc)) ∧
    (∀ other, (s.fileExists other).1 = .ok (.bool false) →
      (s.loadFile other).1 = .ok (.ofBytes [])) ∧
    ∀ other loc bytes, s.LeadsTo other loc → s.files.get? loc = some (.file bytes) →
      (s.loadFile other).1 = .ok (.string (.live (bytes.takeWhile (· != 0)))) := by
  obtain ⟨before, after, answers, -, hbefore⟩ := hreaches
  have hs : s.NulFree := ((NulFree.of_bindings_eq_nil hstart).performs hbefore).2
  refine ⟨?_, fun t h rest => (run_alike_of_not_saved h rest).answers,
    s.exists_fileExists_eq, fun _ => loadFile_of_not_exists, fun _ _ _ => loadFile_of_leadsTo⟩
  intro t h
  obtain ⟨u, hsave, rfl⟩ := saveFile_of_step h
  have hkeep : (u.keep keep (.value (.bool true))).files = u.files :=
    u.changes_keep keep _ .files (by simp)
  obtain ⟨⟨loc, text, hcontent, hpath, hloc⟩, hothers⟩ := leadsTo_of_saved hsave
  constructor
  · intro rest answers v hrest hperforms
    have hfiles : v.files = u.files := (files_of_performs hperforms hrest).trans hkeep
    have hleads : v.LeadsTo (path.eval s) loc := (leadsTo_of_files_eq hfiles).2 hpath
    refine ⟨⟨_, loadFile_of_leadsTo hleads (hfiles ▸ hloc), ?_⟩, fileExists_of_leadsTo hleads⟩
    have hnul : 0 ∉ text.bytes := hs.eval content text.bytes (by rw [hcontent]; rfl)
    rw [hcontent]
    exact equal_ofBytes_of_nulFree hnul
  · intro other loc hother hne
    rw [loadFile_of_files_eq hkeep]
    exact hothers other loc hother fun hsame => hne ((leadsTo_of_files_eq hkeep).2 hsame)

/-- A string is written through a dangling link, which leads nowhere before. That creates a file,
and the string is read back through the link. Another file stays as it was, up to its first NUL. -/
theorem file_saved_through_link_is_read_back :
    let link : Operand := .bytes (ascii "l")
    let files : FileTree :=
      ⟨[([ascii "l"], .link (ascii "./f")), ([ascii "g"], .file [0x78, 0x00, 0x79])]⟩
    let s : Session := { files }
    let save : Step := ⟨.saveFile link (.bytes (ascii "ab")), none⟩
    let t := (s.step save).2
    (s.fileExists (.ofBytes (ascii "l"))).1 = .ok (.bool false) ∧
      (s.step save).1 = .ok (.value (.bool true)) ∧
      (∃ v, (t.loadFile (.ofBytes (ascii "l"))).1 = .ok v ∧
        v.equal (.ofBytes (ascii "ab")) = true) ∧
      (t.fileExists (.ofBytes (ascii "l"))).1 = .ok (.bool true) ∧
      (t.loadFile (.ofBytes (ascii "g"))).1 = .ok (.ofBytes (ascii "x")) := by
  intro link files s save t
  have hreaches : s.Reaches [] s := ⟨[], [], [], rfl, .nil s⟩
  have hsaved : (s.step save).1 = .ok (.value (.bool true)) := by decide +kernel
  obtain ⟨hread, -, hexistence, -, hcontent⟩ :=
    saved_files_are_read_back rfl hreaches link (.bytes (ascii "ab")) none
  have hdangling : (s.fileExists (.ofBytes (ascii "l"))).1 = .ok (.bool false) := by
    obtain ⟨found, hanswer, hfound⟩ := hexistence (.ofBytes (ascii "l"))
    have hnowhere : ¬ found = true := by
      rw [hfound]
      rintro ⟨loc, _, ⟨⟩, hresolve⟩
      have hmissing : files.resolve .lookup (ascii "l") = .ok (.missing [] (ascii "f")) := by
        decide +kernel
      cases hmissing.symm.trans hresolve
    rw [← eq_false_of_ne_true hnowhere]
    exact hanswer
  obtain ⟨hback, hothers⟩ := hread t (Prod.ext hsaved rfl)
  obtain ⟨hvalue, hexists⟩ := hback [] [] t (by simp) (.nil t)
  have hother : s.LeadsTo (.ofBytes (ascii "g")) [ascii "g"] := ⟨_, rfl, by decide +kernel⟩
  refine ⟨hdangling, hsaved, hvalue, hexists, ?_⟩
  rw [hothers _ _ hother ?_, hcontent _ _ _ hother rfl]
  · rfl
  · rintro ⟨_, ⟨⟩, hresolve⟩
    revert hresolve
    decide +kernel

end Session

end Tagged
