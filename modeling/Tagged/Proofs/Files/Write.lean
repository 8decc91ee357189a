import Tagged.Files.Access
import Tagged.Proofs.Stores

/-!
# Writing through a path

A write adds a file or replaces the content of one. Directories and links stay, so a path that led
somewhere leads there still, links and all. The path of the write leads to the written file, even
where nothing was before, because a path is resolved alike for reading and for writing once there
is something at its end.
-/

namespace Tagged

def Arrival.location : Arrival → Location
  | .found loc => loc
  | .missing parent name => parent ++ [name]

def Advance.found : Advance → Advance
  | .arrived arrival => .arrived (.found arrival.location)
  | other => other

namespace FileTree

/-! ## Ways without obstacles -/

structure IsLookedUp (purpose : Purpose) (slash : Bool) (name : Bytes) (rest : List Bytes) :
    Prop where
  ne_here : name ≠ [0x2e]
  ne_parent : name ≠ [0x2e, 0x2e]
  accepted : (rest.isEmpty && slash && decide (purpose = .create)) = false
  length : name.length ≤ Path.maxNameLength

/-- The names lead from a location to an end of the way or to a link on it, past no obstacle. -/
inductive Advances (t : FileTree) (purpose : Purpose) (slash : Bool) :
    Location → List Bytes → Advance → Prop
  | nil (here : Location) : Advances t purpose slash here [] (.arrived (.found here))
  | here {here : Location} {rest : List Bytes} {way : Advance}
      (hhere : t.get? here = some .directory) (hrest : Advances t purpose slash here rest way) :
      Advances t purpose slash here ([0x2e] :: rest) way
  | parent {here : Location} {rest : List Bytes} {way : Advance}
      (hhere : t.get? here = some .directory)
      (hrest : Advances t purpose slash here.dropLast rest way) :
      Advances t purpose slash here ([0x2e, 0x2e] :: rest) way
  | enter {here : Location} {name : Bytes} {rest : List Bytes} {way : Advance} {entry : Entry}
      (hhere : t.get? here = some .directory) (hname : IsLookedUp purpose slash name rest)
      (hentry : t.get? (here ++ [name]) = some entry) (hlink : ∀ target, entry ≠ .link target)
      (hrest : Advances t purpose slash (here ++ [name]) rest way) :
      Advances t purpose slash here (name :: rest) way
  | link {here : Location} {name : Bytes} {rest : List Bytes} {target : Bytes}
      (hhere : t.get? here = some .directory) (hname : IsLookedUp purpose slash name rest)
      (hentry : t.get? (here ++ [name]) = some (.link target)) :
      Advances t purpose slash here (name :: rest) (.link here target rest)
  | missing {here : Location} {name : Bytes}
      (hhere : t.get? here = some .directory) (hname : IsLookedUp purpose slash name [])
      (hentry : t.get? (here ++ [name]) = none) :
      Advances t purpose slash here [name] (.arrived (.missing here name))

variable {t u : FileTree} {purpose : Purpose} {slash : Bool} {here : Location} {names : List Bytes}

theorem advance_of_isLookedUp {name : Bytes} {rest : List Bytes}
    (hhere : t.get? here = some .directory) (hname : IsLookedUp purpose slash name rest) :
    t.advance purpose slash here (name :: rest) =
      match t.get? (here ++ [name]) with
      | some (.link target) => .link here target rest
      | some _ => t.advance purpose slash (here ++ [name]) rest
      | none => if rest.isEmpty then .arrived (.missing here name) else .blocked .notFound := by
  rcases hentry : t.get? (here ++ [name]) with _ | ⟨_ | _ | _⟩ <;>
    simp [advance, hhere, hname.ne_here, hname.ne_parent, hname.accepted,
      Nat.not_lt.2 hname.length, hentry]

theorem Advances.advance_eq {way : Advance} (h : t.Advances purpose slash here names way) :
    t.advance purpose slash here names = way := by
  induction h with
  | nil => rfl
  | here hhere _ ih => simp [advance, hhere, ih]
  | parent hhere _ ih => simp [advance, hhere, ih]
  | enter hhere hname hentry hlink _ ih =>
      rw [advance_of_isLookedUp hhere hname, hentry]
      split
      next heq => exact absurd (Option.some.inj heq) (hlink _)
      next => exact ih
      next heq => cases heq
  | link hhere hname hentry => rw [advance_of_isLookedUp hhere hname, hentry]
  | missing hhere hname hentry =>
      rw [advance_of_isLookedUp hhere hname, hentry]
      rfl

theorem advances_of_advance {way : Advance} (h : t.advance purpose slash here names = way)
    (hway : ∀ failure, way ≠ .blocked failure) : t.Advances purpose slash here names way := by
  induction names generalizing here with
  | nil =>
      cases h
      exact .nil here
  | cons name rest ih =>
      rw [advance] at h
      by_cases hdirectory : t.get? here ≠ some .directory
      · rw [if_pos hdirectory] at h
        exact absurd h.symm (hway _)
      rw [if_neg hdirectory] at h
      have hhere := Decidable.not_not.1 hdirectory
      by_cases hne_here : name = [0x2e]
      · rw [if_pos hne_here] at h
        rw [hne_here]
        exact .here hhere (ih h)
      rw [if_neg hne_here] at h
      by_cases hne_parent : name = [0x2e, 0x2e]
      · rw [if_pos hne_parent] at h
        rw [hne_parent]
        exact .parent hhere (ih h)
      rw [if_neg hne_parent] at h
      by_cases hrefused : (rest.isEmpty && slash && decide (purpose = .create)) = true
      · rw [if_pos hrefused] at h
        exact absurd h.symm (hway _)
      rw [if_neg hrefused] at h
      by_cases hlength : Path.maxNameLength < name.length
      · rw [if_pos hlength] at h
        exact absurd h.symm (hway _)
      rw [if_neg hlength] at h
      have hname : IsLookedUp purpose slash name rest :=
        ⟨hne_here, hne_parent, Bool.eq_false_iff.2 hrefused, Nat.not_lt.1 hlength⟩
      split at h
      next target hentry =>
        cases h
        exact .link hhere hname hentry
      next entry hlink hentry =>
        exact .enter hhere hname hentry (fun target heq => hlink target (heq ▸ rfl)) (ih h)
      next hentry =>
        cases rest with
        | nil =>
            cases h
            exact .missing hhere hname hentry
        | cons => exact absurd h.symm (hway _)

/-- What is to be created is not there yet, and its path does not ask for a directory. -/
theorem Advances.of_missing {parent : Location} {name : Bytes}
    (h : t.Advances .create slash here names (.arrived (.missing parent name))) :
    slash = false ∧ t.get? (parent ++ [name]) = none := by
  generalize hway : Advance.arrived (.missing parent name) = way at h
  induction h with
  | nil | link => cases hway
  | here _ _ ih | parent _ _ ih | enter _ _ _ _ _ ih => exact ih hway
  | missing _ hname hentry =>
      cases hway
      exact ⟨by simpa using hname.accepted, hentry⟩

/-! ## Grown trees -/

/-- Whatever is in the first tree is in the second, files perhaps with another content. -/
structure Grows (t u : FileTree) : Prop where
  directory {loc : Location} : t.get? loc = some .directory → u.get? loc = some .directory
  link {loc : Location} {target : Bytes} :
    t.get? loc = some (.link target) → u.get? loc = some (.link target)
  file {loc : Location} {content : Bytes} :
    t.get? loc = some (.file content) → ∃ new, u.get? loc = some (.file new)

theorem Grows.entry (h : t.Grows u) {loc : Location} {entry : Entry}
    (hentry : t.get? loc = some entry) (hlink : ∀ target, entry ≠ .link target) :
    ∃ new, u.get? loc = some new ∧ ∀ target, new ≠ .link target := by
  cases entry with
  | file content =>
      obtain ⟨new, hnew⟩ := h.file hentry
      exact ⟨.file new, hnew, nofun⟩
  | directory => exact ⟨.directory, h.directory hentry, nofun⟩
  | link target => exact absurd rfl (hlink target)

def Fills (u : FileTree) (way : Advance) : Prop :=
  ∀ parent name, way = .arrived (.missing parent name) →
    ∃ content, u.get? (parent ++ [name]) = some (.file content)

theorem IsLookedUp.lookup {name : Bytes} {rest : List Bytes}
    (h : IsLookedUp purpose slash name rest) : IsLookedUp .lookup slash name rest :=
  ⟨h.ne_here, h.ne_parent, by simp, h.length⟩

theorem Advances.grow {way : Advance} (h : t.Advances purpose slash here names way)
    (hgrows : t.Grows u) (hfills : u.Fills way) :
    u.Advances .lookup slash here names way.found := by
  induction h with
  | nil here => exact .nil here
  | here hhere _ ih => exact .here (hgrows.directory hhere) (ih hfills)
  | parent hhere _ ih => exact .parent (hgrows.directory hhere) (ih hfills)
  | enter hhere hname hentry hlink _ ih =>
      obtain ⟨new, hnew, hnew_link⟩ := hgrows.entry hentry hlink
      exact .enter (hgrows.directory hhere) hname.lookup hnew hnew_link (ih hfills)
  | link hhere hname hentry =>
      exact .link (hgrows.directory hhere) hname.lookup (hgrows.link hentry)
  | missing hhere hname _ =>
      obtain ⟨content, hcontent⟩ := hfills _ _ rfl
      exact .enter (hgrows.directory hhere) hname.lookup hcontent nofun (.nil _)

/-! ## Paths -/

/-- The names lead from a location to an arrival, through no more links than given, and a slash
at the end of the way asks for a directory or does not. -/
inductive Walks (t : FileTree) (purpose : Purpose) :
    Nat → Bool → Location → List Bytes → Arrival → Bool → Prop
  | arrive {links : Nat} {slash : Bool} {here : Location} {names : List Bytes} {arrival : Arrival}
      (h : t.Advances purpose slash here names (.arrived arrival)) :
      Walks t purpose links slash here names arrival slash
  | follow {links : Nat} {slash slash' : Bool} {here directory : Location} {names rest : List Bytes}
      {target : Bytes} {arrival : Arrival}
      (h : t.Advances purpose slash here names (.link directory target rest))
      (hrest : Walks t purpose links (slash || (rest.isEmpty && (Path.ofBytes target).slash))
        (if (Path.ofBytes target).absolute then [] else directory)
        ((Path.ofBytes target).names ++ rest) arrival slash') :
      Walks t purpose (links + 1) slash here names arrival slash'

variable {links : Nat} {slash' : Bool} {arrival : Arrival}

theorem Walks.walk_eq (h : t.Walks purpose links slash here names arrival slash') :
    t.walk purpose links slash here names = .ok (arrival, slash') := by
  induction h with
  | arrive h => rw [walk, h.advance_eq]
  | follow h _ ih =>
      rw [walk, h.advance_eq]
      exact ih

theorem walks_of_walk (h : t.walk purpose links slash here names = .ok (arrival, slash')) :
    t.Walks purpose links slash here names arrival slash' := by
  induction links generalizing slash here names with
  | zero =>
      rw [walk] at h
      split at h
      next hadvance =>
        cases h
        exact .arrive (advances_of_advance hadvance nofun)
      next => cases h
      next => cases h
  | succ links ih =>
      rw [walk] at h
      split at h
      next hadvance =>
        cases h
        exact .arrive (advances_of_advance hadvance nofun)
      next => cases h
      next hadvance => exact .follow (advances_of_advance hadvance nofun) (ih h)

theorem Walks.of_missing {parent : Location} {name : Bytes}
    (h : t.Walks .create links slash here names (.missing parent name) slash') :
    slash' = false ∧ t.get? (parent ++ [name]) = none := by
  generalize harrival : Arrival.missing parent name = arrival at h
  induction h with
  | arrive h =>
      cases harrival
      exact h.of_missing
  | follow _ _ ih => exact ih harrival

theorem Walks.grow (h : t.Walks purpose links slash here names arrival slash')
    (hgrows : t.Grows u) (hfills : u.Fills (.arrived arrival)) :
    u.Walks .lookup links slash here names (.found arrival.location) slash' := by
  induction h with
  | arrive h => exact .arrive (h.grow hgrows hfills)
  | follow h _ ih => exact .follow (h.grow hgrows nofun) (ih hfills)

theorem resolve_eq_ok_iff {path : Bytes} :
    t.resolve purpose path = .ok arrival ↔
      path.isEmpty = false ∧ path.length ≤ Path.maxLength ∧
      ∃ slash, t.Walks purpose maxLinks (Path.ofBytes path).slash [] (Path.ofBytes path).names
        arrival slash ∧ (slash && t.isPlain arrival) = false := by
  constructor
  · intro h
    unfold resolve at h
    split at h
    next => cases h
    next hempty =>
      split at h
      next => cases h
      next hlength =>
        split at h
        next => cases h
        next slash hwalk =>
          split at h
          next => cases h
          next hplain =>
            cases h
            exact ⟨Bool.eq_false_iff.2 hempty, Nat.not_lt.1 hlength, slash, walks_of_walk hwalk,
              Bool.eq_false_iff.2 hplain⟩
  · rintro ⟨hempty, hlength, slash, hwalks, hplain⟩
    rw [resolve, hempty, if_neg Bool.false_ne_true, if_neg (Nat.not_lt.2 hlength), hwalks.walk_eq]
    simp only [hplain, Bool.false_eq_true, if_false]

theorem isPlain_found_eq_false {loc : Location} :
    t.isPlain (.found loc) = false ↔ t.get? loc = some .directory := by
  simp [isPlain]

/-- A path that leads to something leads there in a grown tree, and so does the path of a new file
once the file is there. -/
theorem resolve_of_grows (hgrows : t.Grows u) {path : Bytes}
    (h : t.resolve purpose path = .ok arrival)
    (hmissing : ∀ parent name, arrival = .missing parent name → purpose = .create ∧
      ∃ content, u.get? (parent ++ [name]) = some (.file content)) :
    u.resolve .lookup path = .ok (.found arrival.location) := by
  have hfills : u.Fills (.arrived arrival) := by
    rintro parent name ⟨⟩
    exact (hmissing parent name rfl).2
  obtain ⟨hempty, hlength, slash, hwalks, hplain⟩ := resolve_eq_ok_iff.1 h
  refine resolve_eq_ok_iff.2 ⟨hempty, hlength, slash, hwalks.grow hgrows hfills, ?_⟩
  cases arrival with
  | found loc =>
      rw [Bool.and_eq_false_iff] at hplain ⊢
      refine hplain.imp_right fun hloc => ?_
      exact isPlain_found_eq_false.2 (hgrows.directory (isPlain_found_eq_false.1 hloc))
  | missing parent name =>
      obtain ⟨rfl, -⟩ := hmissing parent name rfl
      rw [hwalks.of_missing.1, Bool.false_and]

theorem resolve_missing {path : Bytes} {parent : Location} {name : Bytes}
    (h : t.resolve .create path = .ok (.missing parent name)) :
    t.get? (parent ++ [name]) = none := by
  obtain ⟨-, -, slash, hwalks, -⟩ := resolve_eq_ok_iff.1 h
  exact hwalks.of_missing.2

/-! ## Writing -/

theorem grows_put {loc : Location} (hloc : loc ≠ [])
    (h : t.get? loc = none ∨ ∃ old, t.get? loc = some (.file old)) (content : Bytes) :
    t.Grows (t.put loc (.file content)) := by
  have hkeep : ∀ {other entry}, t.get? other = some entry → (∀ old, entry ≠ .file old) →
      (t.put loc (.file content)).get? other = some entry := by
    intro other entry hentry hfile
    have hne : other ≠ loc := by
      rintro rfl
      rcases h with hnone | ⟨old, hold⟩
      · simp [hentry] at hnone
      · exact hfile old (Option.some.inj (hentry.symm.trans hold))
    rw [get?_put_of_ne t hne, hentry]
  refine ⟨fun hentry => hkeep hentry nofun, fun hentry => hkeep hentry nofun, ?_⟩
  intro other old hold
  by_cases hne : other = loc
  · rw [hne]
    exact ⟨content, get?_put_self t hloc _⟩
  · rw [get?_put_of_ne t hne]
    exact ⟨old, hold⟩

/-- What a write does: the tree grows, the path leads to a file with the content, and nothing else
is changed. -/
theorem write_spec {path content : Bytes} (h : t.write path content = .ok u) :
    t.Grows u ∧ ∃ loc, u.resolve .lookup path = .ok (.found loc) ∧
      u.get? loc = some (.file content) ∧ ∀ other, other ≠ loc → u.get? other = t.get? other := by
  have hput : ∃ arrival, t.resolve .create path = .ok arrival ∧ arrival.location ≠ [] ∧
      (t.get? arrival.location = none ∨ ∃ old, t.get? arrival.location = some (.file old)) ∧
      u = t.put arrival.location (.file content) := by
    unfold write at h
    split at h
    next => cases h
    next parent name hresolve =>
      cases h
      exact ⟨_, hresolve, by simp [Arrival.location], .inl (resolve_missing hresolve), rfl⟩
    next loc hresolve =>
      split at h
      next old hold =>
        cases h
        refine ⟨_, hresolve, ?_, .inr ⟨old, hold⟩, rfl⟩
        rintro rfl
        cases hold
      next => cases h
  obtain ⟨arrival, hresolve, hloc, hbefore, rfl⟩ := hput
  have hgrows := grows_put hloc hbefore content
  have hself := get?_put_self t hloc (.file content)
  refine ⟨hgrows, arrival.location, resolve_of_grows hgrows hresolve ?_, hself, ?_⟩
  · rintro parent name rfl
    exact ⟨rfl, content, hself⟩
  · intro other hne
    exact get?_put_of_ne t hne _

theorem read_of_resolve {path content : Bytes} {loc : Location}
    (h : t.resolve .lookup path = .ok (.found loc)) (hloc : t.get? loc = some (.file content)) :
    t.read path = .ok content := by
  rw [read, h]
  simp only [hloc]

theorem contains_iff {path : Bytes} :
    t.contains path = true ↔ ∃ loc, t.resolve .lookup path = .ok (.found loc) := by
  unfold contains
  split
  next loc hfound => exact ⟨fun _ => ⟨loc, hfound⟩, fun _ => rfl⟩
  next hnone => exact ⟨nofun, fun ⟨loc, hfound⟩ => absurd hfound (hnone loc)⟩

/-- A write through one path does not change what is read through another that leads elsewhere. -/
theorem read_write_of_ne {path other content : Bytes} {loc : Location}
    (h : t.write path content = .ok u) (hother : t.resolve .lookup other = .ok (.found loc))
    (hne : u.resolve .lookup path ≠ .ok (.found loc)) : u.read other = t.read other := by
  obtain ⟨hgrows, written, hpath, -, hsame⟩ := write_spec h
  have hloc : loc ≠ written := by
    rintro rfl
    exact hne hpath
  have hresolve := resolve_of_grows hgrows hother nofun
  rw [read, read, hresolve, hother]
  simp only [Arrival.location, hsame loc hloc]

end FileTree

end Tagged
