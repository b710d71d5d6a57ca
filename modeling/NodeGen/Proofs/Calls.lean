/-
  NodeGen.Proofs.Calls — what each file call does at an entry of a directory.

  `Names w p d n` says that the system takes the path `p` for the entry `n` of the directory `d`. For
  every call there is the world it yields at such an entry, and for those that may be refused, what
  an answer tells about the entry. A call answers with an error of the system unless a NUL stands in
  its path (`rename_errno` and its like).
-/

import NodeGen.File.Script
import NodeGen.Proofs.Walk

namespace NodeGen

namespace World

variable {w w' : World} {p q old new : Path} {d e : Location} {n m : Text} {mode : Nat}
  {content bytes : Text.Bytes}

def withTree (w : World) (t : Tree) : World := { w with tree := t }

@[simp] theorem withTree_tree (w : World) (t : Tree) : (w.withTree t).tree = t := rfl
@[simp] theorem withTree_cwd (w : World) (t : Tree) : (w.withTree t).cwd = w.cwd := rfl
@[simp] theorem withTree_umask (w : World) (t : Tree) : (w.withTree t).umask = w.umask := rfl
@[simp] theorem start_withTree (w : World) (t : Tree) (r : Route) : (w.withTree t).start r = w.start r := rfl

/-! ## Entries -/

/-- A path that the system takes for the entry `n` of the directory `d`. -/
structure Names (w : World) (p : Path) (d : Location) (n : Text) : Prop where
  admitted : Route.admit (Route.ofPath p) = .ok ()
  reached : w.tree.walkDirectory (w.start (Route.ofPath p)) p.parts.dropLast = .ok d
  last : p.parts.getLast? = some n
  walkable : Tree.Walkable n

/-- The entry stays the same when a file is put in a place that is neither a directory nor a link. -/
theorem Names.insert_file {l : Location} (h : w.Names p d n) (hl : w.tree.isDirectory l = false)
    (hlink : ∀ target, w.tree.get? l ≠ some (.link target)) (mode : Nat) (content : Text.Bytes) :
    (w.withTree (w.tree.insert l (.file mode content))).Names p d n :=
  ⟨h.admitted, Tree.walkDirectory_insert hl hlink mode content h.reached, h.last, h.walkable⟩

/-- What a path names depends on the tree and the current directory alone. -/
theorem Names.congr (h : w.Names p d n) (ht : w'.tree = w.tree) (hc : w'.cwd = w.cwd) : w'.Names p d n :=
  ⟨h.admitted, by simpa only [start, ht, hc] using h.reached, h.last, h.walkable⟩

/-- The entry stays the same in a world that has one more file. -/
theorem Names.with_file {l : Location} (h : w.Names p d n) (hv : w.tree.get? l = none)
    (ht : w'.tree = w.tree.insert l (.file mode content)) (hc : w'.cwd = w.cwd) : w'.Names p d n := by
  have hlink : ∀ target, w.tree.get? l ≠ some (.link target) := fun target he => by rw [hv] at he; cases he
  exact (h.insert_file (Tree.not_isDirectory_of_none hv) hlink mode content).congr ht hc

theorem Names.parts_eq (h : w.Names p d n) : p.parts.dropLast ++ [n] = p.parts := by
  obtain ⟨front, hp⟩ := List.getLast?_eq_some_iff.mp h.last
  rw [hp, List.dropLast_concat]

theorem Names.entry_eq (h : w.Names p d n) : w.entry (Route.ofPath p) = .ok (d, some n) := by
  have hr : w.tree.walkDirectory (w.start (Route.ofPath p)) (Route.ofPath p).names.dropLast = .ok d := h.reached
  have hl : (Route.ofPath p).names.getLast? = some n := h.last
  simp [entry, h.admitted, hr, hl, lift, bind, Except.bind, pure, Except.pure, Option.filter,
    h.walkable.notDot, h.walkable.notDots]

theorem Names.location_eq (h : w.Names p d n) : entryLocation d n = .ok (d ++ [n]) := by
  simp only [entryLocation, if_neg (Nat.not_lt.mpr h.walkable.short)]

/-- One path names one entry. -/
theorem Names.unique (h : w.Names p d n) (h' : w.Names p e m) : d = e ∧ n = m :=
  ⟨Except.ok.inj (h.reached.symm.trans h'.reached), Option.some.inj (h.last.symm.trans h'.last)⟩

theorem exists_names (h : w.entry (Route.ofPath p) = .ok (d, some n)) (hl : entryLocation d n = .ok e) :
    w.Names p d n ∧ e = d ++ [n] := by
  simp only [entry, bind, Except.bind] at h
  split at h
  · cases h
  · rename_i u hadm
    split at h
    · cases h
    · rename_i directory hdir
      simp only [pure, Except.pure, Except.ok.injEq, Prod.mk.injEq] at h
      obtain ⟨rfl, hlast⟩ := h
      obtain ⟨hlast, hn⟩ := Option.filter_eq_some_iff.mp hlast
      simp only [decide_eq_true_eq] at hn
      unfold entryLocation at hl
      split at hl
      · cases hl
      · rename_i hs
        have hr : w.tree.walkDirectory (w.start (Route.ofPath p)) p.parts.dropLast = .ok directory := by
          revert hdir
          show lift (w.tree.walkDirectory (w.start (Route.ofPath p)) p.parts.dropLast) = _ → _
          cases w.tree.walkDirectory (w.start (Route.ofPath p)) p.parts.dropLast with
          | error err => intro h; cases h
          | ok x => intro h; cases h; rfl
        refine ⟨⟨by cases u; exact hadm, hr, hlast, hn.1, hn.2, Nat.not_lt.mp hs⟩, ?_⟩
        cases hl; rfl

/-- A path whose directory is not reached. -/
theorem entry_refused {err : Errno} (ha : Route.admit (Route.ofPath p) = .ok ())
    (hr : w.tree.walkDirectory (w.start (Route.ofPath p)) p.parts.dropLast = .error err) :
    w.entry (Route.ofPath p) = .error (.errno err) := by
  have hr : w.tree.walkDirectory (w.start (Route.ofPath p)) (Route.ofPath p).names.dropLast = .error err := hr
  simp [entry, ha, hr, lift, bind, Except.bind]

/-- A path that leads to an entry that is no link leads to nothing else. -/
theorem Names.locateNode_eq (h : w.Names p d n) {node : Node} (hg : w.tree.get? (d ++ [n]) = some node)
    (hlink : ∀ target, node ≠ .link target) : w.locateNode (Route.ofPath p) = .ok (d ++ [n]) := by
  obtain ⟨⟨ls, hw⟩, hd⟩ := Tree.walkDirectory_eq_ok_iff.mp h.reached
  have hw := (hw.entry hd h.walkable hg hlink).walk_eq
  rw [h.parts_eq] at hw
  have hnames : (Route.ofPath p).allNames = p.parts := rfl
  simp [locateNode, locate, h.admitted, hnames, hw, lift, bind, Except.bind, pure, Except.pure]

/-! ## Looking -/

theorem stat_eq_ok_iff :
    w.stat (Route.ofPath p) = .ok mode ↔
      ∃ l node, w.locateNode (Route.ofPath p) = .ok l ∧ w.tree.get? l = some node ∧ mode = node.mode := by
  simp only [stat, bind, Except.bind]
  cases w.locateNode (Route.ofPath p) with
  | error r => simp
  | ok l => cases hg : w.tree.get? l <;> simp [pure, Except.pure, throw, throwThe, MonadExceptOf.throw, eq_comm, hg]

theorem stat_congr (ht : w'.tree = w.tree) (hc : w'.cwd = w.cwd) (r : Route) : w'.stat r = w.stat r := by
  simp only [stat, locateNode, locate, start, ht, hc]

theorem Names.stat_eq (h : w.Names p d n) {node : Node} (hg : w.tree.get? (d ++ [n]) = some node)
    (hlink : ∀ target, node ≠ .link target) : w.stat (Route.ofPath p) = .ok node.mode :=
  stat_eq_ok_iff.mpr ⟨_, node, h.locateNode_eq hg hlink, hg, rfl⟩

theorem Names.read_eq (h : w.Names p d n) (hg : w.tree.get? (d ++ [n]) = some (.file mode content)) :
    w.read (Route.ofPath p) = .ok content := by
  simp [read, h.locateNode_eq hg (by simp), bind, Except.bind, hg, pure, Except.pure]

def Dangles (w : World) (r : Route) (l : Location) : Prop :=
  w.tree.get? l = none ∧
    (w.locate r = .ok (.node l) ∨ ∃ d n, l = d ++ [n] ∧ w.locate r = .ok (.vacant d n))

theorem admit_of_nul {r : Route} (h : '\x00' ∈ r.text) : r.admit = .error .nulInPath := if_pos h

theorem locate_eq {r : Route} (ha : r.admit = .ok ()) :
    w.locate r = lift (w.tree.walk maxLinks (w.start r) r.allNames) := by
  simp [locate, ha, bind, Except.bind]

theorem locate_refused {r : Route} {x : Refusal} (ha : r.admit = .error x) : w.locate r = .error x := by
  simp [locate, ha, bind, Except.bind]

theorem stat_of_locate {r : Route} {l : Location} (h : w.locate r = .ok (.node l)) :
    w.stat r = match w.tree.get? l with
      | some node => .ok node.mode
      | none => .error (.errno .noEntry) := by
  simp only [stat, locateNode, h, bind, Except.bind, pure, Except.pure]
  cases w.tree.get? l <;> rfl

theorem stat_of_vacant {r : Route} (h : w.locate r = .ok (.vacant d n)) :
    w.stat r = .error (.errno .noEntry) := by
  simp [stat, locateNode, h, bind, Except.bind, throw, throwThe, MonadExceptOf.throw]

theorem stat_of_refused {r : Route} {x : Refusal} (h : w.locate r = .error x) : w.stat r = .error x := by
  simp [stat, locateNode, h, bind, Except.bind]

theorem Dangles.stat_eq {r : Route} {l : Location} (h : w.Dangles r l) : w.stat r = .error (.errno .noEntry) := by
  rcases h.2 with hl | ⟨d, n, -, hl⟩
  · rw [stat_of_locate hl, h.1]
  · exact stat_of_vacant hl

theorem lift_eq_ok {α : Type} {answer : Except Errno α} {a : α} (h : lift answer = .ok a) : answer = .ok a := by
  cases answer with
  | error e => cases h
  | ok b => exact congrArg Except.ok (Except.ok.inj h)

/-- A path that dangled onto an added file leads to it. -/
theorem Dangles.stat_added {t : Tree} {r : Route} {l : Location} (h : w.Dangles r l) (he : Tree.Extends w.tree t)
    (hf : t.get? l = some (.file mode content)) : (w.withTree t).stat r = .ok mode := by
  have hadmitted : r.admit = .ok () := by
    cases ha : r.admit with
    | ok u => rfl
    | error x => rcases h.2 with hl | ⟨_, _, _, hl⟩ <;> (rw [locate_refused ha] at hl; cases hl)
  have hw := locate_eq (w := w) hadmitted
  have ht := locate_eq (w := w.withTree t) hadmitted
  simp only [start_withTree, withTree_tree] at ht
  have hnode : (w.withTree t).locate r = .ok (.node l) := by
    rcases Tree.walk_extends he maxLinks (w.start r) r.allNames with hsame | ⟨d', n', hvacant, hthere⟩ | ⟨hnone, -⟩
    · rw [hsame, ← hw] at ht
      rcases h.2 with hl | ⟨d, n, rfl, hl⟩
      · exact ht.trans hl
      · -- the walk cannot end at a vacant place where a file was added
        rw [hl] at hw
        obtain ⟨ls, hwalk⟩ := Tree.walk_eq_ok_iff.mp (hsame.trans (lift_eq_ok hw.symm))
        rw [hwalk.vacant_get?] at hf
        cases hf
    · rw [hvacant] at hw
      rw [hthere] at ht
      rcases h.2 with hl | ⟨d, n, rfl, hl⟩
      · cases hl.symm.trans hw
      · cases hl.symm.trans hw
        exact ht
    · rw [hnone] at hw
      rcases h.2 with hl | ⟨_, _, _, hl⟩ <;> cases hl.symm.trans hw
  rw [stat_of_locate hnode, withTree_tree, hf]
  rfl

/-- Added files change what is said about a path only where it dangles onto one of them, whose mode it
    then has, or where it comes upon one of them on its way. -/
theorem stat_extends {t : Tree} (he : Tree.Extends w.tree t) (r : Route) :
    (w.withTree t).stat r = w.stat r ∨
      (w.withTree t).stat r = .error (.errno .notDirectory) ∨
      ∃ l mode content, w.Dangles r l ∧ t.get? l = some (.file mode content) ∧ (w.withTree t).stat r = .ok mode := by
  cases ha : r.admit with
  | error x => exact Or.inl (by rw [stat_of_refused (locate_refused ha), stat_of_refused (locate_refused ha)])
  | ok _ =>
    have hw := locate_eq (w := w) ha
    have ht := locate_eq (w := w.withTree t) ha
    simp only [start_withTree, withTree_tree] at ht
    rcases Tree.walk_extends he maxLinks (w.start r) r.allNames with h | ⟨d, n, h, h'⟩ | ⟨-, h⟩
    · rw [h, ← hw] at ht
      cases hl : w.locate r with
      | error x => exact Or.inl (by rw [stat_of_refused hl, stat_of_refused (ht.trans hl)])
      | ok spot =>
        cases spot with
        | vacant d n => exact Or.inl (by rw [stat_of_vacant hl, stat_of_vacant (ht.trans hl)])
        | node l =>
          rcases he l with hx | ⟨hv, mode, content, hf⟩
          · exact Or.inl (by rw [stat_of_locate hl, stat_of_locate (ht.trans hl), withTree_tree, hx])
          · refine Or.inr (Or.inr ⟨l, mode, content, ⟨hv, Or.inl hl⟩, hf, ?_⟩)
            rw [stat_of_locate (ht.trans hl), withTree_tree, hf]
            rfl
    · rw [h] at hw
      obtain ⟨ls, hwalk⟩ := Tree.walk_eq_ok_iff.mp h
      have hv := hwalk.vacant_get?
      rcases he (d ++ [n]) with hx | ⟨-, mode, content, hf⟩
      · rw [h'] at ht
        exact Or.inl (by rw [stat_of_vacant hw, stat_of_locate ht, withTree_tree, hx, hv])
      · rw [h'] at ht
        refine Or.inr (Or.inr ⟨d ++ [n], mode, content, ⟨hv, Or.inr ⟨d, n, rfl, hw⟩⟩, hf, ?_⟩)
        rw [stat_of_locate ht, withTree_tree, hf]
        rfl
    · rw [h] at ht
      exact Or.inr (Or.inl (stat_of_refused ht))

/-! ## Changing a file -/

theorem Names.create_eq (h : w.Names p d n) (hv : w.tree.get? (d ++ [n]) = none) :
    w.create (Route.ofPath p) mode =
      .ok (w.withTree (w.tree.insert (d ++ [n]) (.file (unmasked mode w.umask) []))) := by
  simp [create, h.entry_eq, h.location_eq, hv, bind, Except.bind, pure, Except.pure, withTree]

/-- A new file stands at an entry that was vacant. -/
theorem exists_of_create (h : w.create (Route.ofPath p) mode = .ok w') :
    ∃ d n, w.Names p d n ∧ w.tree.get? (d ++ [n]) = none ∧
      w' = w.withTree (w.tree.insert (d ++ [n]) (.file (unmasked mode w.umask) [])) := by
  have h0 := h
  simp only [create, bind, Except.bind] at h
  split at h
  · cases h
  · rename_i entry he
    obtain ⟨d, n⟩ := entry
    cases n with
    | none => cases h
    | some n =>
      simp only at h
      split at h
      · cases h
      · rename_i l hl
        obtain ⟨hn, rfl⟩ := exists_names he hl
        split at h
        · cases h
        · rename_i hs
          cases hv : w.tree.get? (d ++ [n]) with
          | some node => simp [hv] at hs
          | none => exact ⟨d, n, hn, hv, Except.ok.inj (h0.symm.trans (hn.create_eq hv))⟩

theorem Names.write_eq (h : w.Names p d n) (hg : w.tree.get? (d ++ [n]) = some (.file mode bytes)) :
    w.write (Route.ofPath p) content = .ok (w.withTree (w.tree.insert (d ++ [n]) (.file mode content))) := by
  simp [write, h.locateNode_eq hg (by simp), bind, Except.bind, hg, pure, Except.pure, withTree]

theorem Names.chmod_eq (h : w.Names p d n) {old : Nat} (hg : w.tree.get? (d ++ [n]) = some (.file old content)) :
    w.chmod (Route.ofPath p) mode =
      .ok (w.withTree (w.tree.insert (d ++ [n]) (.file (mode &&& 0o7777) content))) := by
  simp [chmod, h.locateNode_eq hg (by simp), bind, Except.bind, hg, pure, Except.pure, withTree, Node.withMode]

theorem Names.unlink_eq (h : w.Names p d n) (hg : w.tree.get? (d ++ [n]) = some (.file mode content)) :
    w.unlink (Route.ofPath p) = .ok (w.withTree (w.tree.erase (d ++ [n]))) := by
  simp [unlink, h.entry_eq, h.location_eq, bind, Except.bind, hg, pure, Except.pure, withTree]

theorem unlink_refused {err : Errno} (ha : Route.admit (Route.ofPath p) = .ok ())
    (hr : w.tree.walkDirectory (w.start (Route.ofPath p)) p.parts.dropLast = .error err) :
    w.unlink (Route.ofPath p) = .error (.errno err) := by
  simp [unlink, entry_refused ha hr, bind, Except.bind]

/-! ## Renaming -/

/-- What becomes of a file that is to be moved, by the entry that the new path names. -/
theorem Names.rename_file (ho : w.Names old d n)
    (hf : w.tree.get? (d ++ [n]) = some (.file mode content)) (hnul : '\x00' ∉ (Route.ofPath new).text) :
    w.rename (Route.ofPath old) (Route.ofPath new) =
      match w.entry (Route.ofPath new) with
      | .error r => .error r
      | .ok (_, none) => .error (.errno .busy)
      | .ok (e, some m) =>
        match entryLocation e m with
        | .error r => .error r
        | .ok l =>
          if l.isPrefixOf d then .error (.errno .notEmpty)
          else if w.tree.isDirectory l then .error (.errno .isDirectory)
          else if l = d ++ [n] then .ok w
          else .ok (w.withTree ((w.tree.erase (d ++ [n])).insert l (.file mode content))) := by
  simp only [rename, if_neg hnul, ho.entry_eq, bind, Except.bind, pure, Except.pure]
  rcases w.entry (Route.ofPath new) with r | ⟨e, _ | m⟩
  · rfl
  · rfl
  · simp only [ho.location_eq, hf]
    cases entryLocation e m with
    | error r => rfl
    | ok l =>
      by_cases habove : l.isPrefixOf d
      · simp only [habove, if_true]; rfl
      · by_cases hdir : w.tree.isDirectory l
        · simp only [habove, hdir, if_true]; rfl
        · simp only [habove, hdir]; rfl

/-- What a file was moved to was no directory. -/
theorem exists_of_rename (ho : w.Names old d n) (hf : w.tree.get? (d ++ [n]) = some (.file mode content))
    (hnul : '\x00' ∉ (Route.ofPath new).text)
    (h : w.rename (Route.ofPath old) (Route.ofPath new) = .ok w') :
    ∃ e m, w.Names new e m ∧ w.tree.isDirectory (e ++ [m]) = false ∧
      (e ++ [m] ≠ d ++ [n] →
        w' = w.withTree ((w.tree.erase (d ++ [n])).insert (e ++ [m]) (.file mode content))) := by
  rw [ho.rename_file hf hnul] at h
  split at h
  · cases h
  · cases h
  · rename_i e m he
    split at h
    · cases h
    · rename_i l hl
      obtain ⟨hn, rfl⟩ := exists_names he hl
      split at h
      · cases h
      · split at h
        · cases h
        · rename_i hdir
          refine ⟨e, m, hn, by simpa using hdir, fun hne => ?_⟩
          rw [if_neg hne] at h
          exact (Except.ok.inj h).symm

/-- A file moves to an entry that is no directory, and below which the file does not lie. -/
theorem Names.rename_ok_iff (ho : w.Names old d n) (hf : w.tree.get? (d ++ [n]) = some (.file mode content))
    (hnul : '\x00' ∉ (Route.ofPath new).text) :
    (∃ w', w.rename (Route.ofPath old) (Route.ofPath new) = .ok w') ↔
      ∃ e m, w.Names new e m ∧ w.tree.isDirectory (e ++ [m]) = false ∧ ¬ e ++ [m] <+: d := by
  constructor
  · rintro ⟨w', h⟩
    obtain ⟨e, m, hnames, hdir, -⟩ := exists_of_rename ho hf hnul h
    refine ⟨e, m, hnames, hdir, fun habove => ?_⟩
    rw [ho.rename_file hf hnul, hnames.entry_eq] at h
    simp only [hnames.location_eq, if_pos (List.isPrefixOf_iff_prefix.mpr habove)] at h
    cases h
  · rintro ⟨e, m, hnames, hdir, hclear⟩
    have hclear : (e ++ [m]).isPrefixOf d = false := by
      rw [Bool.eq_false_iff]
      exact fun h => hclear (List.isPrefixOf_iff_prefix.mp h)
    rw [ho.rename_file hf hnul, hnames.entry_eq]
    simp only [hnames.location_eq, hclear, hdir, Bool.false_eq_true, if_false]
    split
    · exact ⟨_, rfl⟩
    · exact ⟨_, rfl⟩

/-- A file whose directory is not reached any more is not moved. -/
theorem rename_refused {err : Errno} (ha : Route.admit (Route.ofPath old) = .ok ())
    (hr : w.tree.walkDirectory (w.start (Route.ofPath old)) old.parts.dropLast = .error err)
    (hnul : '\x00' ∉ (Route.ofPath new).text) :
    w.rename (Route.ofPath old) (Route.ofPath new) = .error (.errno err) := by
  simp [rename, hnul, entry_refused ha hr, bind, Except.bind]

/-! ## Refusals without a NUL -/

theorem admit_errno {r : Route} {x : Refusal} (hnul : '\x00' ∉ r.text) (h : r.admit = .error x) :
    ∃ e, x = .errno e := by
  unfold Route.admit at h
  simp only [if_neg hnul] at h
  split at h
  · cases h; exact ⟨_, rfl⟩
  · split at h
    · cases h; exact ⟨_, rfl⟩
    · cases h

theorem lift_errno {α : Type} {a : Except Errno α} {x : Refusal} (h : lift a = .error x) :
    ∃ e, x = .errno e := by
  cases a with
  | error e => cases h; exact ⟨e, rfl⟩
  | ok a => cases h

theorem entry_errno {r : Route} {x : Refusal} (hnul : '\x00' ∉ r.text) (h : w.entry r = .error x) :
    ∃ e, x = .errno e := by
  simp only [entry, bind, Except.bind] at h
  split at h
  · rename_i e he; cases h; exact admit_errno hnul he
  · split at h
    · rename_i e he; cases h; exact lift_errno he
    · cases h

theorem entryLocation_errno {x : Refusal} (h : entryLocation d n = .error x) : ∃ e, x = .errno e := by
  unfold entryLocation at h
  split at h
  · cases h; exact ⟨_, rfl⟩
  · cases h

theorem create_errno {r : Route} {x : Refusal} (hnul : '\x00' ∉ r.text) (h : w.create r mode = .error x) :
    ∃ e, x = .errno e := by
  simp only [create, bind, Except.bind] at h
  split at h
  · rename_i e he; cases h; exact entry_errno hnul he
  · split at h
    · cases h; exact ⟨_, rfl⟩
    · split at h
      · rename_i e he; cases h; exact entryLocation_errno he
      · split at h
        · cases h; exact ⟨_, rfl⟩
        · cases h

theorem stat_errno {r : Route} {x : Refusal} (hnul : '\x00' ∉ r.text) (h : w.stat r = .error x) :
    ∃ e, x = .errno e := by
  simp only [stat, locateNode, locate, bind, Except.bind] at h
  split at h
  · rename_i e he
    cases h
    split at he
    · rename_i e' he'
      cases he
      split at he'
      · rename_i e'' he''; cases he'; exact admit_errno hnul he''
      · exact lift_errno he'
    · split at he
      · cases he
      · cases he; exact ⟨_, rfl⟩
  · split at h
    · cases h
    · cases h; exact ⟨_, rfl⟩

theorem Names.rename_errno {x : Refusal} (ho : w.Names old d n)
    (hf : w.tree.get? (d ++ [n]) = some (.file mode content)) (hnul : '\x00' ∉ (Route.ofPath new).text)
    (h : w.rename (Route.ofPath old) (Route.ofPath new) = .error x) : ∃ e, x = .errno e := by
  rw [ho.rename_file hf hnul] at h
  split at h
  · rename_i r he; cases h; exact entry_errno hnul he
  · cases h; exact ⟨_, rfl⟩
  · split at h
    · rename_i r he; cases h; exact entryLocation_errno he
    · split at h
      · cases h; exact ⟨_, rfl⟩
      · split at h
        · cases h; exact ⟨_, rfl⟩
        · split at h <;> cases h

/-! ## What no call changes -/

theorem attempt_cwd {r : Except Refusal World} (h : ∀ w', r = .ok w' → w'.cwd = w.cwd ∧ w'.umask = w.umask) :
    (w.attempt r).2.cwd = w.cwd ∧ (w.attempt r).2.umask = w.umask := by
  cases r with
  | error x => exact ⟨rfl, rfl⟩
  | ok w' => exact h w' rfl

theorem perform_cwd {α : Type} (w : World) (c : Call α) :
    (w.perform c).2.cwd = w.cwd ∧ (w.perform c).2.umask = w.umask := by
  cases c with
  | draw => exact ⟨rfl, rfl⟩
  | workingDirectory => exact ⟨rfl, rfl⟩
  | umask => exact ⟨rfl, rfl⟩
  | stat p => exact ⟨rfl, rfl⟩
  | read p => exact ⟨rfl, rfl⟩
  | create p =>
    refine attempt_cwd fun w' h => ?_
    obtain ⟨d, n, -, -, rfl⟩ := exists_of_create h
    exact ⟨rfl, rfl⟩
  | write p content =>
    refine attempt_cwd fun w' h => ?_
    simp only [write, bind, Except.bind] at h
    repeat' split at h
    all_goals cases h
    exact ⟨rfl, rfl⟩
  | chmod p mode =>
    refine attempt_cwd fun w' h => ?_
    simp only [chmod, bind, Except.bind] at h
    repeat' split at h
    all_goals cases h
    exact ⟨rfl, rfl⟩
  | rename old new =>
    refine attempt_cwd fun w' h => ?_
    simp only [rename, bind, Except.bind] at h
    repeat' split at h
    all_goals cases h
    all_goals exact ⟨rfl, rfl⟩
  | unlink p =>
    refine attempt_cwd fun w' h => ?_
    simp only [unlink, bind, Except.bind] at h
    repeat' split at h
    all_goals cases h
    exact ⟨rfl, rfl⟩

end World

/-- A script leaves the current directory and the umask alone. -/
theorem Script.run_cwd {α : Type} (s : Script α) (w : World) :
    (s.run w).2.cwd = w.cwd ∧ (s.run w).2.umask = w.umask := by
  induction s generalizing w with
  | done a => exact ⟨rfl, rfl⟩
  | call c next ih =>
    obtain ⟨h1, h2⟩ := w.perform_cwd c
    obtain ⟨h3, h4⟩ := ih (w.perform c).1 (w.perform c).2
    exact ⟨h3.trans h1, h4.trans h2⟩

end NodeGen
