/-
  NodeGen.Proofs.Staging — what the parts of an atomic write do to the tree.

  - `stageWithin_cases`: staging an output either fails and leaves the tree as it was, or adds one file,
    the temporary, in a place that was vacant, with the bytes of the output and the mode it will keep
    (`Laid`). Links and `..` in the output's path do not matter: the temporary stays within reach of
    its own path for as long as only files are added.
  - `discard_run`: a temporary within reach is removed.
-/

import NodeGen.Output.Stage
import NodeGen.Proofs.Calls

namespace NodeGen

open Text (Bytes)

namespace Tree

/-- Only the last node set at a location counts. -/
theorem insert_insert (t : Tree) (l : Location) (a b : Node) : (t.insert l a).insert l b = t.insert l b := by
  obtain ⟨nodes⟩ := t
  simp only [insert, Tree.mk.injEq]
  induction nodes with
  | nil => simp [put]
  | cons e rest ih =>
    by_cases he : e.1 = l
    · simp [put, he]
    · simp [put, he, ih]

end Tree

namespace Stage

variable {w w' : World} {o : Output} {p temporary : Path} {d : Location} {n : Text} {mode : Nat} {bytes : Bytes}

/-! ## The parts -/

/-- A name that temporary files have. -/
def IsTemporary (n : Text) : Prop := ∃ (name : Text) (suffix : Suffix), n = temporaryName name suffix.text

def modeFor (w : World) (p : Path) : Except Refusal Nat :=
  match w.stat (Route.ofPath p) with
  | .error (.errno .noEntry) => .ok (unmasked 0o666 w.umask)
  | answer => answer

theorem outputMode_run (w : World) (p : Path) : (outputMode p).run w = (modeFor w p, w) := by
  simp only [outputMode, Script.run_bind, Script.run_ask, World.perform, modeFor]
  cases w.stat (Route.ofPath p) with
  | ok m => rfl
  | error r =>
    cases r with
    | nulInPath => rfl
    | errno e => cases e <;> rfl

theorem discard_run (h : w.Names temporary d n) (hf : w.tree.get? (d ++ [n]) = some (.file mode bytes)) :
    (discard temporary).run w = (.ok (), w.withTree (w.tree.erase (d ++ [n]))) := by
  simp [discard, World.perform, World.attempt, h.unlink_eq hf]

/-- A temporary out of reach stays, and the removal complains. -/
theorem discard_run_refused {err : Errno} (ha : Route.admit (Route.ofPath temporary) = .ok ())
    (hr : w.tree.walkDirectory (w.start (Route.ofPath temporary)) temporary.parts.dropLast = .error err)
    (hne : err ≠ .noEntry) : (discard temporary).run w = (.error (.errno err), w) := by
  simp only [discard, Script.run_bind, Script.run_ask, World.perform, World.attempt, World.unlink_refused ha hr]
  split
  · rename_i h; cases h; exact absurd rfl hne
  · rfl

theorem failAfterDiscard_run {α : Type} (h : w.Names temporary d n)
    (hf : w.tree.get? (d ++ [n]) = some (.file mode bytes)) (r : Refusal) :
    (failAfterDiscard temporary r : Script (Except Refusal α)).run w =
      (.error r, w.withTree (w.tree.erase (d ++ [n]))) := by
  simp [failAfterDiscard, discard_run h hf]

theorem failAfterDiscard_run_refused {α : Type} {err : Errno} (ha : Route.admit (Route.ofPath temporary) = .ok ())
    (hr : w.tree.walkDirectory (w.start (Route.ofPath temporary)) temporary.parts.dropLast = .error err)
    (hne : err ≠ .noEntry) (r : Refusal) :
    (failAfterDiscard temporary r : Script (Except Refusal α)).run w = (.error (.errno err), w) := by
  simp [failAfterDiscard, discard_run_refused ha hr hne]

/-! ## The temporary file -/

def draw (w : World) : World := { w with drawn := w.drawn + 1 }

def nextTemporary (w : World) (directory : Path) (name : Text) : Path :=
  directory.child (temporaryName name (w.suffixes w.drawn).text)

/-- One attempt at a temporary file. -/
theorem createTemporary_run_succ (directory : Path) (name : Text) (attempts : Nat) (w : World) :
    (createTemporary directory name (attempts + 1)).run w =
      match (draw w).create (Route.ofPath (nextTemporary w directory name)) privateMode with
      | .ok w' => (.ok (nextTemporary w directory name), w')
      | .error (.errno .alreadyExists) => (createTemporary directory name attempts).run (draw w)
      | .error r => (.error r, draw w) := by
  simp only [createTemporary, Script.run_bind, Script.run_ask, World.perform, draw, nextTemporary]
  generalize World.create _ _ _ = answer
  rcases answer with (e | _) | w'
  · cases e <;> rfl
  · rfl
  · rfl

/-- A new temporary stands where nothing stood; where none is made the tree stays as it was. -/
theorem createTemporary_cases (directory : Path) (name : Text) (attempts : Nat) (w : World) :
    (∃ r w', (createTemporary directory name attempts).run w = (.error r, w') ∧ w'.tree = w.tree ∧
      ((∀ s : Suffix, '\x00' ∉ (Route.ofPath (directory.child (temporaryName name s.text))).text) →
        ∃ e, r = .errno e)) ∨
      ∃ (s : Suffix) (d : Location) (w' : World),
        (createTemporary directory name attempts).run w =
          (.ok (directory.child (temporaryName name s.text)), w') ∧
        w.Names (directory.child (temporaryName name s.text)) d (temporaryName name s.text) ∧
        w.tree.get? (d ++ [temporaryName name s.text]) = none ∧
        w'.tree = w.tree.insert (d ++ [temporaryName name s.text]) (.file (unmasked privateMode w.umask) []) := by
  induction attempts generalizing w with
  | zero => exact Or.inl ⟨_, w, rfl, rfl, fun _ => ⟨_, rfl⟩⟩
  | succ attempts ih =>
    rw [createTemporary_run_succ]
    cases hc : (draw w).create (Route.ofPath (nextTemporary w directory name)) privateMode with
    | ok w' =>
      obtain ⟨d, n, hn, hv, rfl⟩ := World.exists_of_create hc
      obtain rfl : n = temporaryName name (w.suffixes w.drawn).text := by
        simpa [nextTemporary, Path.child] using hn.last.symm
      exact Or.inr ⟨w.suffixes w.drawn, d, _, rfl, hn.congr rfl rfl, hv, rfl⟩
    | error r =>
      by_cases he : r = .errno .alreadyExists
      · subst he
        rcases ih (draw w) with ⟨r, w', hrun, ht, hr⟩ | ⟨s, d, w', hrun, hn, hv, ht⟩
        · exact Or.inl ⟨r, w', hrun, ht, hr⟩
        · exact Or.inr ⟨s, d, w', hrun, hn.congr rfl rfl, hv, ht⟩
      · refine Or.inl ⟨r, draw w, ?_, rfl, fun hnul => World.create_errno (hnul _) hc⟩
        split
        · rename_i h; cases h
        · rename_i h; cases h; exact absurd rfl he
        · rename_i h; cases h; rfl

/-! ## The mode of an output -/

/-- The mode that an output gets beside some temporaries, each given by its place and its mode: the permission
    bits of the old file, or those of a new one. A path that dangles onto one of the temporaries gets its mode. -/
inductive ModeOf (w : World) (beside : List (Location × Nat)) (p : Path) : Nat → Prop
  | kept {m : Nat} : w.stat (Route.ofPath p) = .ok m → ModeOf w beside p (m &&& 0o7777)
  | new : w.stat (Route.ofPath p) = .error (.errno .noEntry) → (∀ e ∈ beside, ¬ w.Dangles (Route.ofPath p) e.1) →
      ModeOf w beside p (unmasked 0o666 w.umask)
  | temporary {l : Location} {mode : Nat} : w.Dangles (Route.ofPath p) l → (l, mode) ∈ beside →
      ModeOf w beside p mode

variable {beside : List (Location × Nat)}

/-- A mode was asked for, so the system looked at the path. -/
theorem ModeOf.admitted (h : ModeOf w beside p mode) (htext : (Route.ofPath p).text ≠ []) :
    Route.admit (Route.ofPath p) = .ok () := by
  cases ha : Route.admit (Route.ofPath p) with
  | ok u => rfl
  | error x =>
    have hs := World.stat_of_refused (World.locate_refused (w := w) ha)
    cases h with
    | kept hm => rw [hm] at hs; cases hs
    | new hm _ =>
      rw [hm] at hs
      cases hs
      unfold Route.admit at ha
      simp only [htext, if_false] at ha
      repeat' split at ha
      all_goals cases ha
    | temporary hd _ =>
      rcases hd.2 with hl | ⟨_, _, _, hl⟩
      · rw [World.locate_refused ha] at hl; cases hl
      · rw [World.locate_refused ha] at hl; cases hl

/-- The bits of a new file are permission bits only. -/
theorem unmasked_and {mode : Nat} (h : mode &&& 0o7777 = mode) (umask : Nat) :
    unmasked mode umask &&& 0o7777 = unmasked mode umask := by
  unfold unmasked
  rw [Nat.and_assoc, Nat.and_comm _ 0o7777, ← Nat.and_assoc, h]

theorem modeFor_eq_ok {m : Nat} (h : modeFor w p = .ok m) :
    w.stat (Route.ofPath p) = .ok m ∨
      w.stat (Route.ofPath p) = .error (.errno .noEntry) ∧ m = unmasked 0o666 w.umask := by
  unfold modeFor at h
  split at h
  · rename_i hnone
    cases h
    exact Or.inr ⟨hnone, rfl⟩
  · exact Or.inl h

structure Joined (t : Tree) (beside : List (Location × Nat)) (u : Tree) : Prop where
  adds : Tree.Extends t u
  added : ∀ l mode content, t.get? l = none → u.get? l = some (.file mode content) → (l, mode) ∈ beside
  there : ∀ e ∈ beside, ∃ content, u.get? e.1 = some (.file e.2 content)
  masked : ∀ e ∈ beside, e.2 &&& 0o7777 = e.2

theorem Joined.nil (t : Tree) : Joined t [] t where
  adds := .refl t
  added := fun l mode content hv hl => by
    rw [hv] at hl
    cases hl
  there := by simp
  masked := by simp

/-- One temporary more, in a vacant place. -/
theorem Joined.snoc {t u : Tree} {l : Location} (h : Joined t beside u) (hv : u.get? l = none)
    (hmode : mode &&& 0o7777 = mode) (content : Bytes) :
    Joined t (beside ++ [(l, mode)]) (u.insert l (.file mode content)) where
  adds := h.adds.insert hv mode content
  added := by
    intro x m c hx hfile
    rw [Tree.get?_insert] at hfile
    by_cases heq : x = l
    · rw [if_pos heq] at hfile
      cases hfile
      exact List.mem_append_right _ (by simp [heq])
    · rw [if_neg heq] at hfile
      exact List.mem_append_left _ (h.added x m c hx hfile)
  there := by
    intro e he
    rcases List.mem_append.mp he with he | he
    · obtain ⟨c, hfile⟩ := h.there e he
      have hne : e.1 ≠ l := by
        intro heq
        rw [heq, hv] at hfile
        cases hfile
      exact ⟨c, by rw [Tree.get?_insert, if_neg hne, hfile]⟩
    · obtain rfl := List.mem_singleton.mp he
      exact ⟨content, Tree.get?_insert_self _ _ _⟩
  masked := by
    intro e he
    rcases List.mem_append.mp he with he | he
    · exact h.masked e he
    · obtain rfl := List.mem_singleton.mp he
      exact hmode

/-- The mode asked for beside temporaries is the one asked for without them, unless the path leads to one of
    them. -/
theorem modeOf_of_modeFor {t : Tree} {m : Nat} (ht : Joined w.tree beside t) (h : modeFor (w.withTree t) p = .ok m) :
    ModeOf w beside p (m &&& 0o7777) := by
  rcases World.stat_extends ht.adds (Route.ofPath p) with hs | hs | ⟨l, mode, content, hd, hl, hs⟩
  · rcases modeFor_eq_ok h with hm | ⟨hm, rfl⟩
    · exact .kept (hs ▸ hm)
    · rw [World.withTree_umask, unmasked_and rfl]
      refine .new (hs ▸ hm) fun e he hd => ?_
      obtain ⟨content, hl⟩ := ht.there e he
      rw [hd.stat_added ht.adds hl] at hm
      cases hm
  · simp only [modeFor, hs] at h
    cases h
  · simp only [modeFor, hs] at h
    cases h
    have hmem := ht.added l _ content hd.1 hl
    rw [ht.masked _ hmem]
    exact .temporary hd hmem

/-! ## Staging -/

/-- Where the temporaries of an output are made. -/
def nursery (w : World) (o : Output) : Path := o.path.parent.absolute w.cwd

def fileOf (o : Output) (mode : Nat) : Node := .file mode (Text.Utf8.encode o.text)

/-- A world in which an output stands ready under a temporary name, and nothing else was changed. -/
structure Laid (w : World) (o : Output) (p : Path) (d : Location) (n : Text) (mode : Nat) (w' : World) :
    Prop where
  name : ∃ s : Suffix, n = temporaryName o.path.name s.text
  path : p = (nursery w o).child n
  names : w.Names p d n
  vacant : w.tree.get? (d ++ [n]) = none
  tree : w'.tree = w.tree.insert (d ++ [n]) (fileOf o mode)
  cwd : w'.cwd = w.cwd
  umask : w'.umask = w.umask
  /-- The mode is asked for while the temporary is there already. -/
  mode : ∃ m, modeFor (w.withTree (w.tree.insert (d ++ [n]) (fileOf o (unmasked privateMode w.umask)))) o.path =
    .ok m ∧ mode = m &&& 0o7777

/-- Filling a temporary: the bytes first, then the mode. -/
theorem fill_run (h : w.Names temporary d n) (hf : w.tree.get? (d ++ [n]) = some (.file mode bytes))
    (o : Output) :
    (fill temporary o).run w =
      match modeFor (w.withTree (w.tree.insert (d ++ [n]) (fileOf o mode))) o.path with
      | .error r => (.error r, w.withTree (w.tree.insert (d ++ [n]) (fileOf o mode)))
      | .ok m => (.ok (), w.withTree (w.tree.insert (d ++ [n]) (fileOf o (m &&& 0o7777)))) := by
  unfold fileOf
  generalize hc : Text.Utf8.encode o.text = content
  have h' : (w.withTree (w.tree.insert (d ++ [n]) (.file mode content))).Names temporary d n :=
    h.insert_file (Tree.not_isDirectory_of_file hf) (by simp [hf]) _ _
  have hg : (w.withTree (w.tree.insert (d ++ [n]) (.file mode content))).tree.get? (d ++ [n]) =
      some (.file mode content) := Tree.get?_insert_self _ _ _
  simp only [fill, hc, Script.run_bind, Script.run_ask, World.perform, h.write_eq hf, World.attempt,
    outputMode_run]
  cases modeFor (w.withTree (w.tree.insert (d ++ [n]) (.file mode content))) o.path with
  | error r => rfl
  | ok m =>
    simp only [Script.run_ask, World.perform, h'.chmod_eq hg, World.withTree_tree, Tree.insert_insert,
      World.attempt]
    rfl

/-- Staging in two steps: the temporary is made, then filled. -/
theorem stageWithin_run (attempts : Nat) (w : World) (o : Output) :
    (stageWithin attempts o).run w =
      match (createTemporary (nursery w o) o.path.name attempts).run w with
      | (.error r, w') => (.error r, w')
      | (.ok temporary, w') =>
        match (fill temporary o).run w' with
        | (.ok (), w'') => (.ok temporary, w'')
        | (.error r, w'') => (failAfterDiscard temporary r).run w'' := by
  simp only [stageWithin, Script.run_bind, Script.run_ask, World.perform, nursery]
  rcases (createTemporary (o.path.parent.absolute w.cwd) o.path.name attempts).run w with ⟨r | p, w'⟩
  · rfl
  · simp only [Script.run_bind]
    rcases (fill p o).run w' with ⟨r | ⟨⟩, w''⟩ <;> rfl

theorem modeFor_congr {w' : World} (ht : w'.tree = w.tree) (hc : w'.cwd = w.cwd) (hu : w'.umask = w.umask)
    (p : Path) : modeFor w' p = modeFor w p := by
  simp only [modeFor, World.stat_congr ht hc, hu]

theorem modeFor_errno {r : Refusal} (hnul : '\x00' ∉ (Route.ofPath p).text) (h : modeFor w p = .error r) :
    ∃ e, r = .errno e := by
  unfold modeFor at h
  split at h
  · cases h
  · exact World.stat_errno hnul h

/-- A failed staging leaves the tree as it was; after any other the output is laid ready. -/
theorem stageWithin_cases (attempts : Nat) (w : World) (o : Output) :
    (∃ r w', (stageWithin attempts o).run w = (.error r, w') ∧ w'.tree = w.tree ∧
      ((∀ s : Suffix, '\x00' ∉ (Route.ofPath ((nursery w o).child (temporaryName o.path.name s.text))).text) →
        '\x00' ∉ (Route.ofPath o.path).text → ∃ e, r = .errno e)) ∨
      ∃ p d n mode w', (stageWithin attempts o).run w = (.ok p, w') ∧ Laid w o p d n mode w' := by
  rw [stageWithin_run]
  have hcwd := Script.run_cwd (createTemporary (nursery w o) o.path.name attempts) w
  rcases createTemporary_cases (nursery w o) o.path.name attempts w with
    ⟨r, w', hrun, ht, hr⟩ | ⟨s, d, w', hrun, hn, hv, ht⟩
  · rw [hrun]
    exact Or.inl ⟨r, w', rfl, ht, fun hnul _ => hr hnul⟩
  · rw [hrun] at hcwd ⊢
    generalize hs : temporaryName o.path.name s.text = n at hn hv ht ⊢
    generalize hp : (nursery w o).child n = p at hn ⊢
    obtain ⟨hc, hu⟩ : w'.cwd = w.cwd ∧ w'.umask = w.umask := hcwd
    have hnew : w'.Names p d n := hn.with_file hv ht hc
    have hfile : w'.tree.get? (d ++ [n]) = some (.file (unmasked privateMode w.umask) []) := by
      rw [ht, Tree.get?_insert_self]
    -- once filled, the tree is the one from before with a single file added
    have hadded : ∀ node, w'.withTree (w'.tree.insert (d ++ [n]) node) =
        w'.withTree (w.tree.insert (d ++ [n]) node) := fun node => by rw [ht, Tree.insert_insert]
    have hmode : ∀ t, modeFor (w'.withTree t) o.path = modeFor (w.withTree t) o.path := fun t =>
      @modeFor_congr (w.withTree t) (w'.withTree t) rfl hc hu o.path
    have hfill := fill_run hnew hfile o
    simp only [hadded, hmode] at hfill
    cases hm : modeFor (w.withTree (w.tree.insert (d ++ [n]) (fileOf o (unmasked privateMode w.umask)))) o.path with
    | error r =>
      simp only [hm] at hfill
      have hstill : (w'.withTree (w.tree.insert (d ++ [n]) (fileOf o (unmasked privateMode w.umask)))).Names p d n :=
        hn.with_file hv rfl hc
      have hleft := failAfterDiscard_run (α := Path) hstill (Tree.get?_insert_self _ _ _) r
      simp only [hfill, hleft]
      exact Or.inl ⟨r, _, rfl, Tree.erase_insert hv _, fun _ hout => modeFor_errno hout hm⟩
    | ok m =>
      simp only [hm] at hfill
      simp only [hfill]
      exact Or.inr ⟨p, d, n, _, _, rfl, ⟨s, hs.symm⟩, hp.symm, hn, hv, rfl, hc, hu, ⟨m, hm, rfl⟩⟩

/-! ## An output that stands ready -/

theorem Laid.get?_eq (h : Laid w o p d n mode w') : w'.tree.get? (d ++ [n]) = some (fileOf o mode) := by
  rw [h.tree, Tree.get?_insert_self]

/-- The temporary is within reach of its own path. -/
theorem Laid.within_reach (h : Laid w o p d n mode w') : w'.Names p d n := h.names.with_file h.vacant h.tree h.cwd

/-- Beside the output's own temporary, the mode is that of the old file or of a new one. -/
theorem Laid.modeOf (h : Laid w o p d n mode w') :
    ModeOf w [(d ++ [n], unmasked privateMode w.umask)] o.path mode := by
  obtain ⟨m, hm, rfl⟩ := h.mode
  exact modeOf_of_modeFor ((Joined.nil w.tree).snoc h.vacant (unmasked_and rfl w.umask) _) hm

theorem modeFor_clean {m : Nat} (h : modeFor w p = .ok m) : '\x00' ∉ (Route.ofPath p).text := by
  intro hm
  have hs : w.stat (Route.ofPath p) = .error .nulInPath :=
    World.stat_of_refused (World.locate_refused (World.admit_of_nul hm))
  simp only [modeFor, hs] at h
  cases h

theorem Laid.clean (h : Laid w o p d n mode w') :
    '\x00' ∉ (Route.ofPath o.path).text ∧ '\x00' ∉ (Route.ofPath p).text := by
  obtain ⟨m, hm, -⟩ := h.mode
  refine ⟨modeFor_clean hm, fun hnul => ?_⟩
  have ha := h.names.admitted
  rw [World.admit_of_nul hnul] at ha
  cases ha

end Stage

end NodeGen
