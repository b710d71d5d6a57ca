/-
  NodeGen.Proofs.Moments — what a run that writes leaves behind if it ends early.

  A run passes from call to call, and it may be ended between any two of them. `run_interrupted`: each
  output is then as it was or complete, with the mode it will keep; those that are complete are the
  first ones in the order of the tables, and none of them was put in its place before all had been
  written under temporary names; and whatever else differs is a temporary in the output directory.

  - `stageWithin_worlds`: while an output is staged, its temporary is all that is added.
  - `stageAll_worlds`, `commitAll_worlds`, `discardAll_worlds`: the worlds that each loop passes
    through, by induction over the outputs.
  - `Partway.moment`: what such a world holds in every place.
-/

import NodeGen.Proofs.Effect

namespace NodeGen

open Text (Bytes)

/-! ## The worlds of a script -/

namespace Script

/-- A script ends in the last of its worlds, or where it began. -/
theorem run_mem_worlds {α : Type} (s : Script α) (w : World) : (s.run w).2 ∈ w :: s.worlds w := by
  induction s generalizing w with
  | done a => exact List.mem_cons_self
  | call c next ih => exact List.mem_cons_of_mem _ (ih _ _)

end Script

/-- The last element of a prefix lies in the first part, or the whole first part comes before it. -/
theorem snoc_prefix_append {α : Type} {past as bs : List α} {x : α} (h : past ++ [x] <+: as ++ bs) :
    x ∈ as ∨ ∃ more, past = as ++ more ∧ more ++ [x] <+: bs := by
  rcases List.prefix_or_prefix_of_prefix h (List.prefix_append as bs) with h' | h'
  · exact Or.inl (h'.subset (by simp))
  · rcases List.prefix_concat_iff.mp h' with rfl | ⟨more, rfl⟩
    · exact Or.inl (by simp)
    · rw [List.append_assoc, List.prefix_append_right_inj] at h
      exact Or.inr ⟨more, rfl, h⟩

namespace Stage

variable {w w₀ w' : World} {o : Output} {directory temporary : Path} {name n : Text} {d T D : Location}
  {mode : Nat} {bytes : Bytes}

/-! ## Staging, call by call -/

/-- The tree of another world, but for one temporary in a vacant place. -/
def Beside (w : World) (directory : Path) (name : Text) (w' : World) : Prop :=
  w'.tree = w.tree ∨ ∃ (s : Suffix) (d : Location) (mode : Nat) (bytes : Bytes),
    w.Names (directory.child (temporaryName name s.text)) d (temporaryName name s.text) ∧
    w.tree.get? (d ++ [temporaryName name s.text]) = none ∧
    w'.tree = w.tree.insert (d ++ [temporaryName name s.text]) (.file mode bytes)

theorem createTemporary_worlds {attempts : Nat} (h : w' ∈ (createTemporary directory name attempts).worlds w) :
    Beside w directory name w' := by
  induction attempts generalizing w with
  | zero => cases h
  | succ attempts ih =>
    simp only [createTemporary, Script.worlds_bind, Script.worlds_ask, Script.run_ask, World.perform,
      List.singleton_append, List.mem_cons] at h
    rcases h with rfl | h
    · exact Or.inl rfl
    rcases h with rfl | h
    · unfold World.attempt
      split
      · rename_i hcreate
        obtain ⟨d, n, hn, hv, rfl⟩ := World.exists_of_create hcreate
        obtain rfl : n = temporaryName name (w.suffixes w.drawn).text := by
          simpa [Path.child] using hn.last.symm
        exact Or.inr ⟨w.suffixes w.drawn, d, _, _, hn.congr rfl rfl, hv, rfl⟩
      · exact Or.inl rfl
    · revert h
      generalize World.create _ _ _ = answer
      intro h
      rcases answer with (e | _) | w''
      · cases e with
        | alreadyExists =>
          rcases ih h with ht | ⟨s, d, mode, bytes, hn, hv, ht⟩
          · exact Or.inl ht
          · exact Or.inr ⟨s, d, mode, bytes, hn.congr rfl rfl, hv, ht⟩
        | _ => cases h
      · cases h
      · cases h

theorem outputMode_worlds {p : Path} (h : w' ∈ (outputMode p).worlds w) : w' = w := by
  simp only [outputMode, Script.worlds_bind, Script.worlds_ask, Script.run_ask, World.perform,
    List.singleton_append, List.mem_cons] at h
  rcases h with rfl | h
  · rfl
  split at h
  · simpa only [Script.worlds_bind, Script.worlds_ask, World.perform, Script.worlds_pure, List.append_nil,
      List.mem_singleton] using h
  · cases h

theorem fill_worlds (hn : w.Names temporary d n) (hf : w.tree.get? (d ++ [n]) = some (.file mode bytes))
    (h : w' ∈ (fill temporary o).worlds w) :
    ∃ mode bytes, w'.tree = w.tree.insert (d ++ [n]) (.file mode bytes) := by
  generalize hc : Text.Utf8.encode o.text = content at h
  have hn' : (w.withTree (w.tree.insert (d ++ [n]) (.file mode content))).Names temporary d n :=
    hn.insert_file (Tree.not_isDirectory_of_file hf) (by simp [hf]) _ _
  have hg : (w.withTree (w.tree.insert (d ++ [n]) (.file mode content))).tree.get? (d ++ [n]) =
      some (.file mode content) := Tree.get?_insert_self _ _ _
  simp only [fill, hc, Script.worlds_bind, Script.worlds_ask, Script.run_ask, World.perform, hn.write_eq hf,
    World.attempt, List.singleton_append, List.mem_cons, List.mem_append, outputMode_run] at h
  rcases h with rfl | h | h
  · exact ⟨mode, content, rfl⟩
  · rw [outputMode_worlds h]
    exact ⟨mode, content, rfl⟩
  · split at h
    · cases h
    · simp only [Script.worlds_ask, World.perform, hn'.chmod_eq hg, World.attempt, List.mem_singleton] at h
      rw [h]
      exact ⟨_, content, Tree.insert_insert _ _ _ _⟩

theorem failAfterDiscard_worlds {α : Type} {r : Refusal} (hn : w.Names temporary d n)
    (hf : w.tree.get? (d ++ [n]) = some (.file mode bytes))
    (h : w' ∈ (failAfterDiscard temporary r : Script (Except Refusal α)).worlds w) :
    w' = w.withTree (w.tree.erase (d ++ [n])) := by
  simpa [failAfterDiscard, discard, World.perform, World.attempt, hn.unlink_eq hf] using h

/-- While an output is staged, its temporary is all that is added. -/
theorem stageWithin_worlds {attempts : Nat} (h : w' ∈ (stageWithin attempts o).worlds w) :
    Beside w (nursery w o) o.path.name w' := by
  simp only [stageWithin, Script.worlds_bind, Script.worlds_ask, Script.run_ask, World.perform,
    List.singleton_append, List.mem_cons, List.mem_append] at h
  -- the moment comes before the draws of a name, among them, or while the temporary is filled
  rcases h with rfl | h | h
  · exact Or.inl rfl
  · exact createTemporary_worlds h
  · have hnursery : o.path.parent.absolute w.cwd = nursery w o := rfl
    have hcwd := Script.run_cwd (createTemporary (nursery w o) o.path.name attempts) w
    rw [hnursery] at h
    rcases createTemporary_cases (nursery w o) o.path.name attempts w with
      ⟨r, w₁, hrun, ht, -⟩ | ⟨s, d, w₁, hrun, hn, hv, ht⟩
    · rw [hrun] at h
      cases h
    · rw [hrun] at h hcwd
      generalize hs : temporaryName o.path.name s.text = n at hn hv ht h
      generalize hp : (nursery w o).child n = temporary at hn h
      have hnames : ∀ (w₂ : World) (mode : Nat) (bytes : Bytes), w₂.cwd = w.cwd →
          w₂.tree = w.tree.insert (d ++ [n]) (.file mode bytes) → w₂.Names temporary d n :=
        fun w₂ mode bytes hc ht₂ => hn.with_file hv ht₂ hc
      have hfile : w₁.tree.get? (d ++ [n]) = some (.file (unmasked privateMode w.umask) []) := by
        rw [ht, Tree.get?_insert_self]
      have hcwd₁ : w₁.cwd = w.cwd := hcwd.1
      have hfill := fill_run (hnames w₁ _ _ hcwd₁ ht) hfile o
      simp only [Script.worlds_bind, List.mem_append] at h
      rcases h with h | h
      · obtain ⟨mode, bytes, ht'⟩ := fill_worlds (hnames w₁ _ _ hcwd₁ ht) hfile h
        rw [ht, Tree.insert_insert] at ht'
        exact Or.inr ⟨s, d, mode, bytes, by rw [hs, hp]; exact hn, by rw [hs]; exact hv, by rw [hs]; exact ht'⟩
      · split at hfill
        · rw [hfill] at h
          generalize hfilled :
            w₁.withTree (w₁.tree.insert (d ++ [n]) (fileOf o (unmasked privateMode w.umask))) = w₂ at h
          obtain ⟨hcwd₂, ht₂⟩ : w₂.cwd = w.cwd ∧
              w₂.tree = w.tree.insert (d ++ [n]) (fileOf o (unmasked privateMode w.umask)) := by
            rw [← hfilled]
            exact ⟨hcwd₁, by rw [World.withTree_tree, ht, Tree.insert_insert]⟩
          have hg : w₂.tree.get? (d ++ [n]) = some (fileOf o (unmasked privateMode w.umask)) := by
            rw [ht₂, Tree.get?_insert_self]
          have hleft := failAfterDiscard_worlds (hnames w₂ _ _ hcwd₂ ht₂) hg h
          refine Or.inl ?_
          rw [hleft, World.withTree_tree, ht₂, Tree.erase_insert hv]
        · rw [hfill] at h
          cases h

/-! ## A batch, call by call -/

variable {done pending rest left parcels : List Parcel} {p : Parcel} {outputs all : List Output}

def Leftover (w : World) (place : Location) (outputs : List Output) (e : Location × Node) : Prop :=
  ∃ o ∈ outputs, ∃ (s : Suffix) (mode : Nat) (bytes : Bytes),
    e = (place ++ [temporaryName o.path.name s.text], .file mode bytes) ∧ w.tree.get? e.1 = none

structure Partway (w₀ : World) (place : Location) (outputs : List Output) (done : List Parcel) (w : World) : Prop where
  tree : ∃ temporaries : List (Location × Node), (∀ e ∈ temporaries, Leftover w₀ place outputs e) ∧
    w₀.tree.Over (temporaries ++ done.map (Parcel.placed place)) w.tree
  places : ∀ p ∈ done, w₀.Names p.output.path place p.output.path.name

theorem Parcel.Ready.leftover (h : p.Ready w₀ directory T) (hp : p.output ∈ all) :
    Leftover w₀ T all (p.waiting T) := by
  obtain ⟨s, hs⟩ := h.named
  exact ⟨p.output, hp, s, p.mode, _, by rw [← hs]; rfl, h.vacant⟩

theorem Underway.partway (hu : Underway w₀ T T done pending w) (hc : Cargo w₀ directory T pending)
    (hall : ∀ p ∈ pending, p.output ∈ all) : Partway w₀ T all done w where
  tree := by
    refine ⟨pending.map (Parcel.waiting T), fun e he => ?_, hu.tree⟩
    obtain ⟨p, hp, rfl⟩ := List.mem_map.mp he
    exact (hc.ready p hp).leftover (hall p hp)
  places := fun p hp => (hu.places p hp).1

/-- An output that is being staged adds a temporary beside those that wait. -/
theorem Underway.beside (hu : Underway w₀ T T [] pending w) (hc : Cargo w₀ directory T pending)
    (hall : ∀ p ∈ pending, p.output ∈ all) (hn : Nest w₀ (directory.absolute w₀.cwd) T [])
    (hfits : Fits w₀ directory o) (ho : o ∈ all) (h : Beside w (nursery w o) o.path.name w') :
    Partway w₀ T all [] w' := by
  rcases h with ht | ⟨s, d, mode, bytes, hnames, hv, ht⟩
  · obtain ⟨⟨temporaries, hleft, htree⟩, hplaces⟩ := hu.partway hc hall
    exact ⟨⟨temporaries, hleft, ht ▸ htree⟩, hplaces⟩
  · have hnest : nursery w o = directory.absolute w₀.cwd := by
      rw [nursery, hfits.path, hu.cwd, Path.parent_child]
    have hbefore := hu.names_before hc hnames
    rw [hnest] at hbefore
    obtain rfl : d = T := by
      have hreached := hbefore.reached
      rw [Path.dropLast_child] at hreached
      exact Except.ok.inj (hreached.symm.trans (nest_reached hn))
    obtain ⟨⟨temporaries, hleft, htree⟩, hplaces⟩ := hu.partway hc hall
    refine ⟨⟨(d ++ [temporaryName o.path.name s.text], .file mode bytes) :: temporaries,
      fun e he => ?_, ?_⟩, hplaces⟩
    · rcases List.mem_cons.mp he with rfl | he
      · have hvacant := htree (d ++ [temporaryName o.path.name s.text])
        rw [hv] at hvacant
        exact ⟨o, ho, s, mode, bytes, rfl, (Option.or_eq_none_iff.mp hvacant.symm).2⟩
      · exact hleft e he
    · rw [ht]
      exact htree.insert _ _

theorem stageAll_worlds (hu : Underway w₀ T T [] pending w) (hc : Cargo w₀ directory T pending)
    (hm : Modes w₀ T pending) (hall : ∀ p ∈ pending, p.output ∈ all) (hn : Nest w₀ (directory.absolute w₀.cwd) T [])
    (hfits : ∀ o ∈ all, Fits w₀ directory o) (hsub : ∀ o ∈ outputs, o ∈ all)
    (h : w' ∈ (stageAll outputs).worlds w) : Partway w₀ T all [] w' := by
  induction outputs generalizing pending w with
  | nil => cases h
  | cons o outputs ih =>
    have ho := hsub o List.mem_cons_self
    simp only [stageAll, Script.worlds_bind, List.mem_append] at h
    rcases h with h | h
    · exact hu.beside hc hall hn (hfits o ho) ho (stageWithin_worlds h)
    · rcases stage_cases hu (hfits o ho) with ⟨e, w₁, hrun, -⟩ | ⟨path, d, n, mode, w₁, hrun, hl⟩
      · rw [hrun] at h
        cases h
      · obtain ⟨-, hc', hm', hu'⟩ := hu.lay hc hn (hfits o ho) hm hl
        have hall' : ∀ p ∈ pending ++ [⟨o, n, mode⟩], p.output ∈ all := by
          intro p hp
          rcases List.mem_append.mp hp with hp | hp
          · exact hall p hp
          · rw [List.mem_singleton.mp hp]
            exact ho
        rw [hrun] at h
        simp only [Script.worlds_bind, List.mem_append] at h
        rcases h with h | h
        · exact ih hu' hc' hm' hall' (fun o ho => hsub o (List.mem_cons_of_mem _ ho)) h
        · cases h

theorem Cargo.suffix (hc : Cargo w₀ directory T pending) (h : left <:+ pending) : Cargo w₀ directory T left := by
  obtain ⟨front, rfl⟩ := h
  exact Cargo.right hc

theorem discardAll_worlds (hu : Underway w₀ T D done pending w) (hc : Cargo w₀ directory T pending)
    (hfits : ∀ q ∈ done, Fits w₀ directory q.output) (hn : Nest w₀ (directory.absolute w₀.cwd) T [])
    (h : w' ∈ (discardAll (pending.map (Parcel.staged (directory.absolute w₀.cwd)))).worlds w) :
    ∃ left, left <:+ pending ∧ Underway w₀ T D done left w' := by
  induction pending generalizing w with
  | nil => cases h
  | cons p rest ih =>
    have hclear : Clear [] D done := .straight
    have hu' := hu.erase hc hfits
    have hrun := hu.discard hc hn hclear
    have hworlds : (discard ((directory.absolute w₀.cwd).child p.name)).worlds w =
        [w.withTree (w.tree.erase (T ++ [p.name]))] := by
      simp [discard, World.perform, World.attempt, (hu.names hc hn hclear List.mem_cons_self).unlink_eq hu.waiting]
    simp only [List.map_cons, discardAll, Parcel.staged, Script.worlds_bind, hworlds, hrun,
      List.mem_append, List.mem_singleton] at h
    rcases h with rfl | h
    · exact ⟨rest, List.suffix_cons p rest, hu'⟩
    · obtain ⟨left, hleft, hu''⟩ := ih hu' hc.tail h
      exact ⟨left, hleft.trans (List.suffix_cons p rest), hu''⟩

theorem cleanUp_worlds {outcome : Outcome} {staged : List Staged} (h : w' ∈ (cleanUp outcome staged).worlds w) :
    w' ∈ (discardAll staged).worlds w := by
  simp only [cleanUp, Script.worlds_bind, List.mem_append] at h
  rcases h with h | h
  · exact h
  · split at h <;> cases h

theorem commit_worlds (hu : Underway w₀ T D done (p :: rest) w) (hc : Cargo w₀ directory T (p :: rest))
    (hdone : ∀ q ∈ done, Fits w₀ directory q.output)
    (hdistinct : ∀ q ∈ done, q.output.path.name ≠ p.output.path.name) (hg : Goal w₀ directory D)
    (hn : Nest w₀ (directory.absolute w₀.cwd) T [])
    (h : w' ∈ (commit (p.staged (directory.absolute w₀.cwd))).worlds w) :
    w' = w ∨ Underway w₀ T D (done ++ [p]) rest w' ∨ Underway w₀ T D done rest w' := by
  have hclear : Clear [] D done := .straight
  have hnames := hu.names hc hn hclear List.mem_cons_self
  simp only [commit, Parcel.staged, Script.worlds_bind, Script.worlds_ask, Script.run_ask, World.perform,
    List.mem_append, List.mem_singleton] at h
  cases hrename : w.rename (Route.ofPath ((directory.absolute w₀.cwd).child p.name)) (Route.ofPath p.output.path) with
  | ok w₁ =>
    rw [hrename] at h
    rcases h with rfl | h
    · exact Or.inr (Or.inl (hu.replace hc hdone hdistinct hg hn hclear hrename))
    · cases h
  | error r =>
    rw [hrename] at h
    rcases h with rfl | h
    · exact Or.inl rfl
    · rw [failAfterDiscard_worlds hnames hu.waiting h]
      exact Or.inr (Or.inr (hu.erase hc hdone))

/-- While parcels are committed, those in their places are the first ones. -/
theorem commitAll_worlds (hu : Underway w₀ T D done pending w) (hc : Cargo w₀ directory T pending)
    (hdone : ∀ q ∈ done, Fits w₀ directory q.output)
    (hdistinct : ((done ++ pending).map (·.output.path.name)).Nodup) (hg : Goal w₀ directory D)
    (hn : Nest w₀ (directory.absolute w₀.cwd) T [])
    (h : w' ∈ (commitAll (pending.map (Parcel.staged (directory.absolute w₀.cwd)))).worlds w) :
    ∃ more left, more <+: pending ∧ left <:+ pending ∧ Underway w₀ T D (done ++ more) left w' := by
  induction pending generalizing done w with
  | nil => cases h
  | cons p rest ih =>
    have hclear : Clear [] D done := .straight
    have hp : ∀ q ∈ done, q.output.path.name ≠ p.output.path.name := by
      intro q hq
      rw [List.map_append, List.nodup_append] at hdistinct
      exact hdistinct.2.2 _ (List.mem_map_of_mem hq) _ (by simp)
    simp only [List.map_cons, commitAll, Script.worlds_bind, List.mem_append] at h
    -- within the commit of `p`, or in what follows once it is in its place
    rcases h with h | h
    · rcases commit_worlds hu hc hdone hp hg hn h with rfl | hu' | hu'
      · exact ⟨[], p :: rest, List.nil_prefix, List.suffix_rfl, by rwa [List.append_nil]⟩
      · exact ⟨[p], rest, ⟨rest, rfl⟩, List.suffix_cons p rest, hu'⟩
      · exact ⟨[], rest, List.nil_prefix, List.suffix_cons p rest, by rwa [List.append_nil]⟩
    · rcases hu.commit_cases hc hdone hp hg hn hclear with ⟨w₁, hrun, hu'⟩ | ⟨e, w₁, hrun, -, -⟩
      · have hdone' : ∀ q ∈ done ++ [p], Fits w₀ directory q.output := by
          intro q hq
          rcases List.mem_append.mp hq with hq | hq
          · exact hdone q hq
          · rw [List.mem_singleton.mp hq]
            exact (hc.ready p List.mem_cons_self).fits
        rw [hrun] at h
        simp only [Script.worlds_bind, List.mem_append] at h
        rcases h with h | h
        · obtain ⟨more, left, hmore, hleft, hu''⟩ :=
            ih hu' hc.tail hdone' (by rwa [List.append_cons] at hdistinct) h
          rw [List.append_assoc] at hu''
          exact ⟨p :: more, left, (List.prefix_cons_inj p).mpr hmore, hleft.trans (List.suffix_cons p rest), hu''⟩
        · cases h
      · rw [hrun] at h
        cases h

/-! ## Moments -/

/-- A tree that a run may leave if it ends early: the outputs in `done` are in their places, the
    others as they were, and whatever else differs is a temporary. -/
structure Moment (w : World) (place : Location) (outputs : List Output) (mode : Output → Nat)
    (done : List Output) (w' : World) : Prop where
  names : ∀ o ∈ done, w.Names o.path place o.path.name
  files : ∀ o ∈ done, w'.tree.get? (place ++ [o.path.name]) = some (fileOf o (mode o))
  kept : ∀ o ∈ outputs, o ∉ done → w'.tree.get? (place ++ [o.path.name]) = w.tree.get? (place ++ [o.path.name])
  others : ∀ l, (∀ o ∈ outputs, l ≠ place ++ [o.path.name]) → w'.tree.get? l ≠ w.tree.get? l →
    w.tree.get? l = none ∧ ∃ o ∈ outputs, ∃ s : Suffix, l = place ++ [temporaryName o.path.name s.text]

structure AllStaged (w : World) (place : Location) (outputs : List Output) (mode : Output → Nat)
    (suffix : Output → Suffix) (w' : World) : Prop where
  moment : Moment w place outputs mode [] w'
  staged : ∀ o ∈ outputs,
    w'.tree.get? (place ++ [temporaryName o.path.name (suffix o).text]) = some (fileOf o (mode o))

def Parcel.of (mode : Output → Nat) (suffix : Output → Suffix) (o : Output) : Parcel :=
  ⟨o, temporaryName o.path.name (suffix o).text, mode o⟩

theorem Leftover.isTemporary {place : Location} {e : Location × Node} (h : Leftover w place outputs e) :
    ∃ n, e.1 = place ++ [n] ∧ IsTemporary n := by
  obtain ⟨o, -, s, mode, bytes, rfl, -⟩ := h
  exact ⟨_, rfl, _, _, rfl⟩

/-- No temporary stands in the place of an output, -/
theorem find_leftovers {place : Location} {temporaries : List (Location × Node)}
    (hleft : ∀ e ∈ temporaries, Leftover w place outputs e) (hfits : Fits w directory o) :
    Tree.find (place ++ [o.path.name]) temporaries = none := by
  rw [Tree.find_eq_none]
  intro e he heq
  obtain ⟨n, hn, htemporary⟩ := (hleft e he).isTemporary
  exact waiting_ne_placed htemporary hfits.visible (heq.symm.trans hn)

/-- and no other output does. -/
theorem find_placed_eq_none {place : Location} (hdistinct : (outputs.map (·.path.name)).Nodup)
    (hdone : done.map Parcel.output ⊆ outputs) (ho : o ∈ outputs) (hnot : o ∉ done.map Parcel.output) :
    Tree.find (place ++ [o.path.name]) (done.map (Parcel.placed place)) = none := by
  rw [Tree.find_eq_none]
  intro e he heq
  obtain ⟨p, hp, rfl⟩ := List.mem_map.mp he
  have hmem : p.output ∈ done.map Parcel.output := List.mem_map_of_mem hp
  have hname : p.output.path.name = o.path.name := by simpa [Parcel.placed] using heq
  exact hnot (eq_of_name hdistinct (hdone hmem) ho hname ▸ hmem)

theorem Partway.moment {place : Location} {modes : Output → Nat} (h : Partway w place outputs done w')
    (hdistinct : (outputs.map (·.path.name)).Nodup) (hfits : ∀ o ∈ outputs, Fits w directory o)
    (hdone : done.map Parcel.output <+: outputs) (hmodes : ∀ p ∈ done, modes p.output = p.mode) :
    Moment w place outputs modes (done.map Parcel.output) w' := by
  obtain ⟨⟨temporaries, hleft, htree⟩, hplaces⟩ := h
  have hnames : (done.map (·.output.path.name)).Nodup := by
    have hsub := (hdone.sublist.map (·.path.name)).nodup hdistinct
    rwa [List.map_map] at hsub
  refine { names := ?names, files := ?files, kept := ?kept, others := ?others }
  case names =>
    intro o ho
    obtain ⟨p, hp, rfl⟩ := List.mem_map.mp ho
    exact hplaces p hp
  case files =>
    intro o ho
    obtain ⟨p, hp, rfl⟩ := List.mem_map.mp ho
    rw [htree, Tree.find_append, find_leftovers hleft (hfits _ (hdone.subset ho)), Option.none_or,
      Tree.find_of_mem (nodup_placed hnames) (List.mem_map_of_mem hp), Option.some_or, hmodes p hp]
    rfl
  case kept =>
    intro o ho hnot
    rw [htree, Tree.find_append, find_leftovers hleft (hfits o ho),
      find_placed_eq_none hdistinct hdone.subset ho hnot, Option.none_or, Option.none_or]
  case others =>
    intro l hl hne
    rw [htree] at hne
    cases hfind : Tree.find l (temporaries ++ done.map (Parcel.placed place)) with
    | none => exact absurd (by rw [hfind, Option.none_or]) hne
    | some node =>
      rcases List.mem_append.mp (Tree.mem_of_find hfind) with he | he
      · obtain ⟨o, ho, s, mode, bytes, heq, hvacant⟩ := hleft _ he
        exact ⟨hvacant, o, ho, s, congrArg Prod.fst heq⟩
      · obtain ⟨p, hp, heq⟩ := List.mem_map.mp he
        exact absurd (congrArg Prod.fst heq).symm (hl _ (hdone.subset (List.mem_map_of_mem hp)))

variable {mode : Output → Nat} {suffix : Output → Suffix}

theorem Underway.allStaged {place : Location} (hu : Underway w place place [] parcels w')
    (hc : Cargo w directory place parcels) (hdistinct : ((parcels.map Parcel.output).map (·.path.name)).Nodup)
    (hof : ∀ p ∈ parcels, Parcel.of mode suffix p.output = p) :
    AllStaged w place (parcels.map Parcel.output) mode suffix w' where
  moment := by
    have hfits : ∀ o ∈ parcels.map Parcel.output, Fits w directory o := by
      intro o ho
      obtain ⟨p, hp, rfl⟩ := List.mem_map.mp ho
      exact (hc.ready p hp).fits
    exact (hu.partway hc fun p => List.mem_map_of_mem).moment hdistinct hfits List.nil_prefix (by simp)
  staged := by
    intro o ho
    obtain ⟨p, hp, rfl⟩ := List.mem_map.mp ho
    have hwaits := hu.waits hc hp
    rw [← hof p hp] at hwaits
    exact hwaits

/-- What holds of a run that ends in `w'`, after the worlds of `past`. Once an output is in its place, all have
    been staged, each with its mode. -/
def Interrupted (w : World) (place : Location) (outputs : List Output) (mode : Output → Nat)
    (suffix : Output → Suffix) (past : List World) (w' : World) : Prop :=
  ∃ done, done <+: outputs ∧ Moment w place outputs mode done w' ∧
    (done ≠ [] → Modes w place (outputs.map (Parcel.of mode suffix)) ∧
      ∃ w₁ ∈ past, AllStaged w place outputs mode suffix w₁)

theorem Interrupted.mono {place : Location} {past past' : List World}
    (h : Interrupted w place outputs mode suffix past w') (hsub : past ⊆ past') :
    Interrupted w place outputs mode suffix past' w' := by
  obtain ⟨done, hdone, hmoment, hstaged⟩ := h
  refine ⟨done, hdone, hmoment, fun hne => ?_⟩
  obtain ⟨hmodes, w₁, hw₁, hall⟩ := hstaged hne
  exact ⟨hmodes, w₁, hsub hw₁, hall⟩

/-- Parcels of distinct outputs are told by their outputs. -/
theorem exists_parcel_of (s₀ : Suffix) (h : ((parcels.map Parcel.output).map (·.path.name)).Nodup)
    (hnamed : ∀ p ∈ parcels, ∃ s : Suffix, p.name = temporaryName p.output.path.name s.text) :
    ∃ (mode : Output → Nat) (suffix : Output → Suffix), ∀ p ∈ parcels, Parcel.of mode suffix p.output = p := by
  induction parcels with
  | nil => exact ⟨fun _ => 0, fun _ => s₀, by simp⟩
  | cons p rest ih =>
    obtain ⟨hnot, hnodup⟩ := List.nodup_cons.mp h
    obtain ⟨mode, suffix, hof⟩ := ih hnodup fun q hq => hnamed q (List.mem_cons_of_mem _ hq)
    obtain ⟨s, hs⟩ := hnamed p List.mem_cons_self
    refine ⟨fun o => if o = p.output then p.mode else mode o, fun o => if o = p.output then s else suffix o,
      fun q hq => ?_⟩
    rcases List.mem_cons.mp hq with rfl | hq
    · simp only [Parcel.of, if_true, ← hs]
    · have hne : q.output ≠ p.output := fun e =>
        hnot (e ▸ List.mem_map_of_mem (List.mem_map_of_mem hq))
      simp only [Parcel.of, if_neg hne]
      exact hof q hq

theorem Partway.interrupted {place : Location} {past : List World}
    (h : Partway w place outputs [] w') (hdistinct : (outputs.map (·.path.name)).Nodup)
    (hfits : ∀ o ∈ outputs, Fits w directory o) : Interrupted w place outputs mode suffix past w' :=
  ⟨[], List.nil_prefix, h.moment hdistinct hfits List.nil_prefix (by simp), fun h => absurd rfl h⟩

/-- After staging, each world of a run has a first part of the parcels in their places. -/
theorem Plan.worlds {w₁ : World} (h : Plan w directory outputs T T [] parcels w₁)
    (hu : Underway w T T [] parcels w₁) (hdistinct : (outputs.map (·.path.name)).Nodup) :
    ∃ later, (writeAll outputs).worlds w = (stageAll outputs).worlds w ++ later ∧ ∀ w' ∈ later,
      ∃ more left, more <+: parcels ∧ left <:+ parcels ∧ Underway w T T more left w' := by
  have hnames : (([] ++ parcels).map fun p : Parcel => p.output.path.name).Nodup := by
    rw [← h.covers, List.map_map] at hdistinct
    exact hdistinct
  refine ⟨_, by simp only [writeAll, Script.worlds_bind, h.staged]; rfl, fun w' hmem => ?_⟩
  rcases List.mem_append.mp hmem with hcommitting | hleft
  · exact commitAll_worlds hu h.cargo (by simp) hnames h.goal h.nest hcommitting
  · cases commitAll_cases hu h.cargo (by simp) hnames h.goal h.nest with
    | all w₂ hcommit _ _ =>
      rw [hcommit] at hleft
      cases hleft
    | refused pre p rest e w₂ w₃ hparcels _ _ hcommit _ _ _ hu' =>
      rw [hcommit] at hleft
      obtain rfl := hparcels
      have hc : Cargo w directory T (p :: rest) := Cargo.right h.cargo
      obtain ⟨left, hsuffix, hu''⟩ :=
        discardAll_worlds hu' hc.tail (Cargo.fits_left h.cargo) h.nest (cleanUp_worlds hleft)
      exact ⟨pre, left, List.prefix_append _ _,
        hsuffix.trans ((List.suffix_cons p rest).trans (List.suffix_append pre _)), hu''⟩
    | cut pre p rest w₂ _ _ hclear _ => exact absurd .straight hclear

/-- A temporary shows that its directory is reached. -/
theorem Beside.nest (hfits : Fits w directory o) (h : Beside w (nursery w o) o.path.name w') :
    w'.tree = w.tree ∨ ∃ T trail, Nest w (directory.absolute w.cwd) T trail := by
  rcases h with ht | ⟨s, d, mode, bytes, hnames, -, -⟩
  · exact Or.inl ht
  · obtain ⟨⟨trail, hwalks⟩, hd⟩ := Tree.walkDirectory_eq_ok_iff.mp hnames.reached
    rw [Path.dropLast_child, nursery, hfits.path, Path.parent_child] at hwalks
    exact Or.inr ⟨d, trail, hwalks, hd⟩

/-! ### A whole run, by how staging ends -/

/-- Until all is staged, there are at most temporaries. -/
theorem staging_partway (hn : Nest w (directory.absolute w.cwd) T []) (hfits : ∀ o ∈ outputs, Fits w directory o)
    (h : w' ∈ w :: (stageAll outputs).worlds w) : Partway w T outputs [] w' := by
  have hstart : Underway w T T [] [] w := Underway.start w T T
  rcases List.mem_cons.mp h with rfl | h
  · exact hstart.partway (Cargo.nil w' directory T) (by simp)
  · exact stageAll_worlds hstart (Cargo.nil w directory T) (Modes.nil w T) (by simp) hn hfits (fun o ho => ho) h

/-- So there are where staging stops, for all that is staged is discarded then. -/
theorem refused_partway {more : List Parcel} {post : List Output} {stop : Stop} {w₁ : World}
    (hn : Nest w (directory.absolute w.cwd) T []) (hfits : ∀ o ∈ outputs, Fits w directory o)
    (hout : outputs = more.map Parcel.output ++ o :: post)
    (hrun : (stageAll outputs).run w = ((more.map (Parcel.staged (directory.absolute w.cwd)), some stop), w₁))
    (hc : Cargo w directory T more) (hu : Underway w T T [] more w₁)
    (h : w' ∈ w :: (writeAll outputs).worlds w) : Partway w T outputs [] w' := by
  simp only [writeAll, Script.worlds_bind, hrun, List.mem_cons, List.mem_append] at h
  rcases h with h | h | h
  · exact staging_partway hn hfits (List.mem_cons.mpr (Or.inl h))
  · exact staging_partway hn hfits (List.mem_cons_of_mem _ h)
  · obtain ⟨left, hleft, hu'⟩ := discardAll_worlds hu hc (by simp) hn (cleanUp_worlds h)
    exact hu'.partway (hc.suffix hleft) fun p hp =>
      hout ▸ List.mem_append_left _ (List.mem_map_of_mem (hleft.subset hp))

/-- Where all is staged, the outputs are put into their places one by one. -/
theorem Plan.interrupted {w₁ : World} {past : List World}
    (h : Plan w directory (parcels.map Parcel.output) T T [] parcels w₁) (hu : Underway w T T [] parcels w₁)
    (hfits : ∀ o ∈ parcels.map Parcel.output, Fits w directory o)
    (hdistinct : ((parcels.map Parcel.output).map (·.path.name)).Nodup)
    (hof : ∀ p ∈ parcels, Parcel.of mode suffix p.output = p)
    (hpast : past ++ [w'] <+: w :: (writeAll (parcels.map Parcel.output)).worlds w) :
    Interrupted w T (parcels.map Parcel.output) mode suffix past w' := by
  obtain ⟨later, hworlds, hlater⟩ := h.worlds hu hdistinct
  rw [hworlds, ← List.cons_append] at hpast
  rcases snoc_prefix_append hpast with hmem | ⟨between, rfl, hbetween⟩
  · exact (staging_partway h.nest hfits hmem).interrupted hdistinct hfits
  · obtain ⟨more, left, hmore, hleft, hu'⟩ := hlater w' (hbetween.subset (by simp))
    have hpartway : Partway w T (parcels.map Parcel.output) more w' :=
      hu'.partway (h.cargo.suffix hleft) fun p hp => List.mem_map_of_mem (hleft.subset hp)
    have hmoment := hpartway.moment hdistinct hfits (hmore.map _) fun p hp =>
      congrArg Parcel.mode (hof p (hmore.subset hp))
    have hsame : (parcels.map Parcel.output).map (Parcel.of mode suffix) = parcels := by
      rw [List.map_map]
      exact (List.map_congr_left hof).trans (List.map_id _)
    have hlast := Script.run_mem_worlds (stageAll (parcels.map Parcel.output)) w
    rw [h.staged] at hlast
    exact ⟨more.map Parcel.output, hmore.map _, hmoment,
      fun _ => ⟨hsame.symm ▸ h.modes, w₁, List.mem_append_left _ hlast, hu.allStaged h.cargo hdistinct hof⟩⟩

/-- Where the directory is not reached, the first output is refused and nothing is written. -/
theorem unreached_same (hfits : ∀ o ∈ outputs, Fits w directory o) (hne : outputs ≠ [])
    (hnest : ¬ ∃ T trail, Nest w (directory.absolute w.cwd) T trail)
    (h : w' ∈ w :: (writeAll outputs).worlds w) : w'.tree = w.tree := by
  obtain ⟨o, post, rfl⟩ := List.exists_cons_of_ne_nil hne
  obtain ⟨e, w₁, hrun, -⟩ := stage_without_nest (hfits o List.mem_cons_self) hnest
  simp only [writeAll, stageAll, Script.worlds_bind, Script.run_bind, hrun, List.mem_cons, List.mem_append] at h
  rcases h with rfl | (h | h) | h
  · rfl
  · exact ((stageWithin_worlds h).nest (hfits o List.mem_cons_self)).resolve_right hnest
  · cases h
  · cases h

theorem writeAll_moments (hfits : ∀ o ∈ outputs, Fits w directory o)
    (hdistinct : (outputs.map (·.path.name)).Nodup) (hne : outputs ≠ []) (hw : w.Rooted) (hp : Plain w directory) :
    ∃ (mode : Output → Nat) (suffix : Output → Suffix), ∀ past w',
      past ++ [w'] <+: w :: (writeAll outputs).worlds w →
        Interrupted w (spelled w directory) outputs mode suffix past w' := by
  by_cases hnest : ∃ T trail, Nest w (directory.absolute w.cwd) T trail
  · obtain ⟨T, trail, hn⟩ := hnest
    obtain ⟨rfl, rfl, hn'⟩ := hp.nest hw hn
    cases stageAll_cases outputs (Underway.start w _ _) (Cargo.nil w directory _) (Modes.nil w _) hn hfits with
    | first more o post e w₁ w₂ hout _ _ hall hc hu =>
      exact ⟨fun _ => 0, fun _ => w.suffixes 0, fun past w' hpast =>
        (refused_partway hn hfits hout hall hc hu (hpast.subset (by simp))).interrupted hdistinct hfits⟩
    | all parcels w₁ hout hall hc hm hu =>
      obtain rfl := hout
      have hg : Goal w directory (spelled w directory) := fun d hd =>
        Except.ok.inj (hd.symm.trans (nest_reached hn'))
      have hplan : Plan w directory (parcels.map Parcel.output) _ _ [] parcels w₁ := ⟨rfl, hn, hg, hc, hm, hall⟩
      obtain ⟨mode, suffix, hof⟩ := exists_parcel_of (w.suffixes 0) hdistinct fun p hp => (hc.ready p hp).named
      exact ⟨mode, suffix, fun past w' hpast => hplan.interrupted hu hfits hdistinct hof hpast⟩
  · refine ⟨fun _ => 0, fun _ => w.suffixes 0, fun past w' hpast => ?_⟩
    have hmem : w' ∈ w :: (writeAll outputs).worlds w := hpast.subset (by simp)
    have hsame := unreached_same hfits hne hnest hmem
    obtain ⟨htree, hplaces⟩ : Partway w (spelled w directory) outputs [] w :=
      (Underway.start w _ _).partway (Cargo.nil w directory _) (by simp)
    exact Partway.interrupted ⟨hsame ▸ htree, hplaces⟩ hdistinct hfits

end Stage

/-! ## Commands that write -/

theorem Grammar.load_worlds {p : Path} {w w' : World} (h : w' ∈ (Grammar.load p).worlds w) : w' = w := by
  simp only [load, Script.worlds_bind, Script.worlds_ask, Script.run_ask, World.perform, List.mem_append,
    List.mem_singleton] at h
  rcases h with h | h
  · exact h
  · split at h
    · cases h
    · split at h <;> cases h

namespace Command

open Stage

variable {w : World} {arguments : List Text} {s : Settings} {ds : List Descriptor} {target : Target}

/-- A run does nothing to the tree before it has the grammar. -/
theorem run_worlds {g : Grammar} (h : grammarOf w s = .ok g) :
    ∃ reading, (∀ w' ∈ reading, w' = w) ∧ (run s).worlds w = reading ++ (runGrammar s g).worlds w := by
  unfold grammarOf at h
  unfold run
  split at h
  · rename_i hbuiltin
    cases h
    rw [if_pos hbuiltin]
    exact ⟨[], by simp, rfl⟩
  · rename_i hnamed
    rw [if_neg hnamed]
    refine ⟨(Grammar.load (Path.ofText s.grammar)).worlds w, fun w' => Grammar.load_worlds, ?_⟩
    rw [Script.worlds_bind, Grammar.load_run, h]

/-- At whatever call a run that writes into a plain directory ends, each output is as it was or
    complete, the complete ones are the first, and only temporaries are left besides. -/
theorem run_interrupted (h : Writing w arguments s ds) (hw : w.Rooted) (hp : Plain w (Path.ofText s.directory)) :
    (∀ target, s.target = some target → ∃ (mode : Output → Nat) (suffix : Output → Suffix), ∀ past w',
      past ++ [w'] <+: w :: (invoke arguments).worlds w →
        Interrupted w (spelled w (Path.ofText s.directory)) (outputs s target ds) mode suffix past w') ∧
    (s.target = none → ∀ w' ∈ (invoke arguments).worlds w, w' = w) := by
  obtain ⟨g, hg, hds⟩ := h.grammar
  obtain ⟨reading, hreading, hworlds⟩ := run_worlds hg
  simp only [invoke, h.parsed, hworlds]
  constructor
  · intro target ht
    obtain ⟨hne, hnodup⟩ := grammarOf_bases hg
    obtain ⟨mode, suffix, hmode⟩ := writeAll_moments (h.fits hw.clean target) (outputs_distinct hnodup hds target)
      (outputs_ne_nil hne hds target) hw hp
    refine ⟨mode, suffix, fun past w' hpast => ?_⟩
    simp only [runGrammar, hds, ht, h.writing] at hpast
    rw [← List.cons_append] at hpast
    rcases snoc_prefix_append hpast with hmem | ⟨more, rfl, hmore⟩
    · obtain rfl : w' = w := by
        rcases List.mem_cons.mp hmem with h | h
        · exact h
        · exact hreading w' h
      exact (hmode [] w' ⟨_, rfl⟩).mono (List.nil_subset _)
    · refine (hmode (w :: more) w' ((List.prefix_cons_inj w).mpr hmore)).mono fun x hx => ?_
      rcases List.mem_cons.mp hx with rfl | hx
      · exact List.mem_append_left _ List.mem_cons_self
      · exact List.mem_append_right _ hx
  · intro ht w' hmem
    simp only [runGrammar, hds, ht, List.mem_append] at hmem
    rcases hmem with hmem | hmem
    · exact hreading w' hmem
    · cases hmem

theorem run_interrupted_new_file :
    ∃ s ds, ∃ (mode : Output → Nat) (suffix : Output → Suffix), ∀ past w',
      past ++ [w'] <+: World.fresh [("w".toList, 0o755)] 0o022 ::
        (invoke [".".toList]).worlds (World.fresh [("w".toList, 0o755)] 0o022) →
      Interrupted (World.fresh [("w".toList, 0o755)] 0o022)
        (spelled (World.fresh [("w".toList, 0o755)] 0o022) (Path.ofText s.directory)) (outputs s .java ds) mode
        suffix past w' :=
  ⟨_, _, (run_interrupted ⟨by decide, rfl, rfl, Grammar.builtin, rfl, rfl⟩ rooted_fresh plain_fresh).1 .java rfl⟩

end Command

end NodeGen
