/-
  NodeGen.Proofs.Writing — how a run that writes a batch can end.

  `writeAll_cases`: staging stops at an output and nothing stays behind (`unstaged`); all outputs are
  in their places (`written`); a parcel cannot be moved to its place, and it and all later ones are
  removed (`refused`); or a parcel that replaced a link cut the way to the temporaries, and those
  still waiting stay (`cut`).
-/

import NodeGen.Proofs.Commit

namespace NodeGen.Stage

variable {w₀ w w' : World} {directory : Path} {T D : Location} {trail : List Location}
  {done pending rest parcels : List Parcel} {p q : Parcel} {outputs : List Output}

structure Plan (w₀ : World) (directory : Path) (outputs : List Output) (T D : Location)
    (trail : List Location) (parcels : List Parcel) (w₁ : World) : Prop where
  covers : parcels.map Parcel.output = outputs
  nest : Nest w₀ (directory.absolute w₀.cwd) T trail
  goal : Goal w₀ directory D
  cargo : Cargo w₀ directory T parcels
  modes : Modes w₀ T parcels
  staged : (stageAll outputs).run w₀ = ((parcels.map (Parcel.staged (directory.absolute w₀.cwd)), none), w₁)

inductive Ended (w₀ : World) (directory : Path) (outputs : List Output) : Outcome → World → Prop
  | unstaged (pre : List Output) (o : Output) (post : List Output) (staged : List Staged) (e : Errno)
      (w₁ w₂ w' : World) : outputs = pre ++ o :: post →
      (stageAll pre).run w₀ = ((staged, none), w₁) → (stage o).run w₁ = (.error (.errno e), w₂) →
      (∀ x, w'.tree.get? x = w₀.tree.get? x) →
      Ended w₀ directory outputs ⟨[.unwritable o.path e], .exit 1⟩ w'
  | written (T D : Location) (trail : List Location) (parcels : List Parcel) (w₁ w' : World) :
      Plan w₀ directory outputs T D trail parcels w₁ →
      (commitAll (parcels.map (Parcel.staged (directory.absolute w₀.cwd)))).run w₁ =
        ((parcels.map (·.output.path), [], none), w') →
      (parcels ≠ [] → Clear trail D parcels.dropLast) → Underway w₀ T D parcels [] w' →
      Ended w₀ directory outputs ⟨parcels.map (.generated ·.output.path), .exit 0⟩ w'
  | refused (T D : Location) (trail : List Location) (pre : List Parcel) (p : Parcel) (rest : List Parcel)
      (e : Errno) (w₁ w₂ w₃ w' : World) : Plan w₀ directory outputs T D trail (pre ++ p :: rest) w₁ →
      (commitAll (pre.map (Parcel.staged (directory.absolute w₀.cwd)))).run w₁ =
        ((pre.map (·.output.path), [], none), w₂) →
      (commit (p.staged (directory.absolute w₀.cwd))).run w₂ = (.error (.errno e), w₃) →
      Clear trail D pre → Underway w₀ T D pre (p :: rest) w₂ →
      w₂.rename (Route.ofPath ((directory.absolute w₀.cwd).child p.name)) (Route.ofPath p.output.path) =
        .error (.errno e) →
      Underway w₀ T D pre [] w' →
      Ended w₀ directory outputs
        ⟨pre.map (.generated ·.output.path) ++ [.unwritable p.output.path e], .exit 1⟩ w'
  | cut (T D : Location) (trail : List Location) (pre : List Parcel) (p : Parcel) (rest : List Parcel)
      (w₁ w' : World) : Plan w₀ directory outputs T D trail (pre ++ p :: rest) w₁ → ¬ Clear trail D pre →
      Underway w₀ T D pre (p :: rest) w' →
      Ended w₀ directory outputs
        ⟨pre.map (.generated ·.output.path) ++ [.unwritable p.output.path .notDirectory],
          if rest = [] then .exit 1 else .abort (.refused (.errno .notDirectory))⟩ w'

/-- A run that succeeds has put all its outputs in their places. -/
theorem Ended.of_exit {outcome : Outcome} (h : Ended w₀ directory outputs outcome w)
    (hexit : outcome.ending = .exit 0) :
    outcome = ⟨outputs.map (.generated ·.path), .exit 0⟩ ∧ ∃ T D trail parcels w₁,
      Plan w₀ directory outputs T D trail parcels w₁ ∧ Underway w₀ T D parcels [] w := by
  cases h with
  | unstaged => cases hexit
  | refused => cases hexit
  | cut _ _ _ _ _ rest =>
    simp only at hexit
    split at hexit <;> cases hexit
  | written T D trail parcels w₁ _ hplan hcommit hclear hu =>
    refine ⟨?_, T, D, trail, parcels, w₁, hplan, hu⟩
    rw [← hplan.covers, List.map_map]
    rfl

theorem Clear.nil (trail : List Location) (D : Location) : Clear trail D [] := by
  intro p hp
  cases hp

theorem Cargo.nil (w : World) (directory : Path) (T : Location) : Cargo w directory T [] :=
  ⟨by simp, List.nodup_nil⟩

/-- Nothing was done yet, or all that was done is undone. -/
theorem Underway.start (w : World) (T D : Location) : Underway w T D [] [] w :=
  ⟨rfl, rfl, fun x => by simp [Tree.find], by simp⟩

theorem Underway.same (hu : Underway w₀ T D [] [] w) (x : Location) : w.tree.get? x = w₀.tree.get? x := by
  simpa [Tree.find] using hu.tree x

theorem cleanUp_run_ok {o : Outcome} {staged : List Staged} (h : (discardAll staged).run w = (.ok (), w')) :
    (cleanUp o staged).run w = (o, w') := by
  simp only [cleanUp, Script.run_bind, h]
  rfl

theorem cleanUp_run_error {o : Outcome} {staged : List Staged} {r : Refusal}
    (h : (discardAll staged).run w = (.error r, w')) :
    (cleanUp o staged).run w = ({ o with ending := .abort (.refused r) }, w') := by
  simp only [cleanUp, Script.run_bind, h]
  rfl

/-- Where the directory of the temporaries is not reached, no output is laid ready. -/
theorem stage_without_nest {o : Output} (hfits : Fits w directory o)
    (hno : ¬ ∃ T trail, Nest w (directory.absolute w.cwd) T trail) :
    ∃ e w', (stage o).run w = (.error (.errno e), w') ∧ w'.tree = w.tree := by
  rcases stage_cases (Underway.start w [] []) hfits with h | ⟨p, d, n, mode, w', -, hl⟩
  · exact h
  · refine absurd ?_ hno
    obtain ⟨⟨trail, hw⟩, hd⟩ := Tree.walkDirectory_eq_ok_iff.mp hl.names.reached
    have hpath : p = (directory.absolute w.cwd).child n := by
      rw [hl.path, nursery, hfits.path, Path.parent_child]
    rw [hpath, Path.dropLast_child] at hw
    exact ⟨d, trail, hw, hd⟩

/-- A batch that was staged as a whole ends as the loop of commits does. -/
theorem Plan.ended {w₁ : World} (h : Plan w₀ directory outputs T D trail parcels w₁)
    (hu : Underway w₀ T D [] parcels w₁) (hdistinct : (outputs.map (·.path.name)).Nodup) :
    Ended w₀ directory outputs ((writeAll outputs).run w₀).1 ((writeAll outputs).run w₀).2 := by
  have hall := h.staged
  have hnames : (([] ++ parcels).map fun p : Parcel => p.output.path.name).Nodup := by
    rw [← h.covers, List.map_map] at hdistinct
    exact hdistinct
  cases commitAll_cases hu h.cargo (by simp) hnames h.goal h.nest with
  | all w' hcommit hclear hu' =>
    rw [List.nil_append] at hclear hu'
    have hrun : (writeAll outputs).run w₀ = (⟨parcels.map (.generated ·.output.path), .exit 0⟩, w') := by
      simp only [writeAll, Script.run_bind, hall]
      simp only [hcommit, List.map_map]
      rfl
    rw [hrun]
    exact .written T D trail parcels w₁ w' h hcommit hclear hu'
  | refused pre p rest e w₂ w₃ hparcels hpre hfail hcommit hclear hbefore hrename hu' =>
    rw [List.nil_append] at hclear hbefore hu'
    subst hparcels
    have hc : Cargo w₀ directory T (p :: rest) := Cargo.right h.cargo
    obtain ⟨w', hdiscard, hu''⟩ := hu'.discardAll hc.tail (Cargo.fits_left h.cargo) h.nest hclear
    have hrun : (writeAll outputs).run w₀ =
        (⟨pre.map (.generated ·.output.path) ++ [.unwritable p.output.path e], .exit 1⟩, w') := by
      simp only [writeAll, Script.run_bind, hall, hcommit, List.map_map]
      exact cleanUp_run_ok hdiscard
    rw [hrun]
    exact .refused T D trail pre p rest e w₁ w₂ w₃ w' h hpre hfail hclear hbefore hrename hu''
  | cut pre p rest w' hparcels hcommit hclear hu' =>
    rw [List.nil_append] at hclear hu'
    subst hparcels
    have hc : Cargo w₀ directory T (p :: rest) := Cargo.right h.cargo
    have hrun : (writeAll outputs).run w₀ =
        (⟨pre.map (.generated ·.output.path) ++ [.unwritable p.output.path .notDirectory],
          if rest = [] then .exit 1 else .abort (.refused (.errno .notDirectory))⟩, w') := by
      simp only [writeAll, Script.run_bind, hall, hcommit, List.map_map]
      -- what is left has to be removed, over the way that was cut; with nothing left no one looks
      cases rest with
      | nil => rfl
      | cons q rest =>
        have hq : q ∈ p :: q :: rest := List.mem_cons_of_mem _ List.mem_cons_self
        exact cleanUp_run_error (hu'.discardAll_cut hc h.nest hclear hq)
    rw [hrun]
    exact .cut T D trail pre p rest w₁ w' h hclear hu'

theorem writeAll_cases (hfits : ∀ o ∈ outputs, Fits w₀ directory o)
    (hdistinct : (outputs.map (·.path.name)).Nodup) (hne : outputs ≠ []) :
    Ended w₀ directory outputs ((writeAll outputs).run w₀).1 ((writeAll outputs).run w₀).2 := by
  by_cases hnest : ∃ T trail, Nest w₀ (directory.absolute w₀.cwd) T trail
  · obtain ⟨T, trail, hn⟩ := hnest
    obtain ⟨D, hg⟩ := exists_goal w₀ directory
    cases stageAll_cases outputs (Underway.start w₀ T D) (Cargo.nil w₀ directory T) (Modes.nil w₀ T) hn hfits with
    | first more o post e w₁ w₂ hout hpre hfail hall hc hu =>
      obtain ⟨w', hdiscard, hu'⟩ := hu.discardAll hc (by simp) hn (Clear.nil trail D)
      have hrun : (writeAll outputs).run w₀ = (⟨[.unwritable o.path e], .exit 1⟩, w') := by
        simp only [writeAll, Script.run_bind, hall]
        exact cleanUp_run_ok hdiscard
      rw [hrun]
      exact .unstaged _ o post _ e w₁ w₂ w' hout hpre hfail hu'.same
    | all parcels w₁ hout hall hc hm hu =>
      have hplan : Plan w₀ directory outputs T D trail parcels w₁ := ⟨hout, hn, hg, hc, hm, hall⟩
      exact hplan.ended hu hdistinct
  · obtain ⟨o, post, rfl⟩ := List.exists_cons_of_ne_nil hne
    obtain ⟨e, w', hrun, ht⟩ := stage_without_nest (hfits o List.mem_cons_self) hnest
    have hall : (writeAll (o :: post)).run w₀ = (⟨[.unwritable o.path e], .exit 1⟩, w') := by
      simp only [writeAll, stageAll, Script.run_bind, hrun]
      rfl
    rw [hall]
    exact .unstaged [] o post [] e w₀ w' w' rfl rfl hrun (fun x => by rw [ht])

end NodeGen.Stage
