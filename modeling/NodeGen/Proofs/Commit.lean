/-
  NodeGen.Proofs.Commit — putting a staged batch in its place, parcel by parcel.

  `commitAll_cases` tells how the loop ends: all parcels are in their places, or the first one that
  cannot be moved there is removed (`refused`), or the way to the temporaries was cut by a parcel that
  replaced a link on it; then the parcel at hand is neither moved nor removed (`cut`).
-/

import NodeGen.Proofs.Batch

namespace NodeGen.Stage

variable {w₀ w w' : World} {directory : Path} {T D : Location} {trail : List Location}
  {done pending rest : List Parcel} {p q : Parcel}

/-- The place of the outputs, if their directory is reached at all. -/
def Goal (w : World) (directory : Path) (D : Location) : Prop :=
  ∀ d, w.tree.walkDirectory (w.start (Route.ofPath directory)) directory.parts = .ok d → d = D

theorem exists_goal (w : World) (directory : Path) : ∃ D, Goal w directory D := by
  cases h : w.tree.walkDirectory (w.start (Route.ofPath directory)) directory.parts with
  | error e => exact ⟨[], fun d hd => by rw [h] at hd; cases hd⟩
  | ok D => exact ⟨D, fun d hd => by rw [h] at hd; cases hd; rfl⟩

/-- An output's path names an entry of the directory of all outputs. -/
theorem Goal.names {o : Output} {d : Location} {n : Text} (hg : Goal w directory D)
    (hfits : Fits w directory o) (h : w.Names o.path d n) : d = D ∧ n = o.path.name := by
  have hreached := h.reached
  have hlast := h.last
  rw [hfits.path] at hreached hlast
  refine ⟨hg d ?_, by simpa [Path.child] using hlast.symm⟩
  rwa [Path.dropLast_child] at hreached

/-! ## One parcel -/

/-- No other parcel has the place of an output, nor does a temporary. -/
theorem find_vacated (hc : Cargo w₀ directory T (p :: rest))
    (hdistinct : ∀ q ∈ done, q.output.path.name ≠ p.output.path.name) :
    Tree.find (D ++ [p.output.path.name]) (rest.map (Parcel.waiting T) ++ done.map (Parcel.placed D)) = none := by
  rw [Tree.find_eq_none]
  intro entry hentry
  rcases List.mem_append.mp hentry with hm | hm
  · obtain ⟨q, hq, rfl⟩ := List.mem_map.mp hm
    have htemporary := (hc.ready q (List.mem_cons_of_mem _ hq)).temporary
    exact (waiting_ne_placed htemporary (hc.ready p List.mem_cons_self).fits.visible).symm
  · obtain ⟨q, hq, rfl⟩ := List.mem_map.mp hm
    simpa [Parcel.placed] using hdistinct q hq

/-- A parcel that was moved is in its place. -/
theorem Underway.replace (hu : Underway w₀ T D done (p :: rest) w) (hc : Cargo w₀ directory T (p :: rest))
    (hdone : ∀ q ∈ done, Fits w₀ directory q.output)
    (hdistinct : ∀ q ∈ done, q.output.path.name ≠ p.output.path.name) (hg : Goal w₀ directory D)
    (hn : Nest w₀ (directory.absolute w₀.cwd) T trail) (hclear : Clear trail D done)
    (h : w.rename (Route.ofPath ((directory.absolute w₀.cwd).child p.name)) (Route.ofPath p.output.path) = .ok w') :
    Underway w₀ T D (done ++ [p]) rest w' := by
  have hready := hc.ready p List.mem_cons_self
  obtain ⟨e, m, hnames, hdir, hw'⟩ :=
    World.exists_of_rename (hu.names hc hn hclear List.mem_cons_self) hu.waiting hready.fits.clean h
  have hbefore := hu.names_before hc hnames
  obtain ⟨rfl, rfl⟩ := hg.names hready.fits hbefore
  obtain rfl := hw' (waiting_ne_placed hready.temporary hready.fits.visible)
  have hu' := hu.erase hc hdone
  refine ⟨hu.cwd, hu.umask, ?_, ?_⟩
  · refine Tree.Over.congr (hu'.tree.insert (e ++ [p.output.path.name]) p.node) fun x => ?_
    rw [List.map_append, ← List.append_assoc, Tree.find_append]
    by_cases hx : x = e ++ [p.output.path.name]
    · rw [hx, find_vacated hc hdistinct]
      simp [Tree.find, Parcel.placed]
    · simp [Tree.find, Parcel.placed, Ne.symm hx]
  · intro q hq
    rcases List.mem_append.mp hq with hq | hq
    · exact hu.places q hq
    · obtain rfl := List.mem_singleton.mp hq
      refine ⟨hbefore, ?_⟩
      cases hb : w₀.tree.isDirectory (e ++ [q.output.path.name]) with
      | false => rfl
      | true =>
        rw [Tree.isDirectory_congr ((hu.filed hc).directories hb), hb] at hdir
        cases hdir

/-- A parcel within reach is moved to its place, or it is removed. -/
theorem Underway.commit_cases (hu : Underway w₀ T D done (p :: rest) w) (hc : Cargo w₀ directory T (p :: rest))
    (hdone : ∀ q ∈ done, Fits w₀ directory q.output)
    (hdistinct : ∀ q ∈ done, q.output.path.name ≠ p.output.path.name) (hg : Goal w₀ directory D)
    (hn : Nest w₀ (directory.absolute w₀.cwd) T trail) (hclear : Clear trail D done) :
    (∃ w', (commit (p.staged (directory.absolute w₀.cwd))).run w = (.ok (), w') ∧
      Underway w₀ T D (done ++ [p]) rest w') ∨
    ∃ e w', (commit (p.staged (directory.absolute w₀.cwd))).run w = (.error (.errno e), w') ∧
      w.rename (Route.ofPath ((directory.absolute w₀.cwd).child p.name)) (Route.ofPath p.output.path) =
        .error (.errno e) ∧ Underway w₀ T D done rest w' := by
  have hnames := hu.names hc hn hclear List.mem_cons_self
  simp only [commit, Parcel.staged, Script.run_bind, Script.run_ask, World.perform]
  cases h : w.rename (Route.ofPath ((directory.absolute w₀.cwd).child p.name)) (Route.ofPath p.output.path) with
  | ok w' => exact Or.inl ⟨w', rfl, hu.replace hc hdone hdistinct hg hn hclear h⟩
  | error r =>
    obtain ⟨e, rfl⟩ := hnames.rename_errno hu.waiting (hc.ready p List.mem_cons_self).fits.clean h
    exact Or.inr ⟨e, _, failAfterDiscard_run hnames hu.waiting _, rfl, hu.erase hc hdone⟩

/-- A name that is not hidden, and shorter than that of its temporary, is one that a directory can hold. -/
theorem Parcel.Ready.walkable (h : p.Ready w directory T) : Tree.Walkable p.output.path.name := by
  refine ⟨fun e => h.fits.visible (by rw [e]; rfl), fun e => h.fits.visible (by rw [e]; rfl), ?_⟩
  obtain ⟨s, hs⟩ := h.named
  have hshort := h.names.walkable.short
  simp only [hs, temporaryName, Text.Utf8.size, Text.Utf8.encode, List.flatMap_append, List.length_append] at hshort ⊢
  omega

theorem Parcel.Ready.names_of_reached (h : p.Ready w₀ directory T)
    (hreach : w.tree.walkDirectory (w.start (Route.ofPath directory)) directory.parts = .ok D) :
    w.Names p.output.path D p.output.path.name := by
  refine ⟨?_, ?_, ?_, h.walkable⟩
  · obtain ⟨beside, hmode⟩ := h.mode
    refine hmode.admitted ?_
    rw [h.fits.path]
    exact Path.child_toText_ne_nil directory h.fits.named
  · rw [h.fits.path, Path.dropLast_child]
    exact hreach
  · exact (congrArg (·.parts.getLast?) h.fits.path).trans (Path.getLast?_child _ _)

/-- Only a directory in its place stops a parcel whose directory is reached. -/
theorem Underway.rename_error {e : Errno} (hu : Underway w₀ T D done (p :: rest) w)
    (hc : Cargo w₀ directory T (p :: rest)) (hn : Nest w₀ (directory.absolute w₀.cwd) T trail)
    (hclear : Clear trail D done)
    (hreach : w.tree.walkDirectory (w.start (Route.ofPath directory)) directory.parts = .ok D)
    (h : w.rename (Route.ofPath ((directory.absolute w₀.cwd).child p.name)) (Route.ofPath p.output.path) =
      .error (.errno e)) :
    (e = .notEmpty ∧ D ++ [p.output.path.name] <+: T) ∨
      (e = .isDirectory ∧ w₀.tree.isDirectory (D ++ [p.output.path.name]) = true) := by
  have hready := hc.ready p List.mem_cons_self
  have hnames := hready.names_of_reached hreach
  rw [(hu.names hc hn hclear List.mem_cons_self).rename_file hu.waiting hready.fits.clean, hnames.entry_eq] at h
  simp only [hnames.location_eq] at h
  split at h
  · rename_i habove
    cases h
    exact Or.inl ⟨rfl, List.isPrefixOf_iff_prefix.mp habove⟩
  · split at h
    · rename_i hdir
      cases h
      refine Or.inr ⟨rfl, ?_⟩
      rw [Tree.isDirectory_congr ((hu.filed hc).directories' hdir), hdir]
    · split at h <;> cases h

/-- A parcel out of reach stays where it is. -/
theorem Underway.commit_cut (hu : Underway w₀ T D done (p :: rest) w) (hc : Cargo w₀ directory T (p :: rest))
    (hn : Nest w₀ (directory.absolute w₀.cwd) T trail) (hclear : ¬ Clear trail D done) :
    (commit (p.staged (directory.absolute w₀.cwd))).run w = (.error (.errno .notDirectory), w) := by
  have hready := hc.ready p List.mem_cons_self
  have hcut := hu.cut hc hn hclear
  rw [← Path.dropLast_child _ p.name] at hcut
  simp only [commit, Parcel.staged, Script.run_bind, Script.run_ask, World.perform,
    World.rename_refused hready.names.admitted hcut hready.fits.clean]
  exact failAfterDiscard_run_refused hready.names.admitted hcut (by decide) _

/-! ## The loop -/

inductive CommittedUpTo (w₀ : World) (directory : Path) (T D : Location) (trail : List Location)
    (done pending : List Parcel) (w : World) : Prop
  | all (w' : World) :
      (commitAll (pending.map (Parcel.staged (directory.absolute w₀.cwd)))).run w =
        ((pending.map (·.output.path), [], none), w') →
      (pending ≠ [] → Clear trail D (done ++ pending.dropLast)) →
      Underway w₀ T D (done ++ pending) [] w' →
      CommittedUpTo w₀ directory T D trail done pending w
  | refused (pre : List Parcel) (p : Parcel) (rest : List Parcel) (e : Errno) (w₁ w' : World) :
      pending = pre ++ p :: rest →
      (commitAll (pre.map (Parcel.staged (directory.absolute w₀.cwd)))).run w =
        ((pre.map (·.output.path), [], none), w₁) →
      (commit (p.staged (directory.absolute w₀.cwd))).run w₁ = (.error (.errno e), w') →
      (commitAll (pending.map (Parcel.staged (directory.absolute w₀.cwd)))).run w =
        ((pre.map (·.output.path), rest.map (Parcel.staged (directory.absolute w₀.cwd)),
          some ⟨p.output.path, .errno e⟩), w') →
      Clear trail D (done ++ pre) → Underway w₀ T D (done ++ pre) (p :: rest) w₁ →
      w₁.rename (Route.ofPath ((directory.absolute w₀.cwd).child p.name)) (Route.ofPath p.output.path) =
        .error (.errno e) →
      Underway w₀ T D (done ++ pre) rest w' →
      CommittedUpTo w₀ directory T D trail done pending w
  | cut (pre : List Parcel) (p : Parcel) (rest : List Parcel) (w' : World) :
      pending = pre ++ p :: rest →
      (commitAll (pending.map (Parcel.staged (directory.absolute w₀.cwd)))).run w =
        ((pre.map (·.output.path), rest.map (Parcel.staged (directory.absolute w₀.cwd)),
          some ⟨p.output.path, .errno .notDirectory⟩), w') →
      ¬ Clear trail D (done ++ pre) → Underway w₀ T D (done ++ pre) (p :: rest) w' →
      CommittedUpTo w₀ directory T D trail done pending w

/-- The loop goes on after a parcel that was moved to its place. -/
theorem CommittedUpTo.cons (hrun : (commit (p.staged (directory.absolute w₀.cwd))).run w = (.ok (), w'))
    (hclear : Clear trail D done) (h : CommittedUpTo w₀ directory T D trail (done ++ [p]) rest w') :
    CommittedUpTo w₀ directory T D trail done (p :: rest) w := by
  have hassoc : ∀ more, (done ++ [p]) ++ more = done ++ p :: more := fun more => by simp
  cases h with
  | all w'' hrest hclear' hu =>
    rw [hassoc] at hu
    refine .all w'' ?_ (fun _ => ?_) hu
    · simp only [List.map_cons, commitAll, Script.run_bind, hrun, hrest]
      rfl
    · cases rest with
      | nil => simpa using hclear
      | cons q rest =>
        have h := hclear' (List.cons_ne_nil _ _)
        rwa [hassoc] at h
  | refused pre q rest' e w₁ w'' hrest hpre hfail hall hclear' hbefore hrename hu =>
    rw [hassoc] at hclear' hbefore hu
    refine .refused (p :: pre) q rest' e w₁ w'' (by rw [hrest]; rfl) ?_ hfail ?_ hclear' hbefore hrename hu
    · simp only [List.map_cons, commitAll, Script.run_bind, hrun, hpre]
      rfl
    · simp only [List.map_cons, commitAll, Script.run_bind, hrun, hall]
      rfl
  | cut pre q rest' w'' hrest hall hclear' hu =>
    rw [hassoc] at hclear' hu
    refine .cut (p :: pre) q rest' w'' (by rw [hrest]; rfl) ?_ hclear' hu
    simp only [List.map_cons, commitAll, Script.run_bind, hrun, hall]
    rfl

theorem commitAll_cases (hu : Underway w₀ T D done pending w) (hc : Cargo w₀ directory T pending)
    (hdone : ∀ q ∈ done, Fits w₀ directory q.output)
    (hdistinct : ((done ++ pending).map (·.output.path.name)).Nodup) (hg : Goal w₀ directory D)
    (hn : Nest w₀ (directory.absolute w₀.cwd) T trail) : CommittedUpTo w₀ directory T D trail done pending w := by
  induction pending generalizing done w with
  | nil => exact .all w rfl (fun h => absurd rfl h) (by rwa [List.append_nil])
  | cons p rest ih =>
    by_cases hclear : Clear trail D done
    · have hp : ∀ q ∈ done, q.output.path.name ≠ p.output.path.name := by
        intro q hq
        rw [List.map_append, List.nodup_append] at hdistinct
        exact hdistinct.2.2 _ (List.mem_map_of_mem hq) _ (by simp)
      rcases hu.commit_cases hc hdone hp hg hn hclear with ⟨w', hrun, hu'⟩ | ⟨e, w', hrun, hrename, hu'⟩
      · have hdone' : ∀ q ∈ done ++ [p], Fits w₀ directory q.output := by
          intro q hq
          rcases List.mem_append.mp hq with hq | hq
          · exact hdone q hq
          · obtain rfl := List.mem_singleton.mp hq
            exact (hc.ready q List.mem_cons_self).fits
        exact .cons hrun hclear (ih hu' hc.tail hdone' (by rwa [List.append_cons] at hdistinct))
      · refine .refused [] p rest e w w' rfl rfl hrun ?_ (by rwa [List.append_nil]) (by rwa [List.append_nil])
          hrename (by rwa [List.append_nil])
        simp only [List.map_cons, commitAll, Script.run_bind, hrun]
        rfl
    · refine .cut [] p rest w rfl ?_ (by rwa [List.append_nil]) (by rwa [List.append_nil])
      simp only [List.map_cons, commitAll, Script.run_bind, hu.commit_cut hc hn hclear]
      rfl

end NodeGen.Stage
