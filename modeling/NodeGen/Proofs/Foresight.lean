/-
  NodeGen.Proofs.Foresight — what comes of writing a batch, told from the world before it.

  An output can be staged if the system takes the paths of its temporaries and finds a mode for it
  (`Stageable`); the temporary's name is then the first vacant one that is drawn, and the mode is the one
  found before the work (`Foreseen`). Neither depends on what else is staged or in its place by then
  (`Working.staged`, `Working.stage`), as long as that leaves the mode alone (`Unaffected`).

  So a batch is written exactly if all its outputs are foreseen, one after the other (`Foresight`), and no
  directory is in the place of one of them (`Batched.writeAll_iff`), and then every mode is known
  (`Batched.written`). Where the source of names does not run dry, the order has no part in that
  (`Supplied.foresight_iff`).
-/

import NodeGen.Proofs.Draws
import NodeGen.Proofs.Steadiness

namespace NodeGen

namespace Stage

variable {w₀ w w' : World} {directory : Path} {place : Location} {done pending parcels : List Parcel} {p q : Parcel}
  {o : Output} {outputs : List Output} {k k' limit : Nat}

/-! ## Outputs that can be staged -/

/-- What staging an output takes, but for a vacant name. -/
structure Stageable (w : World) (directory : Path) (place : Location) (o : Output) : Prop where
  names : ∀ s : Suffix, w.Names ((directory.absolute w.cwd).child (temporaryName o.path.name s.text)) place
    (temporaryName o.path.name s.text)
  mode : ∃ m, modeFor w o.path = .ok m

/-- The parcel that an output becomes when names are drawn from the `k`-th on, and the number of the draw
    after those. -/
structure Foreseen (w : World) (directory : Path) (place : Location) (k : Nat) (p : Parcel) (k' : Nat) : Prop where
  stageable : Stageable w directory place p.output
  draws : ∃ i, FirstFree w place p.output.path.name maxAttempts k i ∧
    p.name = drawnName w p.output.path.name (k + i) ∧ k' = k + i + 1
  mode : ∃ m, modeFor w p.output.path = .ok m ∧ p.mode = m &&& 0o7777

inductive Foresight (w : World) (directory : Path) (place : Location) : Nat → List Parcel → Prop
  | nil (k : Nat) : Foresight w directory place k []
  | cons {k k' : Nat} {p : Parcel} {rest : List Parcel} : Foreseen w directory place k p k' →
      Foresight w directory place k' rest → Foresight w directory place k (p :: rest)

theorem ModeOf.of_modeFor {path : Path} {m : Nat} (h : modeFor w path = .ok m) : ModeOf w [] path (m &&& 0o7777) :=
  modeOf_of_modeFor (t := w.tree)
    ⟨fun _ => Or.inl rfl, fun l mode content hv hl => (by rw [hv] at hl; cases hl), by simp, by simp⟩ h

theorem Foreseen.drawn (h : Foreseen w directory place k p k') :
    ∃ draw < k', p.name = drawnName w p.output.path.name draw := by
  obtain ⟨i, -, hname, rfl⟩ := h.draws
  exact ⟨k + i, Nat.lt_succ_self _, hname⟩

theorem Foreseen.le (h : Foreseen w directory place k p k') : k ≤ k' ∧ k' ≤ k + maxAttempts := by
  obtain ⟨i, hfree, -, rfl⟩ := h.draws
  have := hfree.within
  omega

theorem Foreseen.vacant (h : Foreseen w directory place k p k') : w.tree.get? (place ++ [p.name]) = none := by
  obtain ⟨i, hfree, hname, -⟩ := h.draws
  rw [hname]
  exact hfree.vacant

theorem Foreseen.ready (h : Foreseen w directory place k p k') (hfits : Fits w directory p.output) :
    p.Ready w directory place := by
  obtain ⟨draw, -, hname⟩ := h.drawn
  obtain ⟨m, hm, hmode⟩ := h.mode
  refine ⟨hfits, ⟨_, hname⟩, ?_, h.vacant, ⟨[], hmode ▸ .of_modeFor hm⟩, by rw [hmode, Nat.and_assoc, Nat.and_self]⟩
  rw [hname]
  exact h.stageable.names _

/-! ## Moments of the work -/

structure Working (w₀ : World) (directory : Path) (place : Location) (done pending : List Parcel) (w : World) :
    Prop where
  underway : Underway w₀ place place done pending w
  cargo : Cargo w₀ directory place pending
  fits : ∀ q ∈ done, Fits w₀ directory q.output
  suffixes : w.suffixes = w₀.suffixes
  drawn : ∀ q ∈ pending, ∃ draw < w.drawn, q.name = drawnName w₀ q.output.path.name draw

def InUse (w : World) (limit : Nat) (done pending : List Parcel) (o : Output) (n : Text) : Prop :=
  (∃ draw < limit, n = drawnName w o.path.name draw) ∨ n ∈ pending.map Parcel.name ∨
    n ∈ done.map (·.output.path.name)

/-- An output that is staged as if nothing else were: no other temporary is tried for it, and what is in
    use leaves its mode alone. -/
structure Unaffected (w : World) (place : Location) (limit : Nat) (done pending : List Parcel) (o : Output) :
    Prop where
  fresh : ∀ q ∈ pending, q.output.path.name ≠ o.path.name
  steady : Steady w place (InUse w limit done pending o) o.path

theorem Steady.mono {path : Path} {names names' : Text → Prop} (h : Steady w place names path)
    (hsub : ∀ n, names' n → names n) : Steady w place names' path := by
  intro u hu
  refine h u fun x => (hu x).imp_right ?_
  rintro ⟨⟨n, hn, hx⟩, hfile⟩
  exact ⟨⟨n, hsub n hn, hx⟩, hfile⟩

theorem Unaffected.mono {limit' : Nat} (h : Unaffected w place limit done pending o) (hle : limit' ≤ limit) :
    Unaffected w place limit' done pending o where
  fresh := h.fresh
  steady := h.steady.mono fun _ hn => hn.imp_left fun ⟨draw, hdraw, he⟩ => ⟨draw, Nat.lt_of_lt_of_le hdraw hle, he⟩

theorem Working.start (w : World) (directory : Path) (place : Location) : Working w directory place [] [] w :=
  ⟨.start w place place, .nil w directory place, by simp, rfl, by simp⟩

theorem drawnName_congr (h : w.suffixes = w₀.suffixes) (name : Text) (draw : Nat) :
    drawnName w name draw = drawnName w₀ name draw := by
  simp only [drawnName, h]

/-- A name that may be drawn is vacant now if it was before the work. -/
theorem Working.get?_drawn (h : Working w₀ directory place done pending w)
    (hfresh : ∀ q ∈ pending, q.output.path.name ≠ o.path.name) (draw : Nat) :
    w.tree.get? (place ++ [drawnName w₀ o.path.name draw]) =
      w₀.tree.get? (place ++ [drawnName w₀ o.path.name draw]) := by
  have hwaiting : Tree.find (place ++ [drawnName w₀ o.path.name draw]) (pending.map (Parcel.waiting place)) = none := by
    rw [Tree.find_eq_none]
    intro e he heq
    obtain ⟨q, hq, rfl⟩ := List.mem_map.mp he
    obtain ⟨s, hs⟩ := (h.cargo.ready q hq).named
    have hname : q.name = drawnName w₀ o.path.name draw := by simpa [Parcel.waiting] using heq
    exact hfresh q hq (temporaryName_injective (hs.symm.trans hname))
  rw [h.underway.tree, Tree.find_append, hwaiting, find_placed (isTemporary_drawnName _ _ _) h.fits, Option.none_or,
    Option.none_or]

/-- The tree in which the mode is asked for is the first one with files under the names in use. -/
theorem Working.filedAs (h : Working w₀ directory place done pending w) {n : Text}
    (hn : ∃ draw < limit, n = drawnName w₀ o.path.name draw) (hvacant : w₀.tree.get? (place ++ [n]) = none) :
    w₀.tree.FiledAs (InUse w₀ limit done pending o) place (beside w place o n) := by
  intro x
  rw [beside, Tree.get?_insert]
  by_cases hx : x = place ++ [n]
  · rw [if_pos hx, hx]
    exact Or.inr ⟨⟨n, Or.inl hn, rfl⟩, Tree.not_isDirectory_of_none hvacant, _, _, rfl⟩
  · rw [if_neg hx, h.underway.tree]
    cases hfind : Tree.find x (pending.map (Parcel.waiting place) ++ done.map (Parcel.placed place)) with
    | none => exact Or.inl rfl
    | some node =>
      right
      rcases List.mem_append.mp (Tree.mem_of_find hfind) with hm | hm
      · obtain ⟨q, hq, he⟩ := List.mem_map.mp hm
        cases he
        exact ⟨⟨q.name, Or.inr (Or.inl (List.mem_map_of_mem hq)), rfl⟩,
          Tree.not_isDirectory_of_none (h.cargo.ready q hq).vacant, _, _, rfl⟩
      · obtain ⟨q, hq, he⟩ := List.mem_map.mp hm
        cases he
        exact ⟨⟨q.output.path.name, Or.inr (Or.inr (List.mem_map.mpr ⟨q, hq, rfl⟩)), rfl⟩,
          (h.underway.places q hq).2, _, _, rfl⟩

theorem Working.modeFor_eq (h : Working w₀ directory place done pending w) {n : Text}
    (ha : Unaffected w₀ place limit done pending o) (hn : ∃ draw < limit, n = drawnName w₀ o.path.name draw)
    (hvacant : w₀.tree.get? (place ++ [n]) = none) :
    modeFor (w.withTree (beside w place o n)) o.path = modeFor w₀ o.path := by
  rw [← ha.steady _ (h.filedAs hn hvacant)]
  generalize beside w place o n = t
  exact @modeFor_congr (w₀.withTree t) (w.withTree t) rfl h.underway.cwd h.underway.umask o.path

theorem Working.nursery_eq (h : Working w₀ directory place done pending w) (hfits : Fits w₀ directory o) :
    nursery w o = directory.absolute w₀.cwd := by
  rw [nursery, hfits.path, h.underway.cwd, Path.parent_child]

variable (hn : Nest w₀ (directory.absolute w₀.cwd) place [])

include hn in
/-- The temporaries stay within reach. -/
theorem Working.names (h : Working w₀ directory place done pending w) {n : Text}
    (hnames : w₀.Names ((directory.absolute w₀.cwd).child n) place n) :
    w.Names ((directory.absolute w₀.cwd).child n) place n := by
  refine ⟨hnames.admitted, ?_, hnames.last, hnames.walkable⟩
  rw [Path.dropLast_child]
  exact h.underway.reached h.cargo hn .straight

include hn in
/-- What was foreseen for an output comes about at every moment of the work. -/
theorem Working.stage (h : Working w₀ directory place done pending w) (hfits : Fits w₀ directory p.output)
    (ha : Unaffected w₀ place k' done pending p.output) (hf : Foreseen w₀ directory place w.drawn p k') :
    ∃ w', (Stage.stage p.output).run w = (.ok ((directory.absolute w₀.cwd).child p.name), w') ∧ w'.drawn = k' ∧
      Working w₀ directory place done (pending ++ [p]) w' := by
  obtain ⟨i, hfree, hname, hk⟩ := hf.draws
  obtain ⟨m, hm, hmode⟩ := hf.mode
  have hnest : ∀ s : Suffix, w.Names ((nursery w p.output).child (temporaryName p.output.path.name s.text)) place
      (temporaryName p.output.path.name s.text) := by
    intro s
    rw [h.nursery_eq hfits]
    exact h.names hn (hf.stageable.names s)
  have hnow : FirstFree w place p.output.path.name maxAttempts w.drawn i := by
    refine hfree.congr h.suffixes fun draw => ?_
    exact h.get?_drawn ha.fresh draw
  have hrun := stage_run hnest hnow
  rw [drawnName_congr h.suffixes, ← hname, h.modeFor_eq ha hf.drawn hf.vacant, hm, h.nursery_eq hfits] at hrun
  simp only [← hmode] at hrun
  have hvacant : w.tree.get? (place ++ [p.name]) = none := by
    have hv := hnow.vacant
    rwa [drawnName_congr h.suffixes, ← hname] at hv
  refine ⟨_, hrun, hk.symm, ?_⟩
  have htree : (afterDraws w (w.drawn + i + 1) (w.tree.insert (place ++ [p.name]) p.node)).tree =
      w.tree.insert (place ++ [p.name]) p.node := rfl
  obtain ⟨hnew, -, hunderway⟩ := h.underway.snoc hvacant htree rfl rfl
  refine ⟨hunderway, h.cargo.snoc (hf.ready hfits) hnew, h.fits, h.suffixes, fun q hq => ?_⟩
  rcases List.mem_append.mp hq with hq | hq
  · obtain ⟨draw, hdraw, hq⟩ := h.drawn q hq
    exact ⟨draw, Nat.lt_of_lt_of_le hdraw (hk ▸ hf.le.1), hq⟩
  · obtain rfl := List.mem_singleton.mp hq
    obtain ⟨draw, hdraw, hq⟩ := hf.drawn
    exact ⟨draw, Nat.lt_of_lt_of_eq hdraw hk, hq⟩

include hn in
/-- One name was taken for a temporary, so any other would be. -/
theorem Working.names_of_stage {path : Path} (h : Working w₀ directory place done pending w)
    (hfits : Fits w₀ directory o) (hrun : (Stage.stage o).run w = (.ok path, w')) (s : Suffix) :
    w.Names ((nursery w o).child (temporaryName o.path.name s.text)) place (temporaryName o.path.name s.text) := by
  rcases stageWithin_cases maxAttempts w o with ⟨r, w₁, hfail, -⟩ | ⟨path₁, d, n, mode, w₁, hok, hl⟩
  · cases hfail.symm.trans hrun
  · obtain ⟨taken, htaken⟩ := hl.name
    have hnames := hl.names
    rw [hl.path, htaken] at hnames
    have hreached := (h.underway.names_before h.cargo hnames).reached
    rw [Path.dropLast_child, h.nursery_eq hfits] at hreached
    obtain rfl : d = place := Except.ok.inj (hreached.symm.trans (nest_reached hn))
    exact World.Names.redraw hnames s

include hn in
/-- An output that is staged at some moment of the work was foreseen. -/
theorem Working.staged {path : Path} (h : Working w₀ directory place done pending w) (hfits : Fits w₀ directory o)
    (ha : Unaffected w₀ place (w.drawn + maxAttempts) done pending o) (hrun : (Stage.stage o).run w = (.ok path, w')) :
    ∃ p, p.output = o ∧ Foreseen w₀ directory place w.drawn p w'.drawn ∧
      path = (directory.absolute w₀.cwd).child p.name ∧ Working w₀ directory place done (pending ++ [p]) w' := by
  have hnow := h.names_of_stage hn hfits hrun
  have hnames : ∀ s : Suffix, w₀.Names ((directory.absolute w₀.cwd).child (temporaryName o.path.name s.text)) place
      (temporaryName o.path.name s.text) := by
    intro s
    have hbefore := h.underway.names_before h.cargo (hnow s)
    rwa [h.nursery_eq hfits] at hbefore
  obtain ⟨i, hfree⟩ := firstFree_of_stage hnow hrun
  -- nothing at work has a name that is drawn for this output, so the same one was vacant before
  have hbefore : FirstFree w₀ place o.path.name maxAttempts w.drawn i := by
    refine hfree.congr h.suffixes.symm fun draw => ?_
    rw [drawnName_congr h.suffixes]
    exact (h.get?_drawn ha.fresh draw).symm
  have hequation := stage_run hnow hfree
  have hwithin : w.drawn + i < w.drawn + maxAttempts := Nat.add_lt_add_left hfree.within _
  rw [drawnName_congr h.suffixes, h.modeFor_eq ha ⟨_, hwithin, rfl⟩ hbefore.vacant, hrun] at hequation
  cases hm : modeFor w₀ o.path with
  | error r =>
    rw [hm] at hequation
    obtain ⟨r', hr'⟩ := failAfterDiscard_error (α := Path)
      ((nursery w o).child (drawnName w₀ o.path.name (w.drawn + i))) r
      (afterDraws w (w.drawn + i + 1) (beside w place o (drawnName w₀ o.path.name (w.drawn + i))))
    cases (congrArg Prod.fst hequation).trans hr'
  | ok m =>
    have hforeseen : Foreseen w₀ directory place w.drawn
        ⟨o, drawnName w₀ o.path.name (w.drawn + i), m &&& 0o7777⟩ (w.drawn + i + 1) :=
      ⟨⟨hnames, ⟨m, hm⟩⟩, ⟨i, hbefore, rfl, rfl⟩, ⟨m, hm, rfl⟩⟩
    obtain ⟨w₁, hrun₁, hdrawn, hworking⟩ := h.stage hn hfits (ha.mono hwithin) hforeseen
    cases hrun.symm.trans hrun₁
    exact ⟨_, rfl, hdrawn.symm ▸ hforeseen, rfl, hworking⟩

/-! ## Batches -/

omit hn

/-- How many names have been drawn at most when some outputs are staged. -/
def drawLimit (w : World) (outputs : List Output) : Nat := w.drawn + maxAttempts * outputs.length

def DrawnFor (w : World) (outputs : List Output) (n : Text) : Prop :=
  ∃ o ∈ outputs, ∃ draw < drawLimit w outputs, n = drawnName w o.path.name draw

theorem DrawnFor.isTemporary {n : Text} (h : DrawnFor w outputs n) : IsTemporary n := by
  obtain ⟨o, -, draw, -, rfl⟩ := h
  exact isTemporary_drawnName w o.path.name draw

structure InReach (w : World) (directory : Path) (place : Location) (outputs : List Output) : Prop where
  nest : Nest w (directory.absolute w.cwd) place []
  reached : Nest w directory place []
  fits : ∀ o ∈ outputs, Fits w directory o

structure Batched (w : World) (directory : Path) (place : Location) (outputs : List Output) : Prop
    extends InReach w directory place outputs where
  distinct : (outputs.map (·.path.name)).Nodup
  steady : ∀ o ∈ outputs, Steady w place (DrawnFor w outputs) o.path

theorem Fits.not_drawn (h : Fits w directory o) : ¬ DrawnFor w outputs o.path.name :=
  fun hdrawn => h.visible hdrawn.isTemporary.head

def Unlinked (w : World) (place : Location) (outputs : List Output) : Prop :=
  ∀ o ∈ outputs, ∀ target, w.tree.get? (place ++ [o.path.name]) ≠ some (.link target)

theorem Unlinked.steady (hlink : Unlinked w place outputs) (h : InReach w directory place outputs) :
    ∀ o ∈ outputs, Steady w place (DrawnFor w outputs) o.path := by
  intro o ho
  have hfits := h.fits o ho
  exact steady_of_not_link h.reached hfits.path hfits.visible hfits.not_drawn (hlink o ho)

variable {all rest : List Output}

/-- No name is that of an output before. -/
theorem Batched.fresh {before : List Parcel} (hb : Batched w₀ directory place all)
    (hall : before.map Parcel.output ++ o :: rest = all) : ∀ q ∈ before, q.output.path.name ≠ o.path.name := by
  intro q hq
  have hd := hb.distinct
  rw [← hall, List.map_append, List.nodup_append, List.map_map] at hd
  exact hd.2.2 _ (List.mem_map_of_mem hq) _ (by simp)

theorem Batched.unaffected (hb : Batched w₀ directory place all) (h : Working w₀ directory place [] pending w)
    (hall : pending.map Parcel.output ++ o :: rest = all)
    (hlimit : w.drawn + maxAttempts * (o :: rest).length ≤ drawLimit w₀ all) :
    Unaffected w₀ place (drawLimit w₀ all) [] pending o where
  fresh := hb.fresh hall
  steady := by
    have ho : o ∈ all := hall ▸ List.mem_append_right _ List.mem_cons_self
    refine (hb.steady o ho).mono fun n hn => ?_
    rcases hn with hn | hn | hn
    · exact ⟨o, ho, hn⟩
    · obtain ⟨q, hq, rfl⟩ := List.mem_map.mp hn
      obtain ⟨draw, hdraw, hname⟩ := h.drawn q hq
      exact ⟨q.output, hall ▸ List.mem_append_left _ (List.mem_map_of_mem hq), draw, by omega, hname⟩
    · cases hn

/-- What was foreseen for a batch comes about when it is staged. -/
theorem Batched.stageAll (hb : Batched w₀ directory place all) (h : Working w₀ directory place [] pending w)
    (hall : pending.map Parcel.output ++ parcels.map Parcel.output = all)
    (hlimit : w.drawn + maxAttempts * parcels.length ≤ drawLimit w₀ all)
    (hf : Foresight w₀ directory place w.drawn parcels) :
    ∃ w', (Stage.stageAll (parcels.map Parcel.output)).run w =
        ((parcels.map (Parcel.staged (directory.absolute w₀.cwd)), none), w') ∧
      Working w₀ directory place [] (pending ++ parcels) w' := by
  induction parcels generalizing pending w with
  | nil => exact ⟨w, rfl, by rwa [List.append_nil]⟩
  | cons p rest ih =>
    cases hf with
    | cons hp hrest =>
      have hfits := hb.fits p.output (hall ▸ List.mem_append_right _ List.mem_cons_self)
      have hunaffected := hb.unaffected h hall (by simpa using hlimit)
      -- every output draws its share of names at most, so the limit holds for the rest
      rw [List.length_cons, Nat.mul_succ] at hlimit
      obtain ⟨-, hle⟩ := hp.le
      obtain ⟨w₁, hrun, rfl, hworking⟩ := h.stage hb.nest hfits (hunaffected.mono (by omega)) hp
      obtain ⟨w', hall', hworking'⟩ := ih hworking (by simpa using hall) (by omega) hrest
      rw [List.append_assoc] at hworking'
      refine ⟨w', ?_, hworking'⟩
      simp only [List.map_cons, Stage.stageAll, Script.run_bind, hrun, hall']
      rfl

/-- A batch that is staged as a whole was foreseen. -/
theorem Batched.foresight {staged : List Staged} (hb : Batched w₀ directory place all)
    (h : Working w₀ directory place [] pending w) (hall : pending.map Parcel.output ++ outputs = all)
    (hlimit : w.drawn + maxAttempts * outputs.length ≤ drawLimit w₀ all)
    (hrun : (Stage.stageAll outputs).run w = ((staged, none), w')) :
    ∃ parcels, parcels.map Parcel.output = outputs ∧ Foresight w₀ directory place w.drawn parcels := by
  induction outputs generalizing pending w staged with
  | nil => exact ⟨[], rfl, .nil _⟩
  | cons o rest ih =>
    have hfits := hb.fits o (hall ▸ List.mem_append_right _ List.mem_cons_self)
    simp only [Stage.stageAll, Script.run_bind] at hrun
    rcases hstage : (Stage.stage o).run w with ⟨r | path, w₁⟩
    · rw [hstage] at hrun
      cases hrun
    · rw [hstage] at hrun
      have hunaffected := hb.unaffected h hall hlimit
      rw [List.length_cons, Nat.mul_succ] at hlimit
      obtain ⟨p, rfl, hp, -, hworking⟩ := h.staged hb.nest hfits (hunaffected.mono (by omega)) hstage
      obtain ⟨-, hle⟩ := hp.le
      rcases hmore : (Stage.stageAll rest).run w₁ with ⟨⟨more, stop⟩, w₂⟩
      simp only [Script.run_bind, hmore] at hrun
      cases hrun
      obtain ⟨parcels, rfl, hrest⟩ := ih hworking (by simpa using hall) (by omega) hmore
      exact ⟨p :: parcels, rfl, .cons hp hrest⟩

theorem InReach.goal (h : InReach w directory place outputs) : Goal w directory place :=
  fun _ hd => Except.ok.inj (hd.symm.trans (nest_reached h.reached))

/-- Only a directory in its place stops a staged output. -/
theorem InReach.blocked {e : Errno} (h : InReach w₀ directory place all)
    (hu : Underway w₀ place place done (p :: pending) w) (hc : Cargo w₀ directory place (p :: pending))
    (hrename : w.rename (Route.ofPath ((directory.absolute w₀.cwd).child p.name)) (Route.ofPath p.output.path) =
      .error (.errno e)) : w₀.tree.isDirectory (place ++ [p.output.path.name]) = true := by
  have hreach := hu.reached hc h.reached .straight
  rcases hu.rename_error hc h.nest .straight hreach hrename with ⟨-, habove⟩ | ⟨-, hdir⟩
  · exact absurd habove.length_le (by simp)
  · exact hdir

/-- Staged outputs get to their places if no directory is in one of these. -/
theorem Batched.commitAll (hb : Batched w₀ directory place (parcels.map Parcel.output))
    (h : Working w₀ directory place [] parcels w)
    (hfree : ∀ p ∈ parcels, w₀.tree.isDirectory (place ++ [p.output.path.name]) = false) :
    ∃ w', (Stage.commitAll (parcels.map (Parcel.staged (directory.absolute w₀.cwd)))).run w =
        ((parcels.map (·.output.path), [], none), w') ∧ Underway w₀ place place parcels [] w' := by
  have hd := hb.distinct
  rw [List.map_map] at hd
  cases commitAll_cases h.underway h.cargo (by simp) hd hb.goal hb.nest with
  | all w' hrun _ hu => exact ⟨w', hrun, hu⟩
  | cut pre p rest w' hparcels hall hclear hu => exact absurd .straight hclear
  | refused pre p rest e w₁ w' hparcels hpre hfail hall hclear hbefore hrename hu =>
    rw [List.nil_append] at hbefore
    subst hparcels
    have hdir := hb.blocked hbefore (Cargo.right h.cargo) hrename
    rw [hfree p (List.mem_append_right _ List.mem_cons_self)] at hdir
    cases hdir

/-- What was foreseen for a batch comes about when it is written. -/
theorem Batched.writeAll (hb : Batched w directory place (parcels.map Parcel.output))
    (hf : Foresight w directory place w.drawn parcels)
    (hfree : ∀ p ∈ parcels, w.tree.isDirectory (place ++ [p.output.path.name]) = false) :
    ∃ w', (Stage.writeAll (parcels.map Parcel.output)).run w =
        (⟨(parcels.map Parcel.output).map (.generated ·.path), .exit 0⟩, w') ∧
      Underway w place place parcels [] w' := by
  obtain ⟨w₁, hstaged, hworking⟩ := hb.stageAll (.start w directory place) rfl (by simp [drawLimit]) hf
  obtain ⟨w', hcommitted, hu⟩ := hb.commitAll hworking hfree
  refine ⟨w', ?_, hu⟩
  simp only [Stage.writeAll, Script.run_bind, hstaged]
  simp only [hcommitted, List.map_map]
  rfl

/-- A batch is written exactly if all of it is foreseen and no directory is in its way. -/
theorem Batched.writeAll_iff (hb : Batched w directory place outputs) (hne : outputs ≠ []) :
    ((Stage.writeAll outputs).run w).1.ending = .exit 0 ↔
      (∃ parcels, parcels.map Parcel.output = outputs ∧ Foresight w directory place w.drawn parcels) ∧
        ∀ o ∈ outputs, w.tree.isDirectory (place ++ [o.path.name]) = false := by
  constructor
  · intro hexit
    obtain ⟨-, T, D, trail, parcels, w₁, hplan, hu⟩ := (writeAll_cases hb.fits hb.distinct hne).of_exit hexit
    obtain rfl := hplan.goal place (nest_reached hb.reached)
    refine ⟨hb.foresight (.start w directory place) rfl (Nat.le_refl _) hplan.staged, fun o ho => ?_⟩
    rw [← hplan.covers] at ho
    obtain ⟨q, hq, rfl⟩ := List.mem_map.mp ho
    exact (hu.places q hq).2
  · rintro ⟨⟨parcels, rfl, hf⟩, hfree⟩
    obtain ⟨w', hrun, -⟩ := hb.writeAll hf fun p hp => hfree _ (List.mem_map_of_mem hp)
    rw [hrun]

theorem Batched.ending (hb : Batched w directory place outputs) (hne : outputs ≠ []) :
    ((Stage.writeAll outputs).run w).1.ending = .exit 0 ∨ ((Stage.writeAll outputs).run w).1.ending = .exit 1 := by
  have hends := writeAll_cases hb.fits hb.distinct hne
  generalize (Stage.writeAll outputs).run w = answer at hends ⊢
  obtain ⟨outcome, w'⟩ := answer
  cases hends with
  | unstaged => exact Or.inr rfl
  | written => exact Or.inl rfl
  | refused => exact Or.inr rfl
  | cut T D trail pre p rest w₁ _ hplan hclear hu =>
    obtain ⟨-, rfl⟩ := hb.nest.unique hplan.nest
    exact absurd .straight hclear

/-! ## What a batch leaves -/

structure Written (w : World) (place : Location) (outputs : List Output) (w' : World) : Prop where
  files : ∀ o ∈ outputs, ∃ m, modeFor w o.path = .ok m ∧
    w'.tree.get? (place ++ [o.path.name]) = some (fileOf o (m &&& 0o7777))
  others : ∀ l, (∀ o ∈ outputs, l ≠ place ++ [o.path.name]) → w'.tree.get? l = w.tree.get? l

theorem Foresight.foreseen (h : Foresight w directory place k parcels) :
    ∀ p ∈ parcels, ∃ k k', Foreseen w directory place k p k' := by
  induction h with
  | nil => simp
  | cons hp _ ih => exact List.forall_mem_cons.mpr ⟨⟨_, _, hp⟩, ih⟩

theorem Foresight.written (h : Foresight w directory place k parcels) (hu : Underway w place place parcels [] w')
    (hd : ((parcels.map Parcel.output).map (·.path.name)).Nodup) : Written w place (parcels.map Parcel.output) w' := by
  rw [List.map_map] at hd
  refine ⟨fun o ho => ?_, fun l hl => hu.others fun q hq => hl _ (List.mem_map_of_mem hq)⟩
  obtain ⟨p, hp, rfl⟩ := List.mem_map.mp ho
  obtain ⟨k, k', hforeseen⟩ := h.foreseen p hp
  obtain ⟨m, hm, hmode⟩ := hforeseen.mode
  exact ⟨m, hm, by rw [hu.placed hd hp, Parcel.node, hmode]⟩

theorem Batched.written (hb : Batched w directory place outputs) (hne : outputs ≠ [])
    (hexit : ((Stage.writeAll outputs).run w).1.ending = .exit 0) :
    ∃ w', (Stage.writeAll outputs).run w = (⟨outputs.map (.generated ·.path), .exit 0⟩, w') ∧
      Written w place outputs w' := by
  obtain ⟨⟨parcels, rfl, hf⟩, hfree⟩ := (hb.writeAll_iff hne).mp hexit
  obtain ⟨w', hrun, hu⟩ := hb.writeAll hf fun p hp => hfree _ (List.mem_map_of_mem hp)
  exact ⟨w', hrun, hf.written hu hb.distinct⟩

/-- The same outputs, written in worlds that are alike but for their sources of names, leave the same. -/
theorem Written.same {v v' : World} {outputs' : List Output} (h : Written w place outputs w')
    (h' : Written v place outputs' v') (ht : v.tree = w.tree) (hc : v.cwd = w.cwd) (hu : v.umask = w.umask)
    (hmem : ∀ o, o ∈ outputs' ↔ o ∈ outputs) (l : Location) : v'.tree.get? l = w'.tree.get? l := by
  by_cases hl : ∃ o ∈ outputs, l = place ++ [o.path.name]
  · obtain ⟨o, ho, rfl⟩ := hl
    obtain ⟨m, hm, hg⟩ := h.files o ho
    obtain ⟨m', hm', hg'⟩ := h'.files o ((hmem o).mpr ho)
    rw [modeFor_congr ht hc hu, hm] at hm'
    cases hm'
    rw [hg, hg']
  · have hout : ∀ o ∈ outputs, l ≠ place ++ [o.path.name] := fun o ho e => hl ⟨o, ho, e⟩
    rw [h.others l hout, h'.others l fun o ho => hout o ((hmem o).mp ho), ht]

/-! ## Sources that do not run dry -/

/-- While some outputs are staged, of any names drawn for one of them in a row, as many as are tried, one is
    vacant. -/
def Supplied (w : World) (place : Location) (outputs : List Output) : Prop :=
  ∀ o ∈ outputs, ∀ k ≥ w.drawn, k + maxAttempts ≤ drawLimit w outputs →
    ∃ i < maxAttempts, w.tree.get? (place ++ [drawnName w o.path.name (k + i)]) = none

/-- In a tree without hidden names every source does. -/
theorem supplied_of_visible (h : ∀ e ∈ w.tree.nodes, ∀ n ∈ e.1.getLast?, n.head? ≠ some '.') (place : Location)
    (outputs : List Output) : Supplied w place outputs := by
  intro o ho k hk hlimit
  refine ⟨0, by decide, ?_⟩
  by_contra hne
  obtain ⟨node, hnode⟩ := Option.ne_none_iff_exists'.mp hne
  exact h _ (Tree.mem_of_find hnode) _ (by simp) (isTemporary_drawnName w o.path.name (k + 0)).head

theorem Stageable.congr (h : Stageable w directory place o) (ht : w'.tree = w.tree) (hc : w'.cwd = w.cwd)
    (hu : w'.umask = w.umask) : Stageable w' directory place o := by
  refine ⟨fun s => ?_, ?_⟩
  · rw [hc]
    exact (h.names s).congr ht hc
  · rw [modeFor_congr ht hc hu]
    exact h.mode

theorem foresight_of_stageable
    (hs : ∀ o ∈ outputs, ∀ j ≥ k, j + maxAttempts ≤ limit →
      ∃ i < maxAttempts, w.tree.get? (place ++ [drawnName w o.path.name (j + i)]) = none)
    (hlimit : k + maxAttempts * outputs.length ≤ limit) (h : ∀ o ∈ outputs, Stageable w directory place o) :
    ∃ parcels, parcels.map Parcel.output = outputs ∧ Foresight w directory place k parcels := by
  induction outputs generalizing k with
  | nil => exact ⟨[], rfl, .nil k⟩
  | cons o rest ih =>
    obtain ⟨ho, hrest⟩ := List.forall_mem_cons.mp h
    obtain ⟨hsupply, hsupplies⟩ := List.forall_mem_cons.mp hs
    rw [List.length_cons, Nat.mul_succ] at hlimit
    obtain ⟨i, hfree⟩ := exists_firstFree (hsupply k (Nat.le_refl k) (by omega))
    obtain ⟨m, hm⟩ := ho.mode
    have hwithin := hfree.within
    obtain ⟨parcels, rfl, hf⟩ := ih (k := k + i + 1) (fun q hq j hj => hsupplies q hq j (by omega)) (by omega) hrest
    exact ⟨⟨o, drawnName w o.path.name (k + i), m &&& 0o7777⟩ :: parcels, rfl,
      .cons ⟨ho, ⟨i, hfree, rfl, rfl⟩, ⟨m, hm, rfl⟩⟩ hf⟩

/-- With such a source the outputs of a batch are foreseen exactly if each can be staged. -/
theorem Supplied.foresight_iff (hs : Supplied w place outputs) :
    (∃ parcels, parcels.map Parcel.output = outputs ∧ Foresight w directory place w.drawn parcels) ↔
      ∀ o ∈ outputs, Stageable w directory place o := by
  constructor
  · rintro ⟨parcels, rfl, hf⟩ o ho
    obtain ⟨p, hp, rfl⟩ := List.mem_map.mp ho
    obtain ⟨k, k', hforeseen⟩ := hf.foreseen p hp
    exact hforeseen.stageable
  · exact foresight_of_stageable hs (Nat.le_refl _)

/-! ## Outputs that make no batch -/

theorem Plain.mem_absolute {part : Text} (hp : Plain w directory) (hw : w.Rooted) (hpart : part ∈ directory.parts) :
    part ∈ (directory.absolute w.cwd).parts := by
  have hdots : ['.', '.'] ∉ directory.parts := hp.notDots
  have hrooted : ['.', '.'] ∉ w.cwd ++ directory.parts := fun hm =>
    (List.mem_append.mp hm).elim (fun hm => (hw.names _ hm).notDots rfl) hdots
  unfold Path.absolute
  split
  · rw [Path.collapse_eq_self hrooted]
    exact List.mem_append_right _ hpart
  · rw [Path.collapse_eq_self hdots]
    exact hpart

/-- A NUL in the path of a temporary stops the staging before anything is made. -/
theorem stage_nul (h : ∃ part ∈ (nursery w o).parts, '\x00' ∈ part) :
    (Stage.stage o).run w = (.error .nulInPath, draw w) := by
  obtain ⟨part, hpart, hnul⟩ := h
  have hpath : '\x00' ∈ (Route.ofPath (nextTemporary w (nursery w o) o.path.name)).text :=
    Path.mem_toText_of_mem (List.mem_append_left _ hpart) hnul
  have hcreate : (draw w).create (Route.ofPath (nextTemporary w (nursery w o) o.path.name)) privateMode =
      .error .nulInPath := by
    simp [World.create, World.entry, World.admit_of_nul hpath, bind, Except.bind]
  have hattempts : maxAttempts = 238327 + 1 := rfl
  rw [Stage.stage, stageWithin_run, hattempts, createTemporary_run_succ, hcreate]

def Unstaged (w : World) (outputs : List Output) (nul : Prop) : Prop :=
  ∀ o ∈ outputs, ∃ r, ((Stage.stage o).run w).1 = .error r ∧ (r = .nulInPath ↔ nul)

/-- A batch that cannot be staged ends with its first output. -/
theorem Unstaged.ending {nul : Prop} [Decidable nul] (h : Unstaged w outputs nul) (hne : outputs ≠ []) :
    ((Stage.writeAll outputs).run w).1.ending = if nul then .abort (.refused .nulInPath) else .exit 1 := by
  obtain ⟨o, rest, rfl⟩ := List.exists_cons_of_ne_nil hne
  obtain ⟨r, hr, hnul⟩ := h o List.mem_cons_self
  rcases hstage : (Stage.stage o).run w with ⟨answer, w'⟩
  rw [hstage] at hr
  subst hr
  have hrun : ((Stage.writeAll (o :: rest)).run w).1 = stopped [] ⟨o.path, r⟩ := by
    simp only [Stage.writeAll, Stage.stageAll, Script.run_bind, hstage]
    rfl
  rw [hrun]
  cases r with
  | nulInPath =>
    rw [if_pos (hnul.mp rfl)]
    rfl
  | errno e =>
    have hother : ¬ nul := by
      intro hn
      cases hnul.mpr hn
    rw [if_neg hother]
    rfl

theorem Unstaged.exit_ne {nul : Prop} [Decidable nul] (h : Unstaged w outputs nul) (hne : outputs ≠ []) :
    ((Stage.writeAll outputs).run w).1.ending ≠ .exit 0 := by
  rw [h.ending hne]
  split <;> simp

/-! ## Worlds that are alike but for their sources of names -/

theorem Nest.congr {nest : Path} {T : Location} {trail : List Location} (h : Nest w nest T trail)
    (ht : w'.tree = w.tree) (hc : w'.cwd = w.cwd) : Nest w' nest T trail := by
  obtain ⟨hwalks, hdir⟩ := h
  exact ⟨by simpa only [World.start, ht, hc] using hwalks, by rw [ht]; exact hdir⟩

theorem Fits.congr (h : Fits w directory o) (hc : w'.cwd = w.cwd) : Fits w' directory o :=
  ⟨h.path, h.named, h.visible, h.clean, by rw [hc]; exact h.cleanTemporary⟩

theorem Plain.congr (h : Plain w directory) (ht : w'.tree = w.tree) (hc : w'.cwd = w.cwd) : Plain w' directory := by
  unfold Plain at h ⊢
  simpa only [World.start, ht, hc] using h

theorem spelled_congr (hc : w'.cwd = w.cwd) (directory : Path) : spelled w' directory = spelled w directory := by
  simp only [spelled, World.start, hc]

theorem InReach.congr {outputs' : List Output} (h : InReach w directory place outputs) (ht : w'.tree = w.tree)
    (hc : w'.cwd = w.cwd) (hsub : ∀ o ∈ outputs', o ∈ outputs) : InReach w' directory place outputs' where
  nest := by
    rw [hc]
    exact h.nest.congr ht hc
  reached := h.reached.congr ht hc
  fits := fun o ho => (h.fits o (hsub o ho)).congr hc

end Stage

theorem World.Rooted.congr {w w' : World} (h : w.Rooted) (ht : w'.tree = w.tree) (hc : w'.cwd = w.cwd) : w'.Rooted :=
  ⟨by rw [ht, hc]; exact h.directories, by rw [hc]; exact h.names, by rw [hc]; exact h.clean⟩

namespace Command

open Stage

variable {w : World} {s : Settings} {ds : List Descriptor} {target : Target}

/-- A plain directory is reached and its name has no NUL, or no output of a run can be staged there; a NUL
    is told from all other causes. -/
theorem reached_or_unstaged (hids : ∀ d ∈ ds, Text.isIdentifier d.base = true) (hw : w.Rooted)
    (hp : Plain w (Path.ofText s.directory)) (target : Target) :
    InReach w (Path.ofText s.directory) (spelled w (Path.ofText s.directory)) (outputs s target ds) ∨
      Unstaged w (outputs s target ds) (∃ part ∈ (Path.ofText s.directory).parts, '\x00' ∈ part) := by
  by_cases hnul : ∃ part ∈ (Path.ofText s.directory).parts, '\x00' ∈ part
  · refine Or.inr fun o ho => ⟨.nulInPath, congrArg Prod.fst (stage_nul ?_), by simp [hnul]⟩
    obtain ⟨part, hpart, hnul⟩ := hnul
    obtain ⟨d, hd, rfl⟩ := List.mem_map.mp ho
    refine ⟨part, ?_, hnul⟩
    rw [nursery, output, Path.output_eq _ _ (hids d hd), Path.parent_child]
    exact hp.mem_absolute hw hpart
  · have hfits := outputs_fit hw.clean (fun part hpart hm => hnul ⟨part, hpart, hm⟩) hids target
    by_cases hn : ∃ T trail, Nest w ((Path.ofText s.directory).absolute w.cwd) T trail
    · obtain ⟨T, trail, hn⟩ := hn
      obtain ⟨rfl, rfl, hreached⟩ := hp.nest hw hn
      exact Or.inl ⟨hn, hreached, hfits⟩
    · refine Or.inr fun o ho => ?_
      obtain ⟨e, w', hrun, -⟩ := stage_without_nest (hfits o ho) hn
      exact ⟨.errno e, congrArg Prod.fst hrun, by simp [hnul]⟩

/-- Two worlds that are alike tell the same. -/
theorem reached_or_unstaged_both {v : World} {ds' : List Descriptor} (hids : ∀ d ∈ ds, Text.isIdentifier d.base = true)
    (hw : w.Rooted) (hp : Plain w (Path.ofText s.directory)) (target : Target) (ht : v.tree = w.tree)
    (hc : v.cwd = w.cwd) (hmem : ∀ d, d ∈ ds' ↔ d ∈ ds) :
    InReach w (Path.ofText s.directory) (spelled w (Path.ofText s.directory)) (outputs s target ds) ∧
        InReach v (Path.ofText s.directory) (spelled w (Path.ofText s.directory)) (outputs s target ds') ∨
      Unstaged w (outputs s target ds) (∃ part ∈ (Path.ofText s.directory).parts, '\x00' ∈ part) ∧
        Unstaged v (outputs s target ds') (∃ part ∈ (Path.ofText s.directory).parts, '\x00' ∈ part) := by
  have hsub : ∀ o, o ∈ outputs s target ds' ↔ o ∈ outputs s target ds := fun o => by
    simp only [outputs, List.mem_map, hmem]
  by_cases hreach : InReach w (Path.ofText s.directory) (spelled w (Path.ofText s.directory)) (outputs s target ds)
  · exact Or.inl ⟨hreach, hreach.congr ht hc fun o => (hsub o).mp⟩
  · have hids' : ∀ d ∈ ds', Text.isIdentifier d.base = true := fun d hd => hids d ((hmem d).mp hd)
    have hv := reached_or_unstaged hids' (hw.congr ht hc) (hp.congr ht hc) target
    rw [spelled_congr hc] at hv
    refine Or.inr ⟨(reached_or_unstaged hids hw hp target).resolve_left hreach, hv.resolve_left fun h => hreach ?_⟩
    exact h.congr ht.symm hc.symm fun o => (hsub o).mpr

end Command

end NodeGen
