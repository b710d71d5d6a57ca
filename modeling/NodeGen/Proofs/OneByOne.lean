/-
  NodeGen.Proofs.OneByOne — a batch written at once, and its tables written one after the other.

  The command stages all outputs before it commits the first; a caller that asks for one table after the
  other has each output in its place before the next is staged. In a plain directory where no output is a
  link this makes no difference: what is foreseen of an output holds beside staged outputs and beside
  outputs in their places alike (`Batched.unaffected_done`). So the command succeeds exactly if every
  single call does, and both leave the same tree (`Command.invoke_iff_generateEach`).
-/

import Mathlib.Data.List.Basic
import NodeGen.Output.Generate
import NodeGen.Proofs.Foresight

namespace NodeGen

/-- The tables of a grammar, written by one call for each, in order. -/
def generateEach (directory : Path) (target package : Text) (g : Grammar) :
    Script (List (Except GenerateError Path)) :=
  g.mapM fun (base, lines) => generate directory base lines target package

theorem World.rename_drawn {w w' : World} {old new : Route} (h : w.rename old new = .ok w') :
    w'.drawn = w.drawn ∧ w'.suffixes = w.suffixes := by
  simp only [World.rename, bind, Except.bind] at h
  repeat' split at h
  all_goals cases h
  all_goals exact ⟨rfl, rfl⟩

namespace Stage

variable {w₀ w w' : World} {directory : Path} {place : Location} {done parcels : List Parcel} {p : Parcel} {o : Output}
  {all : List Output} {k' : Nat}

/-! ## One output after the other -/

theorem rename_of_commit {s : Staged} (h : (commit s).run w = (.ok (), w')) :
    w.rename (Route.ofPath s.temporary) (Route.ofPath s.path) = .ok w' := by
  simp only [commit, Script.run_bind, Script.run_ask, World.perform] at h
  cases hrename : w.rename (Route.ofPath s.temporary) (Route.ofPath s.path) with
  | ok w₁ =>
    rw [hrename] at h
    cases h
    rfl
  | error r =>
    rw [hrename] at h
    obtain ⟨r', hr'⟩ := failAfterDiscard_error (α := Unit) s.temporary r w
    cases (congrArg Prod.fst h).symm.trans hr'

/-- Outputs in their places leave the mode of another one alone. -/
theorem Batched.unaffected_done (hb : Batched w₀ directory place all) (hlink : Unlinked w₀ place all)
    (hall : o ∈ all) (hdone : ∀ q ∈ done, q.output.path.name ≠ o.path.name) (limit : Nat) :
    Unaffected w₀ place limit done [] o where
  fresh := by simp
  steady := by
    have hfits := hb.fits o hall
    refine steady_of_not_link hb.reached hfits.path hfits.visible (fun huse => ?_) (hlink o hall)
    rcases huse with ⟨draw, -, hn⟩ | hn | hn
    · have htemporary := isTemporary_drawnName w₀ o.path.name draw
      rw [← hn] at htemporary
      exact hfits.visible htemporary.head
    · cases hn
    · obtain ⟨q, hq, hn⟩ := List.mem_map.mp hn
      exact hdone q hq hn

/-- A staged output comes to its place, or a directory is there. -/
theorem Batched.commit_cases (hb : Batched w₀ directory place all) (h : Working w₀ directory place done [p] w)
    (hdone : ∀ q ∈ done, q.output.path.name ≠ p.output.path.name) :
    (w₀.tree.isDirectory (place ++ [p.output.path.name]) = false ∧
      ∃ w', (commit (p.staged (directory.absolute w₀.cwd))).run w = (.ok (), w') ∧ w'.drawn = w.drawn ∧
        Working w₀ directory place (done ++ [p]) [] w') ∨
    (w₀.tree.isDirectory (place ++ [p.output.path.name]) = true ∧
      ∃ e w', (commit (p.staged (directory.absolute w₀.cwd))).run w = (.error (.errno e), w')) := by
  rcases h.underway.commit_cases h.cargo h.fits hdone hb.goal hb.nest .straight with
    ⟨w', hrun, hu⟩ | ⟨e, w', hrun, hrename, -⟩
  · obtain ⟨hdrawn, hsuffixes⟩ := World.rename_drawn (rename_of_commit hrun)
    have hfits : ∀ q ∈ done ++ [p], Fits w₀ directory q.output := by
      intro q hq
      rcases List.mem_append.mp hq with hq | hq
      · exact h.fits q hq
      · exact List.mem_singleton.mp hq ▸ (h.cargo.ready p List.mem_cons_self).fits
    exact Or.inl ⟨(hu.places p (List.mem_append_right _ List.mem_cons_self)).2, w', hrun, hdrawn, hu,
      .nil w₀ directory place, hfits, hsuffixes.trans h.suffixes, by simp⟩
  · exact Or.inr ⟨hb.blocked h.underway h.cargo hrename, e, w', hrun⟩

/-- What was foreseen for an output comes about when it is written beside others in their places. -/
theorem Batched.write (hb : Batched w₀ directory place all) (hlink : Unlinked w₀ place all) (hall : p.output ∈ all)
    (h : Working w₀ directory place done [] w) (hdone : ∀ q ∈ done, q.output.path.name ≠ p.output.path.name)
    (hf : Foreseen w₀ directory place w.drawn p k')
    (hfree : w₀.tree.isDirectory (place ++ [p.output.path.name]) = false) :
    ∃ w', (Stage.write p.output).run w = (.ok (), w') ∧ w'.drawn = k' ∧
      Working w₀ directory place (done ++ [p]) [] w' := by
  obtain ⟨w₁, hstage, hdrawn, hworking⟩ :=
    h.stage hb.nest (hb.fits _ hall) (hb.unaffected_done hlink hall hdone _) hf
  rcases hb.commit_cases hworking hdone with ⟨-, w', hcommit, hsame, hworking'⟩ | ⟨hdir, -⟩
  · refine ⟨w', ?_, hsame.trans hdrawn, hworking'⟩
    simp only [Stage.write, Script.run_bind, hstage]
    exact hcommit
  · rw [hfree] at hdir
    cases hdir

/-- An output that is written beside others in their places was foreseen, and no directory was in its way. -/
theorem Batched.wrote (hb : Batched w₀ directory place all) (hlink : Unlinked w₀ place all) (hall : o ∈ all)
    (h : Working w₀ directory place done [] w) (hdone : ∀ q ∈ done, q.output.path.name ≠ o.path.name)
    (hrun : (Stage.write o).run w = (.ok (), w')) :
    ∃ p, p.output = o ∧ Foreseen w₀ directory place w.drawn p w'.drawn ∧
      w₀.tree.isDirectory (place ++ [o.path.name]) = false ∧ Working w₀ directory place (done ++ [p]) [] w' := by
  simp only [Stage.write, Script.run_bind] at hrun
  rcases hstage : (stage o).run w with ⟨r | path, w₁⟩
  · rw [hstage] at hrun
    cases hrun
  · rw [hstage] at hrun
    obtain ⟨p, rfl, hp, rfl, hworking⟩ :=
      h.staged hb.nest (hb.fits o hall) (hb.unaffected_done hlink hall hdone _) hstage
    have hcommit : (commit (p.staged (directory.absolute w₀.cwd))).run w₁ = (.ok (), w') := hrun
    rcases hb.commit_cases hworking hdone with ⟨hfree, w₂, hok, hsame, hworking'⟩ | ⟨-, e, w₂, herror⟩
    · cases hok.symm.trans hcommit
      exact ⟨p, rfl, hsame.symm ▸ hp, hfree, hworking'⟩
    · cases herror.symm.trans hcommit

/-! ## One table after the other -/

theorem generate_run {base : Text} {lines : List Text} {d : Descriptor} (target : Target) (package : Text)
    (hd : Descriptor.parse base lines = .ok d) :
    (generate directory base lines target.name package).run w =
      match (Stage.write (Command.output directory target package d)).run w with
      | (.ok (), w') => (.ok (Command.output directory target package d).path, w')
      | (.error r, w') => (.error (.refused r), w') := by
  have ho : Output.ofTable directory base lines target.name package =
      .ok (Command.output directory target package d) := by
    simp only [Output.ofTable, hd, Except.mapError, Target.ofName?_name]
    rfl
  simp only [generate, ho, Script.run_bind]
  rcases (Stage.write (Command.output directory target package d)).run w with ⟨r | ⟨⟩, w'⟩ <;> rfl

theorem generateEach_run_cons {base : Text} {lines : List Text} (target package : Text) (g : Grammar) :
    (generateEach directory target package ((base, lines) :: g)).run w =
      (((generate directory base lines target package).run w).1 ::
          ((generateEach directory target package g).run ((generate directory base lines target package).run w).2).1,
        ((generateEach directory target package g).run ((generate directory base lines target package).run w).2).2) := by
  simp only [generateEach, List.mapM_cons, Script.run_bind, Script.run_pure]

variable {target : Target} {package : Text} {g : Grammar} {ds : List Descriptor}

/-- What was foreseen for a batch comes about when its tables are written one by one. -/
theorem Batched.generateEach (hb : Batched w₀ directory place all) (hlink : Unlinked w₀ place all)
    (hds : Descriptor.parseGrammar g = .ok ds)
    (hcovers : parcels.map Parcel.output = ds.map (Command.output directory target package))
    (hall : done.map Parcel.output ++ parcels.map Parcel.output = all)
    (h : Working w₀ directory place done [] w) (hf : Foresight w₀ directory place w.drawn parcels)
    (hfree : ∀ p ∈ parcels, w₀.tree.isDirectory (place ++ [p.output.path.name]) = false) :
    ∃ w', (NodeGen.generateEach directory target.name package g).run w =
        (parcels.map (.ok ·.output.path), w') ∧ Working w₀ directory place (done ++ parcels) [] w' := by
  induction g generalizing ds done parcels w with
  | nil =>
    cases hds
    obtain rfl := List.map_eq_nil_iff.mp hcovers
    exact ⟨w, rfl, by rwa [List.append_nil]⟩
  | cons table g ih =>
    obtain ⟨base, lines⟩ := table
    obtain ⟨d, rest, rfl, hd, hrest⟩ := Descriptor.parseGrammar_cons hds
    cases hf with
    | nil => cases hcovers
    | @cons _ _ p parcels hp hf =>
      simp only [List.map_cons, List.cons.injEq] at hcovers
      have hmem : p.output ∈ all := hall ▸ List.mem_append_right _ List.mem_cons_self
      obtain ⟨w₁, hrun, rfl, hworking⟩ := hb.write hlink hmem h (hb.fresh hall) hp (hfree p List.mem_cons_self)
      obtain ⟨w', hmore, hworking'⟩ := ih hrest hcovers.2 (by simpa using hall) hworking hf fun q hq =>
        hfree q (List.mem_cons_of_mem _ hq)
      rw [List.append_assoc] at hworking'
      refine ⟨w', ?_, hworking'⟩
      rw [hcovers.1] at hrun
      rw [generateEach_run_cons, generate_run target package hd, hrun]
      simp only [hmore, List.map_cons, hcovers.1]

/-- Where no output can be staged, the call for the first table fails. -/
theorem generateEach_unstaged {nul : Prop} (hds : Descriptor.parseGrammar g = .ok ds)
    (hne : ds.map (Command.output directory target package) ≠ [])
    (h : Unstaged w (ds.map (Command.output directory target package)) nul) (paths : List Path) :
    ((NodeGen.generateEach directory target.name package g).run w).1 ≠ paths.map .ok := by
  intro hpaths
  cases g with
  | nil =>
    cases hds
    exact hne rfl
  | cons table g =>
    obtain ⟨base, lines⟩ := table
    obtain ⟨d, rest, rfl, hd, -⟩ := Descriptor.parseGrammar_cons hds
    obtain ⟨r, hr, -⟩ := h _ (List.mem_map_of_mem List.mem_cons_self)
    rcases hstage : (stage (Command.output directory target package d)).run w with ⟨answer, w₁⟩
    rw [hstage] at hr
    subst hr
    have hwrite : (Stage.write (Command.output directory target package d)).run w = (.error r, w₁) := by
      simp only [Stage.write, Script.run_bind, hstage]
      rfl
    rw [generateEach_run_cons, generate_run target package hd, hwrite] at hpaths
    cases paths <;> cases hpaths

/-- A batch whose tables are written one by one was foreseen, and no directory was in its way. -/
theorem Batched.foresight_each {paths : List Path} (hb : Batched w₀ directory place all) (hlink : Unlinked w₀ place all)
    (hds : Descriptor.parseGrammar g = .ok ds)
    (hall : done.map Parcel.output ++ ds.map (Command.output directory target package) = all)
    (h : Working w₀ directory place done [] w)
    (hpaths : ((NodeGen.generateEach directory target.name package g).run w).1 = paths.map .ok) :
    (∃ parcels, parcels.map Parcel.output = ds.map (Command.output directory target package) ∧
        Foresight w₀ directory place w.drawn parcels) ∧
      ∀ d ∈ ds, w₀.tree.isDirectory (place ++ [(Command.output directory target package d).path.name]) = false := by
  induction g generalizing ds done w paths with
  | nil =>
    cases hds
    exact ⟨⟨[], rfl, .nil _⟩, by simp⟩
  | cons table g ih =>
    obtain ⟨base, lines⟩ := table
    obtain ⟨d, rest, rfl, hd, hrest⟩ := Descriptor.parseGrammar_cons hds
    have hmem : Command.output directory target package d ∈ all := hall ▸ List.mem_append_right _ List.mem_cons_self
    rw [generateEach_run_cons, generate_run target package hd] at hpaths
    rcases hrun : (Stage.write (Command.output directory target package d)).run w with ⟨r | ⟨⟩, w₁⟩
    · rw [hrun] at hpaths
      cases paths <;> cases hpaths
    · rw [hrun] at hpaths
      cases paths with
      | nil => cases hpaths
      | cons path paths =>
        obtain ⟨p, hp, hforeseen, hfree, hworking⟩ := hb.wrote hlink hmem h (hb.fresh hall) hrun
        have hmore : ((NodeGen.generateEach directory target.name package g).run w₁).1 = paths.map .ok :=
          (List.cons.inj hpaths).2
        obtain ⟨⟨parcels, hcovers, hf⟩, hfrees⟩ := ih hrest (by simpa [hp] using hall) hworking hmore
        exact ⟨⟨p :: parcels, by rw [List.map_cons, List.map_cons, hp, hcovers], .cons hforeseen hf⟩,
          List.forall_mem_cons.mpr ⟨hfree, hfrees⟩⟩

end Stage

namespace Command

open Stage

variable {w v : World} {arguments : List Text} {s : Settings} {g : Grammar} {ds : List Descriptor} {target : Target}

/-- A world that is like another but for the source of random suffixes. The sources may differ too if both
    supply vacant names at all times. -/
structure Counterpart (w : World) (place : Location) (outputs : List Output) (v : World) : Prop where
  tree : v.tree = w.tree
  cwd : v.cwd = w.cwd
  umask : v.umask = w.umask
  source : (v.suffixes = w.suffixes ∧ v.drawn = w.drawn) ∨ (Supplied w place outputs ∧ Supplied v place outputs)

theorem Counterpart.foresight_iff {directory : Path} {place : Location} {outputs : List Output}
    (h : Counterpart w place outputs v) :
    (∃ parcels, parcels.map Parcel.output = outputs ∧ Foresight v directory place v.drawn parcels) ↔
      ∃ parcels, parcels.map Parcel.output = outputs ∧ Foresight w directory place w.drawn parcels := by
  rcases h.source with ⟨hsuffixes, hdrawn⟩ | ⟨hsupplied, hsupplied'⟩
  · obtain rfl : v = w := by
      obtain ⟨tree, cwd, umask, -⟩ := h
      cases v
      simp_all
    exact Iff.rfl
  · rw [hsupplied.foresight_iff, hsupplied'.foresight_iff]
    exact forall₂_congr fun o _ => ⟨fun ho => ho.congr h.tree.symm h.cwd.symm h.umask.symm,
      fun ho => ho.congr h.tree h.cwd h.umask⟩

/-- Calls for the tables that all succeed were foreseen in the other world too. -/
theorem Counterpart.foresight_each {place : Location} {paths : List Path}
    (hv : Counterpart w place (outputs s target ds) v)
    (hb : Batched v (Path.ofText s.directory) place (outputs s target ds))
    (hlink : Unlinked v place (outputs s target ds)) (hds : Descriptor.parseGrammar g = .ok ds)
    (hpaths : ((generateEach (Path.ofText s.directory) target.name s.package g).run v).1 = paths.map .ok) :
    (∃ parcels, parcels.map Parcel.output = outputs s target ds ∧
        Foresight w (Path.ofText s.directory) place w.drawn parcels) ∧
      ∀ o ∈ outputs s target ds, w.tree.isDirectory (place ++ [o.path.name]) = false := by
  obtain ⟨hforesight, hfree⟩ := hb.foresight_each hlink hds rfl (.start v _ place) hpaths
  refine ⟨hv.foresight_iff.mp hforesight, fun o ho => ?_⟩
  obtain ⟨d, hd, rfl⟩ := List.mem_map.mp ho
  rw [← hv.tree]
  exact hfree d hd

/-- Both ways to write what was foreseen lead to the same tree. -/
theorem Counterpart.written_each {place : Location} (hv : Counterpart w place (outputs s target ds) v)
    (hb : Batched w (Path.ofText s.directory) place (outputs s target ds))
    (hb' : Batched v (Path.ofText s.directory) place (outputs s target ds))
    (hlink : Unlinked v place (outputs s target ds)) (hds : Descriptor.parseGrammar g = .ok ds)
    (hne : outputs s target ds ≠ [])
    (hforesight : ∃ parcels, parcels.map Parcel.output = outputs s target ds ∧
      Foresight w (Path.ofText s.directory) place w.drawn parcels)
    (hfree : ∀ o ∈ outputs s target ds, w.tree.isDirectory (place ++ [o.path.name]) = false) :
    ∃ w' v', (writeAll (outputs s target ds)).run w =
        (⟨((outputs s target ds).map Output.path).map .generated, .exit 0⟩, w') ∧
      (generateEach (Path.ofText s.directory) target.name s.package g).run v =
        (((outputs s target ds).map Output.path).map .ok, v') ∧ ∀ l, w'.tree.get? l = v'.tree.get? l := by
  obtain ⟨w', hrun, hwritten⟩ := hb.written hne ((hb.writeAll_iff hne).mpr ⟨hforesight, hfree⟩)
  obtain ⟨parcels, hcovers, hf⟩ := hv.foresight_iff.mpr hforesight
  have hin : ∀ p ∈ parcels, p.output ∈ outputs s target ds := fun p hp => hcovers ▸ List.mem_map_of_mem hp
  have hall : ([] : List Parcel).map Parcel.output ++ parcels.map Parcel.output = outputs s target ds := hcovers
  obtain ⟨v', hrun', hworking⟩ := hb'.generateEach hlink hds hcovers hall (.start v _ place) hf
    fun p hp => by rw [hv.tree]; exact hfree _ (hin p hp)
  have hwritten' := hf.written hworking.underway (by rw [hcovers]; exact hb'.distinct)
  rw [hcovers] at hwritten'
  refine ⟨w', v', ?_, ?_, fun l => (hwritten.same hwritten' hv.tree hv.cwd hv.umask (fun _ => Iff.rfl) l).symm⟩
  · rw [hrun, List.map_map]
    rfl
  · rw [hrun', ← hcovers, List.map_map, List.map_map]
    rfl

/-- In a plain directory where no output is a link, a run of the command succeeds exactly if the calls for
    its tables, one after the other, all do, from a world that is alike. Then it reports the paths that they
    give, and the trees that both leave are the same. -/
theorem invoke_iff_generateEach (h : Tasked w arguments s g ds) (ht : s.target = some target) (hw : w.Rooted)
    (hp : Plain w (Path.ofText s.directory))
    (hlink : Unlinked w (spelled w (Path.ofText s.directory)) (outputs s target ds))
    (hv : Counterpart w (spelled w (Path.ofText s.directory)) (outputs s target ds) v) :
    (((invoke arguments).run w).1.ending = .exit 0 ↔ ∃ paths : List Path,
      ((generateEach (Path.ofText s.directory) target.name s.package g).run v).1 = paths.map .ok) ∧
    ∀ paths : List Path, ((generateEach (Path.ofText s.directory) target.name s.package g).run v).1 = paths.map .ok →
      ((invoke arguments).run w).1 = ⟨paths.map .generated, .exit 0⟩ ∧
      ∀ l, ((invoke arguments).run w).2.tree.get? l =
        ((generateEach (Path.ofText s.directory) target.name s.package g).run v).2.tree.get? l := by
  have hlink' : Unlinked v (spelled w (Path.ofText s.directory)) (outputs s target ds) := by
    unfold Unlinked
    rw [hv.tree]
    exact hlink
  have hids := (Descriptor.parseGrammar_bases h.tables).2
  have hne := outputs_ne_nil (s := s) (grammarOf_bases h.grammar).1 h.tables target
  rw [h.invoke_eq ht]
  rcases reached_or_unstaged_both hids hw hp target hv.tree hv.cwd (fun d => Iff.rfl) with
    ⟨hreach, hreach'⟩ | ⟨hunstaged, hunstaged'⟩
  · have hdistinct : ((outputs s target ds).map (·.path.name)).Nodup :=
      outputs_distinct (grammarOf_bases h.grammar).2 h.tables target
    have hb : Batched w (Path.ofText s.directory) (spelled w (Path.ofText s.directory)) (outputs s target ds) :=
      ⟨hreach, hdistinct, hlink.steady hreach⟩
    have hb' : Batched v (Path.ofText s.directory) (spelled w (Path.ofText s.directory)) (outputs s target ds) :=
      ⟨hreach', hdistinct, hlink'.steady hreach'⟩
    constructor
    · rw [hb.writeAll_iff hne]
      constructor
      · rintro ⟨hforesight, hfree⟩
        obtain ⟨w', v', -, hrun, -⟩ := hv.written_each hb hb' hlink' h.tables hne hforesight hfree
        exact ⟨(outputs s target ds).map Output.path, by rw [hrun]⟩
      · rintro ⟨paths, hpaths⟩
        exact hv.foresight_each hb' hlink' h.tables hpaths
    · intro paths hpaths
      obtain ⟨hforesight, hfree⟩ := hv.foresight_each hb' hlink' h.tables hpaths
      obtain ⟨w', v', hrun, hrun', hsame⟩ := hv.written_each hb hb' hlink' h.tables hne hforesight hfree
      rw [hrun'] at hpaths
      obtain rfl : (outputs s target ds).map Output.path = paths :=
        List.map_injective_iff.mpr (fun _ _ => Except.ok.inj) hpaths
      rw [hrun, hrun']
      exact ⟨rfl, hsame⟩
  · -- not one output can be staged, in neither world
    have hfails := generateEach_unstaged h.tables hne hunstaged'
    refine ⟨⟨fun hexit => absurd hexit (hunstaged.exit_ne hne), fun ⟨paths, hpaths⟩ => absurd hpaths (hfails paths)⟩,
      fun paths hpaths => absurd hpaths (hfails paths)⟩

def secondWritten (suffixes : Nat → Suffix) : World where
  tree := ⟨[([], .directory 0o755), (["w".toList], .directory 0o755),
    (["w".toList, "B.java".toList], .file 0o600 []),
    (["w".toList, "g".toList],
      .file 0o644 (Text.Utf8.encode "\x7b\"A\":[\"V :\"],\"B\":[\"V :\"]\x7d".toList))]⟩
  cwd := ["w".toList]
  umask := 0o022
  suffixes := suffixes
  drawn := 0

theorem invoke_iff_generateEach_two :
    ((invoke [".".toList, "--grammar".toList, "g".toList]).run (secondWritten Suffix.ofNat)).1 =
        ⟨[['A'], ['B']].map fun base => .generated ((Path.ofText ['.']).output .java base), .exit 0⟩ ∧
      ∀ l, ((invoke [".".toList, "--grammar".toList, "g".toList]).run (secondWritten Suffix.ofNat)).2.tree.get? l =
        ((generateEach (Path.ofText ['.']) Target.java.name "lox".toList
          [(['A'], ["V :".toList]), (['B'], ["V :".toList])]).run
            (secondWritten fun draw => Suffix.ofNat (draw + 1))).2.tree.get? l := by
  have hrooted : (secondWritten Suffix.ofNat).Rooted :=
    rooted_of_single rfl (by decide) (by decide) ⟨by decide, by decide, by decide⟩ (by decide)
  have htasked : Tasked (secondWritten Suffix.ofNat) [".".toList, "--grammar".toList, "g".toList]
      ⟨['.'], ['g'], some .java, "lox".toList, false⟩ [(['A'], ["V :".toList]), (['B'], ["V :".toList])]
      [⟨['A'], [⟨['V'], []⟩]⟩, ⟨['B'], [⟨['V'], []⟩]⟩] := ⟨rfl, rfl, rfl, rfl⟩
  have hlink : Unlinked (secondWritten Suffix.ofNat) ["w".toList]
      (outputs ⟨['.'], ['g'], some .java, "lox".toList, false⟩ .java [⟨['A'], [⟨['V'], []⟩]⟩, ⟨['B'], [⟨['V'], []⟩]⟩]) := by
    intro o ho target hg
    simpa [secondWritten] using Tree.mem_of_find hg
  have hcounterpart : Counterpart (secondWritten Suffix.ofNat) ["w".toList]
      (outputs ⟨['.'], ['g'], some .java, "lox".toList, false⟩ .java
        [⟨['A'], [⟨['V'], []⟩]⟩, ⟨['B'], [⟨['V'], []⟩]⟩]) (secondWritten fun draw => Suffix.ofNat (draw + 1)) :=
    ⟨rfl, rfl, rfl, .inr ⟨supplied_of_visible (by decide +kernel) _ _, supplied_of_visible (by decide +kernel) _ _⟩⟩
  have hcalls : ((generateEach (Path.ofText ['.']) Target.java.name "lox".toList
      [(['A'], ["V :".toList]), (['B'], ["V :".toList])]).run (secondWritten fun draw => Suffix.ofNat (draw + 1))).1 =
        ([['A'], ['B']].map fun base => (Path.ofText ['.']).output .java base).map .ok := by decide +kernel
  exact (invoke_iff_generateEach htasked rfl hrooted (plain_here _) hlink hcounterpart).2 _ hcalls

end Command

end NodeGen
