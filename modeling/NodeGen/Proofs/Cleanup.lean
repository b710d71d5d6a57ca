/-
  NodeGen.Proofs.Cleanup — what a run that writes leaves behind of its temporaries.

  A temporary is addressed by its path, and a path can lead elsewhere once an output has replaced a
  link that lies on it. `cleanup_iff`: a run lets no system error escape and leaves no temporary
  exactly if no output was generated that is a link on the way to the temporaries, the last output
  aside. `leftover_behind_link` is a tree where such a link lets a run break down and leave two
  temporaries.
-/

import NodeGen.File.Edit
import NodeGen.Proofs.Outputs

namespace NodeGen

namespace Stage

variable {w w₀ w' : World} {directory : Path} {T D : Location} {trail : List Location}
  {done pending parcels : List Parcel} {outputs : List Output} {o : Output} {outcome : Outcome}

/-- An output whose place holds a link that is followed on the way to a directory. -/
def OnWay (w : World) (way : Path) (o : Output) : Prop :=
  ∃ T trail D, Nest w way T trail ∧ w.Names o.path D o.path.name ∧ D ++ [o.path.name] ∈ trail

/-- No place with the name of a temporary was changed: none of the run's own is left, and none that
    was there before is gone. -/
def NoneLeft (w w' : World) : Prop :=
  ∀ l n, l.getLast? = some n → IsTemporary n → w'.tree.get? l = w.tree.get? l

theorem Nest.unique {nest : Path} {U : Location} {trail' : List Location} (h : Nest w nest T trail)
    (h' : Nest w nest U trail') : T = U ∧ trail = trail' := by
  obtain ⟨hls, hspot⟩ := h.walks.unique h'.walks
  cases hspot
  exact ⟨rfl, hls⟩

theorem Underway.noneLeft (hu : Underway w₀ T D done [] w) (hfits : ∀ q ∈ done, Fits w₀ directory q.output) :
    NoneLeft w₀ w := by
  intro l n hl hn
  obtain ⟨d, rfl⟩ := List.getLast?_eq_some_iff.mp hl
  rw [hu.tree, List.map_nil, List.nil_append, find_placed hn hfits, Option.none_or]

theorem Underway.left (hu : Underway w₀ T D done (p :: pending) w) (hc : Cargo w₀ directory T (p :: pending)) :
    ¬ NoneLeft w₀ w := by
  intro h
  have hready := hc.ready p List.mem_cons_self
  have hsame := h (T ++ [p.name]) p.name (by simp) hready.temporary
  rw [hready.vacant, hu.waiting] at hsame
  cases hsame

/-- On a clear way no output that was generated was a link. -/
theorem Clear.not_onWay (hclear : Clear trail D parcels) (hn : Nest w (directory.absolute w.cwd) T trail)
    (hg : Goal w directory D) (hfits : Fits w directory o) (hp : ∃ p ∈ parcels, p.output.path = o.path) :
    ¬ OnWay w (directory.absolute w.cwd) o := by
  rintro ⟨U, trail', E, hn', hnames, hmem⟩
  obtain ⟨p, hp, hpath⟩ := hp
  obtain ⟨-, rfl⟩ := hn.unique hn'
  obtain ⟨rfl, -⟩ := hg.names hfits hnames
  exact hclear p hp (hpath ▸ hmem)

theorem mem_generated {path : Path} {e : Errno} {bad : Path}
    (h : Report.generated path ∈ parcels.map (fun p => Report.generated p.output.path) ++ [.unwritable bad e]) :
    ∃ p ∈ parcels, p.output.path = path := by
  rcases List.mem_append.mp h with h | h
  · obtain ⟨p, hp, he⟩ := List.mem_map.mp h
    cases he
    exact ⟨p, hp, rfl⟩
  · cases List.mem_singleton.mp h

/-- No error of the system escapes from a run. -/
def Contained (outcome : Outcome) : Prop := ∀ e, outcome.ending ≠ .abort (.refused (.errno e))

theorem contained_exit {reports : List Report} {code : Nat} : Contained ⟨reports, .exit code⟩ := fun _ h => nomatch h

theorem Ended.noneLeft_iff (h : Ended w directory outputs outcome w')
    (hfits : ∀ o ∈ outputs, Fits w directory o) :
    (Contained outcome ∧ NoneLeft w w') ↔
      ∀ o ∈ outputs.dropLast, .generated o.path ∈ outcome.reports → ¬ OnWay w (directory.absolute w.cwd) o := by
  have hfits' : ∀ o ∈ outputs.dropLast, Fits w directory o := fun o ho => hfits o (List.dropLast_subset _ ho)
  cases h with
  | unstaged pre o post staged e w₁ w₂ _ hout hpre hfail hsame =>
    refine ⟨fun _ o ho hg => ?_, fun _ => ⟨contained_exit, fun l n _ _ => hsame l⟩⟩
    cases List.mem_singleton.mp hg
  | written T D trail parcels w₁ _ hplan hcommit hclear hu =>
    refine ⟨fun _ o ho hg => ?_, fun _ => ⟨contained_exit, hu.noneLeft fun q hq => (hplan.cargo.ready q hq).fits⟩⟩
    rw [← hplan.covers, ← List.map_dropLast] at ho
    obtain ⟨p, hp, rfl⟩ := List.mem_map.mp ho
    have hne : parcels ≠ [] := List.ne_nil_of_mem (List.dropLast_subset _ hp)
    exact (hclear hne).not_onWay hplan.nest hplan.goal (hplan.cargo.ready p (List.dropLast_subset _ hp)).fits
      ⟨p, hp, rfl⟩
  | refused T D trail pre p rest e w₁ w₂ w₃ _ hplan hpre hfail hclear hbefore hrename hu =>
    refine ⟨fun _ o ho hg => ?_, fun _ => ⟨contained_exit, hu.noneLeft (Cargo.fits_left hplan.cargo)⟩⟩
    exact hclear.not_onWay hplan.nest hplan.goal (hfits' o ho) (mem_generated hg)
  | cut T D trail pre p rest w₁ _ hplan hclear hu =>
    have hc : Cargo w directory T (p :: rest) := Cargo.right hplan.cargo
    refine ⟨fun hleft => absurd hleft.2 (hu.left hc), fun hway => ?_⟩
    refine absurd (fun q hq hmem => ?_) hclear
    have ho : q.output ∈ outputs.dropLast := by
      rw [← hplan.covers, ← List.map_dropLast, List.dropLast_append_of_ne_nil (List.cons_ne_nil _ _)]
      exact List.mem_map_of_mem (List.mem_append_left _ hq)
    exact hway q.output ho (List.mem_append_left _ (List.mem_map.mpr ⟨q, hq, rfl⟩))
      ⟨T, trail, D, hplan.nest, (hu.places q hq).1, hmem⟩

theorem Ended.exit_of_contained (h : Ended w directory outputs outcome w') (hc : Contained outcome) :
    ∃ code, outcome.ending = .exit code := by
  cases h with
  | unstaged => exact ⟨1, rfl⟩
  | written => exact ⟨0, rfl⟩
  | refused => exact ⟨1, rfl⟩
  | cut _ _ _ _ _ rest =>
    by_cases hrest : rest = []
    · exact ⟨1, if_pos hrest⟩
    · exact absurd (if_neg hrest) (hc .notDirectory)

end Stage

namespace Command

open Stage

variable {w : World} {arguments : List Text} {s : Settings} {ds : List Descriptor}

/-- A run that writes lets no system error escape, and leaves no temporary, exactly if none of the outputs
    generated, but for the last one, was a link on the way to the temporaries. With a target, it ends with an exit
    code then. -/
theorem cleanup_iff (h : Writing w arguments s ds) (hcwd : ∀ n ∈ w.cwd, '\x00' ∉ n) :
    ((Contained ((invoke arguments).run w).1 ∧ NoneLeft w ((invoke arguments).run w).2) ↔
      ∀ target, s.target = some target →
        ∀ o ∈ (outputs s target ds).dropLast, .generated o.path ∈ ((invoke arguments).run w).1.reports →
          ¬ OnWay w ((Path.ofText s.directory).absolute w.cwd) o) ∧
    (s.target ≠ none → Contained ((invoke arguments).run w).1 →
      ∃ code, ((invoke arguments).run w).1.ending = .exit code) := by
  cases ht : s.target with
  | none =>
    rw [h.invoke_noTarget ht]
    refine ⟨⟨fun _ target he => ?_, fun _ => ⟨fun e he => ?_, fun l n _ _ => rfl⟩⟩, fun hsome => absurd rfl hsome⟩
    · cases he
    · cases he
  | some target =>
    have hended := h.ended hcwd ht
    refine ⟨?_, fun _ => hended.exit_of_contained⟩
    rw [hended.noneLeft_iff (h.fits hcwd target)]
    refine ⟨fun hway target' he => ?_, fun hway => hway target rfl⟩
    cases he
    exact hway

theorem cleanup_new_file :
    Contained ((invoke [".".toList]).run (World.fresh [("w".toList, 0o755)] 0o022)).1 ∧
      NoneLeft (World.fresh [("w".toList, 0o755)] 0o022)
        ((invoke [".".toList]).run (World.fresh [("w".toList, 0o755)] 0o022)).2 :=
  (cleanup_iff ⟨by decide, rfl, rfl, Grammar.builtin, rfl, rfl⟩ (by decide)).1.mpr fun target ht o ho => by
    cases ht
    exact nomatch ho

/-- A current directory with a grammar of three tables, in which the first output's name is that of a
    link to the directory itself. -/
def behindLink : World where
  tree := ⟨[([], .directory 0o755), (["w".toList], .directory 0o755),
    (["w".toList, "A.java".toList], .link ['.']),
    (["w".toList, "g".toList],
      .file 0o644 (Text.Utf8.encode "\x7b\"A\":[\"V :\"],\"B\":[\"V :\"],\"C\":[\"V :\"]\x7d".toList))]⟩
  cwd := ["w".toList]
  umask := 0o022
  suffixes := Suffix.ofNat
  drawn := 0

/-- Written through the link, the first output replaces it, and no later temporary is reached again. -/
theorem leftover_behind_link :
    (∃ s ds, Writing behindLink ["A.java".toList, "--grammar".toList, "g".toList] s ds) ∧
      ((invoke ["A.java".toList, "--grammar".toList, "g".toList]).run behindLink).1.ending =
        .abort (.refused (.errno .notDirectory)) ∧
      ¬ NoneLeft behindLink ((invoke ["A.java".toList, "--grammar".toList, "g".toList]).run behindLink).2 := by
  refine ⟨⟨_, _, by decide, rfl, rfl, _, rfl, rfl⟩, by decide +kernel, fun h => ?_⟩
  have hleft := h ["w".toList, temporaryName "B.java".toList (Suffix.ofNat 1).text] _ rfl ⟨_, _, rfl⟩
  revert hleft
  decide +kernel

end Command

end NodeGen
