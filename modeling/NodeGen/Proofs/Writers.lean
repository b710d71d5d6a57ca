/-
  NodeGen.Proofs.Writers — any number of writers at work in one tree, in any order.

  A `Session` is a sequence of steps: a text is staged or cannot be; a staged text is committed, or
  cannot be, or is dropped. Several texts may be meant for one path, and between the staging of a text
  and its commit any other step may come. `session_standing` is what holds after every step:

  - each staged text that is still waiting stands in full under its own temporary name, and no other
    temporary was added;
  - each destination holds the text that was committed to it last, with the mode that was found when
    that text was staged, or what stood there first;
  - a step that fails leaves nothing behind but the removal of its own temporary.

  The parents of the paths are plain directories. No step replaces a directory, and no link is on the
  way to one, so every temporary stays within reach (`Standing.names`).
-/

import NodeGen.Proofs.Effect
import NodeGen.Proofs.OneFile

namespace NodeGen

namespace Tree

variable {front back : List (Location × Node)} {e : Location × Node}

/-- A node that is listed counts as the first if no node before it has its place. -/
theorem find_middle (h : e.1 ∉ front.map Prod.fst) (x : Location) :
    find x (front ++ e :: back) = find x (e :: (front ++ back)) := by
  rw [find_append]
  by_cases hx : e.1 = x
  · have hfront : find x front = none := by
      rw [find_eq_none]
      intro a ha hax
      exact h (hx ▸ hax ▸ List.mem_map_of_mem ha)
    simp [find, hx, hfront]
  · simp [find, hx, find_append]

end Tree

namespace Stage

variable {w w₀ w' : World} {o : Output} {p : Path} {D : Location} {n : Text} {mode : Nat}

/-! ## Sessions -/

structure Settled (w : World) (p : Path) : Prop where
  plain : Plain w p.parent
  name : ¬ IsTemporary p.name

structure Draft where
  output : Output
  temporary : Path
  mode : Nat
  before : World

namespace Draft

def shelter (w : World) (d : Draft) : Location := spelled w d.output.path.parent ++ [d.temporary.name]

def destination (w : World) (d : Draft) : Location := spelled w d.output.path.parent ++ [d.output.path.name]

def node (d : Draft) : Node := fileOf d.output d.mode

def waiting (w : World) (d : Draft) : Location × Node := (d.shelter w, d.node)

def committed (w : World) (d : Draft) : Location × Node := (d.destination w, d.node)

end Draft

/-- What writers may do, from a world on: the drafts that wait, those that were committed, the last
    one first, and the world. -/
inductive Session (w₀ : World) : List Draft → List Draft → World → Prop
  | start : Session w₀ [] [] w₀
  | stage {waiting committed : List Draft} {w w' : World} {o : Output} {p : Path} {mode : Nat} :
      Session w₀ waiting committed w → Settled w₀ o.path → (Stage.stage o).run w = (.ok p, w') →
      w'.stat (Route.ofPath p) = .ok mode → Session w₀ (⟨o, p, mode, w⟩ :: waiting) committed w'
  | unstaged {waiting committed : List Draft} {w w' : World} {o : Output} {r : Refusal} :
      Session w₀ waiting committed w → Settled w₀ o.path → (Stage.stage o).run w = (.error r, w') →
      Session w₀ waiting committed w'
  | commit {front back committed : List Draft} {d : Draft} {w w' : World} :
      Session w₀ (front ++ d :: back) committed w →
      (Stage.commit ⟨d.temporary, d.output.path⟩).run w = (.ok (), w') →
      Session w₀ (front ++ back) (d :: committed) w'
  | uncommitted {front back committed : List Draft} {d : Draft} {w w' : World} {r : Refusal} :
      Session w₀ (front ++ d :: back) committed w →
      (Stage.commit ⟨d.temporary, d.output.path⟩).run w = (.error r, w') →
      Session w₀ (front ++ back) committed w'
  | drop {front back committed : List Draft} {d : Draft} {w w' : World} {answer : Except Refusal Unit} :
      Session w₀ (front ++ d :: back) committed w → (discard d.temporary).run w = (answer, w') →
      Session w₀ (front ++ back) committed w'

/-! ## The invariant -/

structure Draft.Sound (w₀ : World) (d : Draft) : Prop where
  settled : Settled w₀ d.output.path
  clean : '\x00' ∉ (Route.ofPath d.output.path).text
  named : ∃ s : Suffix, d.temporary.name = temporaryName d.output.path.name s.text
  names : w₀.Names d.temporary (spelled w₀ d.output.path.parent) d.temporary.name
  nest : Nest w₀ (d.output.path.parent.absolute w₀.cwd) (spelled w₀ d.output.path.parent) []
  path : d.temporary = (d.output.path.parent.absolute w₀.cwd).child d.temporary.name
  vacant : w₀.tree.get? (d.shelter w₀) = none
  mode : WrittenMode d.before d.output d.mode

structure Draft.Landed (w₀ : World) (d : Draft) : Prop where
  names : w₀.Names d.output.path (spelled w₀ d.output.path.parent) d.output.path.name
  isDirectory : w₀.tree.isDirectory (d.destination w₀) = false
  name : ¬ IsTemporary d.output.path.name
  mode : WrittenMode d.before d.output d.mode

/-- The state after some steps: the tree is the one from the start with the waiting drafts in their
    shelters and the committed ones at their destinations, the last one of each counting. -/
structure Standing (w₀ : World) (waiting committed : List Draft) (w : World) : Prop where
  cwd : w.cwd = w₀.cwd
  umask : w.umask = w₀.umask
  tree : w₀.tree.Over (waiting.map (Draft.waiting w₀) ++ committed.map (Draft.committed w₀)) w.tree
  sound : ∀ d ∈ waiting, d.Sound w₀
  distinct : (waiting.map (Draft.shelter w₀)).Nodup
  landed : ∀ d ∈ committed, d.Landed w₀

variable {waiting committed front back : List Draft} {d : Draft}

theorem Draft.Sound.isTemporary (h : d.Sound w₀) : IsTemporary d.temporary.name := by
  obtain ⟨s, hs⟩ := h.named
  exact ⟨_, s, hs⟩

theorem shelter_ne_destination {e : Draft} (hd : IsTemporary d.temporary.name) (he : ¬ IsTemporary e.output.path.name) :
    e.destination w₀ ≠ d.shelter w₀ := by
  intro h
  have hlast : e.output.path.name = d.temporary.name := by
    simpa [Draft.destination, Draft.shelter] using congrArg List.getLast? h
  exact he (hlast ▸ hd)

/-- Every change so far is a file in a place that was no directory. -/
theorem Standing.filed (h : Standing w₀ waiting committed w) : Tree.Filed w₀.tree w.tree := by
  intro x
  rw [h.tree x]
  cases hx : Tree.find x (waiting.map (Draft.waiting w₀) ++ committed.map (Draft.committed w₀)) with
  | none => exact Or.inl rfl
  | some node =>
    right
    rcases List.mem_append.mp (Tree.mem_of_find hx) with hm | hm
    · obtain ⟨d, hd, he⟩ := List.mem_map.mp hm
      cases he
      exact ⟨Tree.not_isDirectory_of_none (h.sound d hd).vacant, _, _, rfl⟩
    · obtain ⟨d, hd, he⟩ := List.mem_map.mp hm
      cases he
      exact ⟨(h.landed d hd).isDirectory, _, _, rfl⟩

theorem Standing.start_eq (h : Standing w₀ waiting committed w) (r : Route) : w.start r = w₀.start r := by
  simp only [World.start, h.cwd]

/-- A name that leads to an entry now led to the same entry from the start. -/
theorem Standing.names_before (h : Standing w₀ waiting committed w) {D : Location} (hn : w.Names p D n) :
    w₀.Names p D n :=
  ⟨hn.admitted, Tree.walkDirectory_of_filed h.filed (h.start_eq _ ▸ hn.reached), hn.last, hn.walkable⟩

/-- The temporary of a draft is within reach. -/
theorem Standing.names (h : Standing w₀ waiting committed w) (hd : d.Sound w₀) :
    w.Names d.temporary (spelled w₀ d.output.path.parent) d.temporary.name := by
  refine ⟨hd.names.admitted, ?_, hd.names.last, hd.names.walkable⟩
  rw [h.start_eq, hd.path, Path.dropLast_child]
  exact Tree.walkDirectory_filed h.filed hd.nest.walks hd.nest.isDirectory (by simp)

theorem map_waiting (w : World) (drafts : List Draft) :
    (drafts.map (Draft.waiting w)).map Prod.fst = drafts.map (Draft.shelter w) := by
  rw [List.map_map]
  rfl

theorem Standing.waits (h : Standing w₀ waiting committed w) (hd : d ∈ waiting) :
    w.tree.get? (d.shelter w₀) = some d.node := by
  have hfind : Tree.find (d.shelter w₀) (waiting.map (Draft.waiting w₀)) = some d.node :=
    Tree.find_of_mem (by rw [map_waiting]; exact h.distinct) (List.mem_map_of_mem hd)
  rw [h.tree, Tree.find_append, hfind, Option.some_or, Option.some_or]

theorem find_committed {l : Location} (hl : ∀ d ∈ committed, d.destination w₀ ≠ l) :
    Tree.find l (committed.map (Draft.committed w₀)) = none := by
  rw [Tree.find_eq_none]
  intro e he
  obtain ⟨d, hd, rfl⟩ := List.mem_map.mp he
  exact hl d hd

theorem Standing.start (w : World) : Standing w [] [] w :=
  ⟨rfl, rfl, fun x => by simp [Tree.find], by simp, List.nodup_nil, by simp⟩

/-! ## Staging -/

/-- The temporary that was laid ready has the mode that was found for it. -/
theorem Laid.stat_eq (h : Laid w o p D n mode w') : w'.stat (Route.ofPath p) = .ok mode :=
  h.within_reach.stat_eq h.get?_eq (by simp [fileOf])

theorem Standing.lay (h : Standing w₀ waiting committed w) (hw : w₀.Rooted) (hs : Settled w₀ o.path)
    (hl : Laid w o p D n mode w') : Standing w₀ (⟨o, p, mode, w⟩ :: waiting) committed w' := by
  have hnursery : nursery w o = o.path.parent.absolute w₀.cwd := by rw [nursery, h.cwd]
  have hpath := hl.path
  rw [hnursery] at hpath
  have hname : p.name = n := by rw [hpath, Path.name_child]
  have hbefore := h.names_before hl.names
  obtain ⟨⟨trail, hwalks⟩, hd⟩ := Tree.walkDirectory_eq_ok_iff.mp hbefore.reached
  rw [hpath, Path.dropLast_child] at hwalks
  have hnest : Nest w₀ (o.path.parent.absolute w₀.cwd) D trail := ⟨hwalks, hd⟩
  obtain ⟨rfl, rfl, -⟩ := hs.plain.nest hw hnest
  subst hname
  have hplace := h.tree (spelled w₀ o.path.parent ++ [p.name])
  rw [hl.vacant] at hplace
  obtain ⟨hfind, hvacant⟩ := Option.or_eq_none_iff.mp hplace.symm
  rw [Tree.find_append] at hfind
  have hfree := (Option.or_eq_none_iff.mp hfind).1
  refine ⟨hl.cwd.trans h.cwd, hl.umask.trans h.umask, ?_, ?_, ?_, h.landed⟩
  · rw [hl.tree]
    exact h.tree.insert _ _
  · intro d hd
    rcases List.mem_cons.mp hd with rfl | hd
    · exact ⟨hs, hl.clean.1, hl.name, hbefore, hnest, hpath, hvacant, hl.writtenMode⟩
    · exact h.sound d hd
  · rw [List.map_cons, List.nodup_cons, ← map_waiting w₀ waiting]
    refine ⟨fun hm => ?_, by rw [map_waiting]; exact h.distinct⟩
    obtain ⟨e, he, heq⟩ := List.mem_map.mp hm
    exact Tree.find_eq_none.mp hfree e he heq

theorem Standing.staged (h : Standing w₀ waiting committed w) (hw : w₀.Rooted) (hs : Settled w₀ o.path)
    (hrun : (stage o).run w = (.ok p, w')) (hmode : w'.stat (Route.ofPath p) = .ok mode) :
    Standing w₀ (⟨o, p, mode, w⟩ :: waiting) committed w' := by
  rcases stageWithin_cases maxAttempts w o with ⟨r, w₁, hfail, -⟩ | ⟨p₁, D, n, mode₁, w₁, hok, hl⟩
  · cases hfail.symm.trans hrun
  · cases hok.symm.trans hrun
    obtain rfl := Except.ok.inj (hl.stat_eq.symm.trans hmode)
    exact h.lay hw hs hl

/-- A staging that fails leaves the tree as it was. -/
theorem tree_of_unstaged {r : Refusal} (hrun : (stage o).run w = (.error r, w')) : w'.tree = w.tree := by
  rcases stageWithin_cases maxAttempts w o with ⟨r₁, w₁, hfail, ht, -⟩ | ⟨p₁, D, n, mode₁, w₁, hok, -⟩
  · cases hfail.symm.trans hrun
    exact ht
  · cases hok.symm.trans hrun

theorem Standing.unstaged {r : Refusal} (h : Standing w₀ waiting committed w)
    (hrun : (stage o).run w = (.error r, w')) : Standing w₀ waiting committed w' := by
  have hcwd := Script.run_cwd (stage o) w
  rw [hrun] at hcwd
  exact ⟨hcwd.1.trans h.cwd, hcwd.2.trans h.umask, tree_of_unstaged hrun ▸ h.tree, h.sound, h.distinct, h.landed⟩

/-! ## Drafts that leave -/

theorem Standing.leaving (h : Standing w₀ (front ++ d :: back) committed w) :
    d.shelter w₀ ∉ (front ++ back).map (Draft.shelter w₀) ∧
      ((front ++ back).map (Draft.shelter w₀)).Nodup := by
  have hd := h.distinct
  rw [List.map_append, List.map_cons] at hd
  rw [List.map_append]
  exact List.nodup_cons.mp (List.perm_middle.nodup_iff.mp hd)

theorem Standing.sound_leaving (h : Standing w₀ (front ++ d :: back) committed w) : d.Sound w₀ :=
  h.sound d (List.mem_append_right _ List.mem_cons_self)

theorem mem_of_mem_leaving {e : Draft} (h : e ∈ front ++ back) : e ∈ front ++ d :: back := by
  rcases List.mem_append.mp h with h | h
  · exact List.mem_append_left _ h
  · exact List.mem_append_right _ (List.mem_cons_of_mem _ h)

/-- The session without the temporary of a draft. -/
theorem Standing.erase (h : Standing w₀ (front ++ d :: back) committed w) :
    Standing w₀ (front ++ back) committed (w.withTree (w.tree.erase (d.shelter w₀))) := by
  obtain ⟨hnot, hdistinct⟩ := h.leaving
  have hsound := h.sound_leaving
  refine ⟨h.cwd, h.umask, ?_, fun e he => h.sound e (mem_of_mem_leaving he), hdistinct, h.landed⟩
  have htree := h.tree
  rw [List.map_append, List.map_cons, List.append_assoc, List.cons_append] at htree
  have hfront : (d.waiting w₀).1 ∉ (front.map (Draft.waiting w₀)).map Prod.fst := by
    rw [map_waiting]
    exact fun hm => hnot (List.map_append ▸ List.mem_append_left _ hm)
  have hfirst := htree.congr fun x => (Tree.find_middle hfront x).symm
  rw [← List.append_assoc, ← List.map_append] at hfirst
  refine hfirst.erase hsound.vacant ?_
  have hwaiting : Tree.find (d.shelter w₀) ((front ++ back).map (Draft.waiting w₀)) = none := by
    rw [Tree.find_eq_none]
    intro e he heq
    refine hnot ?_
    rw [← map_waiting, ← heq]
    exact List.mem_map_of_mem he
  have hcommitted : Tree.find (d.shelter w₀) (committed.map (Draft.committed w₀)) = none :=
    find_committed fun e he => shelter_ne_destination hsound.isTemporary (h.landed e he).name
  rw [Tree.find_append, hwaiting, hcommitted, Option.none_or]

/-- The removal of a temporary that waits. -/
theorem Standing.discard_run (h : Standing w₀ waiting committed w) (hd : d ∈ waiting) :
    (discard d.temporary).run w = (.ok (), w.withTree (w.tree.erase (d.shelter w₀))) :=
  Stage.discard_run (h.names (h.sound d hd)) (h.waits hd)

/-! ## Commits -/

/-- The entry that a path of a settled output names. -/
theorem Standing.destination_eq (h : Standing w₀ waiting committed w) (hd : d.Sound w₀)
    (hn : w.Names d.output.path D n) :
    D = spelled w₀ d.output.path.parent ∧ n = d.output.path.name ∧ w₀.Names d.output.path D n := by
  have hbefore := h.names_before hn
  have hname : d.output.path.name = n := by rw [Path.name, hbefore.last, Option.getD_some]
  obtain ⟨⟨trail, hwalks⟩, -⟩ := Tree.walkDirectory_eq_ok_iff.mp hbefore.reached
  exact ⟨(hwalks.straight hd.settled.plain).2, hname.symm, hbefore⟩

theorem Standing.commit_error {r : Refusal} (h : Standing w₀ waiting committed w) (hd : d ∈ waiting)
    (hrun : (commit ⟨d.temporary, d.output.path⟩).run w = (.error r, w')) :
    w' = w.withTree (w.tree.erase (d.shelter w₀)) := by
  simp only [commit, Script.run_bind, Script.run_ask, World.perform] at hrun
  cases hrename : w.rename (Route.ofPath d.temporary) (Route.ofPath d.output.path) with
  | ok w₁ => rw [hrename] at hrun; cases hrun
  | error r₁ =>
    rw [hrename] at hrun
    have hleft := failAfterDiscard_run (α := Unit) (h.names (h.sound d hd)) (h.waits hd) r₁
    exact congrArg Prod.snd (hrun.symm.trans hleft)

theorem Standing.commit_ok (h : Standing w₀ (front ++ d :: back) committed w)
    (hrun : (commit ⟨d.temporary, d.output.path⟩).run w = (.ok (), w')) :
    Standing w₀ (front ++ back) (d :: committed) w' := by
  have hsound := h.sound_leaving
  have hmem : d ∈ front ++ d :: back := List.mem_append_right _ List.mem_cons_self
  simp only [commit, Script.run_bind, Script.run_ask, World.perform] at hrun
  cases hrename : w.rename (Route.ofPath d.temporary) (Route.ofPath d.output.path) with
  | error r =>
    rw [hrename] at hrun
    have hleft := failAfterDiscard_run (α := Unit) (h.names hsound) (h.waits hmem) r
    cases hrun.symm.trans hleft
  | ok w₁ =>
    rw [hrename] at hrun
    cases hrun
    obtain ⟨e, m, hnames, hdir, hw'⟩ := World.exists_of_rename (h.names hsound) (h.waits hmem) hsound.clean hrename
    obtain ⟨rfl, rfl, hbefore⟩ := h.destination_eq hsound hnames
    obtain rfl := hw' (shelter_ne_destination hsound.isTemporary hsound.settled.name)
    have herased := h.erase
    refine ⟨h.cwd, h.umask, ?_, herased.sound, herased.distinct, fun q hq => ?_⟩
    · have hfront : (d.committed w₀).1 ∉ ((front ++ back).map (Draft.waiting w₀)).map Prod.fst := by
        rw [map_waiting]
        intro hm
        obtain ⟨q, hq, heq⟩ := List.mem_map.mp hm
        have htemporary := (herased.sound q hq).isTemporary
        exact shelter_ne_destination htemporary hsound.settled.name heq.symm
      refine (herased.tree.insert (d.destination w₀) d.node).congr fun x => ?_
      rw [List.map_cons]
      exact Tree.find_middle hfront x
    · rcases List.mem_cons.mp hq with rfl | hq
      · refine ⟨hbefore, ?_, hsound.settled.name, hsound.mode⟩
        cases hb : w₀.tree.isDirectory (q.destination w₀) with
        | false => rfl
        | true =>
          rw [show spelled w₀ q.output.path.parent ++ [q.output.path.name] = q.destination w₀ from rfl,
            Tree.isDirectory_congr (h.filed.directories hb), hb] at hdir
          cases hdir
      · exact h.landed q hq

/-- What holds after every step. -/
theorem Session.standing (h : Session w₀ waiting committed w) (hw : w₀.Rooted) : Standing w₀ waiting committed w := by
  induction h with
  | start => exact .start w₀
  | stage _ hs hrun hmode ih => exact ih.staged hw hs hrun hmode
  | unstaged _ _ hrun ih => exact ih.unstaged hrun
  | commit _ hrun ih => exact ih.commit_ok hrun
  | uncommitted _ hrun ih =>
    obtain rfl := ih.commit_error (List.mem_append_right _ List.mem_cons_self) hrun
    exact ih.erase
  | drop _ hrun ih =>
    obtain rfl := congrArg Prod.snd ((ih.discard_run (List.mem_append_right _ List.mem_cons_self)).symm.trans hrun)
    exact ih.erase

/-! ## Every session -/

/-- What a session leaves at every moment, and what its next step may do. -/
structure Interleaved (w₀ : World) (waiting committed : List Draft) (w : World) : Prop where
  /-- Each waiting draft is in full under a name of its own, where nothing was. -/
  temporaries : ∀ d ∈ waiting, (∃ s : Suffix, d.temporary.name = temporaryName d.output.path.name s.text) ∧
    w₀.tree.get? (d.shelter w₀) = none ∧ w.tree.get? (d.shelter w₀) = some (fileOf d.output d.mode)
  distinct : (waiting.map (Draft.shelter w₀)).Nodup
  noOthers : ∀ l n, l.getLast? = some n → IsTemporary n → (∀ d ∈ waiting, l ≠ d.shelter w₀) →
    w.tree.get? l = w₀.tree.get? l
  /-- Everywhere else stands what was committed there last, or what stood there first. -/
  rest : ∀ l, (∀ d ∈ waiting, l ≠ d.shelter w₀) →
    w.tree.get? l = ((committed.find? (·.destination w₀ = l)).map fun d => fileOf d.output d.mode).or (w₀.tree.get? l)
  destinations : ∀ d ∈ committed, w₀.Names d.output.path (spelled w₀ d.output.path.parent) d.output.path.name
  /-- A mode is the one that was right when its text was staged. -/
  modes : ∀ d, d ∈ waiting ∨ d ∈ committed → WrittenMode d.before d.output d.mode
  staged : ∀ o p w', Settled w₀ o.path → (stage o).run w = (.ok p, w') →
    ∃ mode, Session w₀ (⟨o, p, mode, w⟩ :: waiting) committed w'
  unstaged : ∀ o r w', (stage o).run w = (.error r, w') → w'.tree = w.tree
  uncommitted : ∀ d ∈ waiting, ∀ r w', (commit ⟨d.temporary, d.output.path⟩).run w = (.error r, w') →
    w'.tree = w.tree.erase (d.shelter w₀)
  dropped : ∀ d ∈ waiting, ∃ w', (discard d.temporary).run w = (.ok (), w') ∧
    w'.tree = w.tree.erase (d.shelter w₀)

theorem find_map_committed (w : World) (drafts : List Draft) (l : Location) :
    Tree.find l (drafts.map (Draft.committed w)) = (drafts.find? (·.destination w = l)).map Draft.node := by
  induction drafts with
  | nil => rfl
  | cons d drafts ih =>
    by_cases h : d.destination w = l
    · simp [Tree.find, Draft.committed, h]
    · simp [Tree.find, Draft.committed, h, ih]

theorem Standing.rest (h : Standing w₀ waiting committed w) {l : Location} (hl : ∀ d ∈ waiting, l ≠ d.shelter w₀) :
    w.tree.get? l = ((committed.find? (·.destination w₀ = l)).map Draft.node).or (w₀.tree.get? l) := by
  have hfind : Tree.find l (waiting.map (Draft.waiting w₀)) = none := by
    rw [Tree.find_eq_none]
    intro e he heq
    obtain ⟨d, hd, rfl⟩ := List.mem_map.mp he
    exact hl d hd heq.symm
  rw [h.tree, Tree.find_append, hfind, Option.none_or, find_map_committed]

/-- After every step of any number of writers, in any order: the temporaries are those of the texts that
    wait, each destination holds what was committed to it last, and nothing else has changed. -/
theorem session_interleaved (hw : w₀.Rooted) (h : Session w₀ waiting committed w) :
    Interleaved w₀ waiting committed w := by
  have hstanding := h.standing hw
  refine ⟨fun d hd => ?_, hstanding.distinct, fun l n hn htemporary hl => ?_, fun l hl => hstanding.rest hl,
    fun d hd => (hstanding.landed d hd).names, fun d hd => ?_, fun o p w' hs hrun => ?_,
    fun o r w' hrun => tree_of_unstaged hrun, fun d hd r w' hrun => ?_, fun d hd => ?_⟩
  · have hsound := hstanding.sound d hd
    exact ⟨hsound.named, hsound.vacant, hstanding.waits hd⟩
  · have hfind : Tree.find l (committed.map (Draft.committed w₀)) = none := by
      refine find_committed fun d hd hdl => (hstanding.landed d hd).name ?_
      obtain rfl : d.output.path.name = n := by simpa [Draft.destination, ← hdl] using hn
      exact htemporary
    rw [hstanding.rest hl, ← find_map_committed, hfind, Option.none_or]
  · rcases hd with hd | hd
    · exact (hstanding.sound d hd).mode
    · exact (hstanding.landed d hd).mode
  · rcases stageWithin_cases maxAttempts w o with ⟨r, w₁, hfail, -⟩ | ⟨p₁, D, n, mode, w₁, hok, hl⟩
    · cases hfail.symm.trans hrun
    · cases hok.symm.trans hrun
      exact ⟨mode, .stage h hs hrun hl.stat_eq⟩
  · rw [hstanding.commit_error hd hrun]
    rfl
  · exact ⟨_, hstanding.discard_run hd, rfl⟩

/-! ## Two writers with one path -/

def firstText : Output := ⟨Path.ofText "A".toList, "1".toList⟩

def secondText : Output := ⟨Path.ofText "A".toList, "2".toList⟩

def firstStaged : World := ((stage firstText).run (World.fresh [("w".toList, 0o755)] 0o022)).2

def bothStaged : World := ((stage secondText).run firstStaged).2

def firstDraft : Draft :=
  ⟨firstText, ⟨.root, ["w".toList, ".A.aaaaaaaa.tmp".toList]⟩, 0o644, World.fresh [("w".toList, 0o755)] 0o022⟩

def secondDraft : Draft :=
  ⟨secondText, ⟨.root, ["w".toList, ".A.baaaaaaa.tmp".toList]⟩, 0o644, firstStaged⟩

theorem session_interleaved_two :
    Interleaved (World.fresh [("w".toList, 0o755)] 0o022) [secondDraft] [firstDraft]
      ((commit ⟨firstDraft.temporary, firstText.path⟩).run bothStaged).2 := by
  have hname : ¬ IsTemporary ("A".toList : Text) := fun h => absurd h.head (by decide)
  have hfirst : Session (World.fresh [("w".toList, 0o755)] 0o022) [firstDraft] [] firstStaged :=
    .stage .start ⟨Command.plain_fresh, hname⟩ rfl rfl
  have hboth : Session (World.fresh [("w".toList, 0o755)] 0o022) [secondDraft, firstDraft] [] bothStaged :=
    .stage hfirst ⟨Command.plain_fresh, hname⟩ rfl rfl
  exact session_interleaved Command.rooted_fresh (@Session.commit _ [secondDraft] [] [] firstDraft _ _ hboth rfl)

end Stage

end NodeGen
