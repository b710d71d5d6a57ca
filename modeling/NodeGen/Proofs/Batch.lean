/-
  NodeGen.Proofs.Batch — a batch of outputs on its way to one directory.

  All temporaries of a batch lie in one directory `T`, all destinations in one directory `D`; the two
  may differ, as the path of the first has its `..` parts taken back by name. `Underway` is the
  invariant of the work: the tree is the one from the start with the temporaries of the pending
  parcels in `T` and the replaced outputs in `D`, and with nothing else changed.

  - `stageAll_cases`: staging keeps the invariant, output by output.
  - `Underway.discardAll`: as long as no replaced output was a link on the way to `T` (`Clear`), all
    pending temporaries can be removed; else none is reached any more (`Underway.discardAll_cut`).
-/

import NodeGen.Proofs.Paths
import NodeGen.Proofs.Staging

namespace NodeGen

namespace Tree

variable {t u : Tree} {files : List (Location × Node)} {l x : Location} {node : Node}

theorem find_append (x : Location) (a b : List (Location × Node)) :
    find x (a ++ b) = (find x a).or (find x b) := by
  induction a with
  | nil => rfl
  | cons e a ih => by_cases h : e.1 = x <;> simp [find, h, ih]

theorem find_eq_none : find x files = none ↔ ∀ e ∈ files, e.1 ≠ x := by
  induction files with
  | nil => simp [find]
  | cons e files ih => by_cases h : e.1 = x <;> simp [find, h, ih]

theorem mem_of_find (h : find x files = some node) : (x, node) ∈ files := by
  induction files with
  | nil => cases h
  | cons e files ih =>
    by_cases he : e.1 = x
    · simp only [find, if_pos he, Option.some.injEq] at h
      subst h
      subst he
      exact List.mem_cons_self
    · simp only [find, if_neg he] at h
      exact List.mem_cons_of_mem _ (ih h)

theorem find_of_mem (hd : (files.map Prod.fst).Nodup) (h : (x, node) ∈ files) : find x files = some node := by
  induction files with
  | nil => cases h
  | cons e files ih =>
    obtain ⟨hnot, hd⟩ := List.nodup_cons.mp hd
    rcases List.mem_cons.mp h with rfl | h
    · simp [find]
    · have he : e.1 ≠ x := fun he => hnot (he ▸ List.mem_map_of_mem h)
      rw [find, if_neg he]
      exact ih hd h

/-- `u` is `t` with the listed nodes in their places. -/
def Over (t : Tree) (files : List (Location × Node)) (u : Tree) : Prop :=
  ∀ x, u.get? x = (find x files).or (t.get? x)

theorem Over.insert (h : Over t files u) (l : Location) (node : Node) :
    Over t ((l, node) :: files) (u.insert l node) := by
  intro x
  rw [get?_insert]
  by_cases hx : x = l
  · simp [find, hx]
  · simp [find, hx, Ne.symm hx, h x]

theorem Over.erase (h : Over t ((l, node) :: files) u) (hv : t.get? l = none) (hf : find l files = none) :
    Over t files (u.erase l) := by
  intro x
  rw [get?_erase]
  by_cases hx : x = l
  · simp [hx, hf, hv]
  · simp [hx, h x, find, Ne.symm hx]

/-- Where nodes are listed does not matter if no other node has their place. -/
theorem Over.congr {files' : List (Location × Node)} (h : Over t files u)
    (hf : ∀ x, find x files' = find x files) : Over t files' u := fun x => by rw [h x, hf x]

end Tree

namespace Stage

open Text (Bytes)

/-! ## Outputs and parcels -/

structure Fits (w : World) (directory : Path) (o : Output) : Prop where
  path : o.path = directory.child o.path.name
  named : o.path.name ≠ []
  visible : o.path.name.head? ≠ some '.'
  clean : '\x00' ∉ (Route.ofPath o.path).text
  cleanTemporary : ∀ s : Suffix, '\x00' ∉
    (Route.ofPath ((directory.absolute w.cwd).child (temporaryName o.path.name s.text))).text

structure Parcel where
  output : Output
  name : Text
  mode : Nat

namespace Parcel

def node (p : Parcel) : Node := fileOf p.output p.mode

def staged (nest : Path) (p : Parcel) : Staged := ⟨nest.child p.name, p.output.path⟩

def waiting (T : Location) (p : Parcel) : Location × Node := (T ++ [p.name], p.node)

def shelter (T : Location) (p : Parcel) : Location × Nat := (T ++ [p.name], p.mode)

def placed (D : Location) (p : Parcel) : Location × Node := (D ++ [p.output.path.name], p.node)

end Parcel

/-- The directory of the temporaries, reached from the start along some links. -/
structure Nest (w : World) (nest : Path) (T : Location) (trail : List Location) : Prop where
  walks : w.tree.Walks maxLinks (w.start (Route.ofPath nest)) nest.parts trail (.node T)
  isDirectory : w.tree.isDirectory T = true

structure Parcel.Ready (w : World) (directory : Path) (T : Location) (p : Parcel) : Prop where
  fits : Fits w directory p.output
  named : ∃ s : Suffix, p.name = temporaryName p.output.path.name s.text
  names : w.Names ((directory.absolute w.cwd).child p.name) T p.name
  vacant : w.tree.get? (T ++ [p.name]) = none
  mode : ∃ beside, ModeOf w beside p.output.path p.mode
  bits : p.mode &&& 0o7777 = p.mode

theorem Parcel.Ready.temporary {w : World} {directory : Path} {T : Location} {p : Parcel}
    (h : p.Ready w directory T) : IsTemporary p.name := ⟨_, h.named⟩

structure Cargo (w : World) (directory : Path) (T : Location) (parcels : List Parcel) : Prop where
  ready : ∀ p ∈ parcels, p.Ready w directory T
  distinct : (parcels.map Parcel.name).Nodup

/-- The modes of a batch. Each was found beside the temporaries of the parcels before, and beside the parcel's own,
    which is private then. -/
def Modes (w : World) (T : Location) (parcels : List Parcel) : Prop :=
  ∀ pre p post, parcels = pre ++ p :: post →
    ModeOf w (pre.map (Parcel.shelter T) ++ [(T ++ [p.name], unmasked privateMode w.umask)]) p.output.path p.mode

/-- The work at some moment: which parcels are in their places, and which still wait. -/
structure Underway (w₀ : World) (T D : Location) (done pending : List Parcel) (w : World) : Prop where
  cwd : w.cwd = w₀.cwd
  umask : w.umask = w₀.umask
  tree : w₀.tree.Over (pending.map (Parcel.waiting T) ++ done.map (Parcel.placed D)) w.tree
  places : ∀ p ∈ done, w₀.Names p.output.path D p.output.path.name ∧
    w₀.tree.isDirectory (D ++ [p.output.path.name]) = false

/-- No replaced output was a link on the way to the temporaries. -/
def Clear (trail : List Location) (D : Location) (done : List Parcel) : Prop :=
  ∀ p ∈ done, D ++ [p.output.path.name] ∉ trail

variable {w₀ w : World} {directory : Path} {T D : Location} {trail : List Location}
  {done pending rest : List Parcel} {p q : Parcel}

/-- Along a straight way there is no link to be replaced. -/
theorem Clear.straight : Clear [] D done := fun _ _ => List.not_mem_nil

theorem IsTemporary.head {n : Text} (h : IsTemporary n) : n.head? = some '.' := by
  obtain ⟨name, suffix, rfl⟩ := h
  rfl

/-- No output has the place of a temporary. -/
theorem waiting_ne_placed {n name : Text} (hn : IsTemporary n) (hname : name.head? ≠ some '.') :
    D ++ [name] ≠ T ++ [n] := by
  intro h
  obtain rfl : name = n := by simpa using congrArg List.getLast? h
  exact hname hn.head

theorem find_waiting (hc : Cargo w₀ directory T (p :: rest)) :
    Tree.find (T ++ [p.name]) (rest.map (Parcel.waiting T)) = none := by
  rw [Tree.find_eq_none]
  intro e he h
  obtain ⟨q, hq, rfl⟩ := List.mem_map.mp he
  obtain heq : q.name = p.name := by simpa [Parcel.waiting] using h
  have hd : p.name ∉ rest.map Parcel.name := (List.nodup_cons.mp hc.distinct).1
  exact hd (heq ▸ List.mem_map_of_mem hq)

theorem find_placed {n : Text} (hn : IsTemporary n) (hfits : ∀ q ∈ done, Fits w₀ directory q.output) :
    Tree.find (T ++ [n]) (done.map (Parcel.placed D)) = none := by
  rw [Tree.find_eq_none]
  intro e he
  obtain ⟨q, hq, rfl⟩ := List.mem_map.mp he
  exact waiting_ne_placed hn (hfits q hq).visible

/-! ## Moments of the work -/

theorem Cargo.right (hc : Cargo w₀ directory T (done ++ pending)) : Cargo w₀ directory T pending :=
  ⟨fun q hq => hc.ready q (List.mem_append_right _ hq),
    (List.nodup_append.mp (List.map_append ▸ hc.distinct)).2.1⟩

theorem Cargo.fits_left (hc : Cargo w₀ directory T (done ++ pending)) : ∀ q ∈ done, Fits w₀ directory q.output :=
  fun q hq => (hc.ready q (List.mem_append_left _ hq)).fits

theorem Cargo.tail (hc : Cargo w₀ directory T (p :: rest)) : Cargo w₀ directory T rest :=
  ⟨fun q hq => hc.ready q (List.mem_cons_of_mem _ hq), (List.nodup_cons.mp hc.distinct).2⟩

/-- Every change so far is a file in a place that was no directory. -/
theorem Underway.filed (hu : Underway w₀ T D done pending w) (hc : Cargo w₀ directory T pending) :
    Tree.Filed w₀.tree w.tree := by
  intro x
  rw [hu.tree x]
  cases hx : Tree.find x (pending.map (Parcel.waiting T) ++ done.map (Parcel.placed D)) with
  | none => exact Or.inl rfl
  | some node =>
    right
    rcases List.mem_append.mp (Tree.mem_of_find hx) with h | h
    · obtain ⟨p, hp, he⟩ := List.mem_map.mp h
      cases he
      exact ⟨Tree.not_isDirectory_of_none (hc.ready p hp).vacant, _, _, rfl⟩
    · obtain ⟨p, hp, he⟩ := List.mem_map.mp h
      cases he
      exact ⟨(hu.places p hp).2, _, _, rfl⟩

theorem Underway.start_eq (hu : Underway w₀ T D done pending w) (r : Route) : w.start r = w₀.start r := by
  simp only [World.start, hu.cwd]

/-- A name that leads to an entry now led to the same entry before the work. -/
theorem Underway.names_before (hu : Underway w₀ T D done pending w) (hc : Cargo w₀ directory T pending)
    {path : Path} {d : Location} {n : Text} (h : w.Names path d n) : w₀.Names path d n :=
  ⟨h.admitted, Tree.walkDirectory_of_filed (hu.filed hc) (hu.start_eq _ ▸ h.reached), h.last, h.walkable⟩

/-- A directory is still reached as long as the way to it is clear. -/
theorem Underway.reached {way : Path} {d : Location} (hu : Underway w₀ T D done pending w)
    (hc : Cargo w₀ directory T pending) (hn : Nest w₀ way d trail) (hclear : Clear trail D done) :
    w.tree.walkDirectory (w.start (Route.ofPath way)) way.parts = .ok d := by
  rw [hu.start_eq]
  refine Tree.walkDirectory_filed (hu.filed hc) hn.walks hn.isDirectory fun x hx => ?_
  obtain ⟨target, hlink⟩ := hn.walks.mem_link x hx
  have hfind : Tree.find x (pending.map (Parcel.waiting T) ++ done.map (Parcel.placed D)) = none := by
    rw [Tree.find_eq_none]
    intro e he h
    rcases List.mem_append.mp he with he | he
    · obtain ⟨p, hp, rfl⟩ := List.mem_map.mp he
      have hv := (hc.ready p hp).vacant
      rw [show T ++ [p.name] = x from h, hlink] at hv
      cases hv
    · obtain ⟨p, hp, rfl⟩ := List.mem_map.mp he
      obtain rfl : D ++ [p.output.path.name] = x := h
      exact hclear p hp hx
  rw [hu.tree x, hfind, Option.none_or]

theorem exists_of_not_clear (h : ¬ Clear trail D done) : ∃ q ∈ done, D ++ [q.output.path.name] ∈ trail := by
  obtain ⟨q, h⟩ := Classical.not_forall.mp h
  obtain ⟨hq, h⟩ := Classical.not_imp.mp h
  exact ⟨q, hq, Classical.not_not.mp h⟩

/-- It is out of reach once a link on the way was replaced. -/
theorem Underway.cut {way : Path} {d : Location} (hu : Underway w₀ T D done pending w)
    (hc : Cargo w₀ directory T pending) (hn : Nest w₀ way d trail) (hclear : ¬ Clear trail D done) :
    w.tree.walkDirectory (w.start (Route.ofPath way)) way.parts = .error .notDirectory := by
  rw [hu.start_eq]
  refine Tree.walkDirectory_cut (hu.filed hc) hn.walks hn.isDirectory ?_
  obtain ⟨p, hp, hmem⟩ := exists_of_not_clear hclear
  obtain ⟨target, hlink⟩ := hn.walks.mem_link _ hmem
  refine ⟨_, hmem, fun h => ?_⟩
  rw [hlink, hu.tree] at h
  -- what stands there now is a file, the link is gone
  cases hf : Tree.find (D ++ [p.output.path.name]) (pending.map (Parcel.waiting T) ++ done.map (Parcel.placed D)) with
  | none => exact Tree.find_eq_none.mp hf _ (List.mem_append_right _ (List.mem_map_of_mem hp)) rfl
  | some node =>
    rw [hf, Option.some_or, Option.some.injEq] at h
    have hfile : ∃ q : Parcel, q.node = node := by
      rcases List.mem_append.mp (Tree.mem_of_find hf) with hm | hm
      · obtain ⟨q, -, he⟩ := List.mem_map.mp hm
        exact ⟨q, congrArg Prod.snd he⟩
      · obtain ⟨q, -, he⟩ := List.mem_map.mp hm
        exact ⟨q, congrArg Prod.snd he⟩
    obtain ⟨q, rfl⟩ := hfile
    cases h

theorem Underway.waiting (hu : Underway w₀ T D done (p :: rest) w) :
    w.tree.get? (T ++ [p.name]) = some (.file p.mode (Text.Utf8.encode p.output.text)) := by
  rw [hu.tree]
  simp [Parcel.waiting, Tree.find, Parcel.node, fileOf]

theorem Underway.names (hu : Underway w₀ T D done pending w) (hc : Cargo w₀ directory T pending)
    (hn : Nest w₀ (directory.absolute w₀.cwd) T trail) (hclear : Clear trail D done) (hp : p ∈ pending) :
    w.Names ((directory.absolute w₀.cwd).child p.name) T p.name := by
  have h := (hc.ready p hp).names
  refine ⟨h.admitted, ?_, h.last, h.walkable⟩
  rw [Path.dropLast_child]
  exact hu.reached hc hn hclear

/-! ## Removing temporaries -/

/-- The world without the first temporary. -/
theorem Underway.erase (hu : Underway w₀ T D done (p :: rest) w) (hc : Cargo w₀ directory T (p :: rest))
    (hfits : ∀ q ∈ done, Fits w₀ directory q.output) :
    Underway w₀ T D done rest (w.withTree (w.tree.erase (T ++ [p.name]))) where
  cwd := hu.cwd
  umask := hu.umask
  tree := by
    have hready := hc.ready p List.mem_cons_self
    refine Tree.Over.erase hu.tree hready.vacant ?_
    rw [Tree.find_append, find_waiting hc, find_placed hready.temporary hfits, Option.none_or]
  places := hu.places

theorem Underway.discard (hu : Underway w₀ T D done (p :: rest) w) (hc : Cargo w₀ directory T (p :: rest))
    (hn : Nest w₀ (directory.absolute w₀.cwd) T trail) (hclear : Clear trail D done) :
    (Stage.discard ((directory.absolute w₀.cwd).child p.name)).run w =
      (.ok (), w.withTree (w.tree.erase (T ++ [p.name]))) :=
  discard_run (hu.names hc hn hclear List.mem_cons_self) hu.waiting

theorem Underway.discard_cut (hu : Underway w₀ T D done pending w) (hc : Cargo w₀ directory T pending)
    (hn : Nest w₀ (directory.absolute w₀.cwd) T trail) (hclear : ¬ Clear trail D done) (hp : p ∈ pending) :
    (Stage.discard ((directory.absolute w₀.cwd).child p.name)).run w = (.error (.errno .notDirectory), w) := by
  refine discard_run_refused (hc.ready p hp).names.admitted ?_ (by decide)
  rw [Path.dropLast_child]
  exact hu.cut hc hn hclear

/-- All pending temporaries are removed. -/
theorem Underway.discardAll (hu : Underway w₀ T D done pending w) (hc : Cargo w₀ directory T pending)
    (hfits : ∀ q ∈ done, Fits w₀ directory q.output) (hn : Nest w₀ (directory.absolute w₀.cwd) T trail)
    (hclear : Clear trail D done) :
    ∃ w', (Stage.discardAll (pending.map (Parcel.staged (directory.absolute w₀.cwd)))).run w = (.ok (), w') ∧
      Underway w₀ T D done [] w' := by
  induction pending generalizing w with
  | nil => exact ⟨w, rfl, hu⟩
  | cons p rest ih =>
    obtain ⟨w', hrun, hu'⟩ := ih (hu.erase hc hfits) hc.tail
    refine ⟨w', ?_, hu'⟩
    simp only [List.map_cons, Stage.discardAll, Script.run_bind, Parcel.staged, hu.discard hc hn hclear]
    exact hrun

/-- No temporary is removed when the first one is out of reach. -/
theorem Underway.discardAll_cut (hu : Underway w₀ T D done pending w) (hc : Cargo w₀ directory T pending)
    (hn : Nest w₀ (directory.absolute w₀.cwd) T trail) (hclear : ¬ Clear trail D done) (hp : p ∈ pending) :
    (Stage.discardAll ((p :: rest).map (Parcel.staged (directory.absolute w₀.cwd)))).run w =
      (.error (.errno .notDirectory), w) := by
  simp only [List.map_cons, Stage.discardAll, Script.run_bind, Parcel.staged,
    hu.discard_cut hc hn hclear hp]
  rfl

/-! ## Staging -/

/-- Before anything is replaced, the only changes are temporaries in vacant places. -/
theorem Underway.added (hu : Underway w₀ T D [] pending w) (x : Location) :
    w.tree.get? x = w₀.tree.get? x ∨ ∃ p ∈ pending, x = T ++ [p.name] ∧ w.tree.get? x = some p.node := by
  rw [hu.tree x, List.map_nil, List.append_nil]
  cases hx : Tree.find x (pending.map (Parcel.waiting T)) with
  | none => exact Or.inl rfl
  | some node =>
    obtain ⟨p, hp, he⟩ := List.mem_map.mp (Tree.mem_of_find hx)
    cases he
    exact Or.inr ⟨p, hp, rfl, rfl⟩

/-- Every parcel that waits stands under its temporary name. -/
theorem Underway.waits (hu : Underway w₀ T D [] pending w) (hc : Cargo w₀ directory T pending) (hp : p ∈ pending) :
    w.tree.get? (T ++ [p.name]) = some p.node := by
  have hkeys : ((pending.map (Parcel.waiting T)).map Prod.fst).Nodup := by
    rw [List.map_map, show (Prod.fst ∘ Parcel.waiting T) = (T ++ [·]) ∘ Parcel.name from rfl, ← List.map_map]
    exact List.Pairwise.map _ (fun a b hab e => hab (by simpa using e)) hc.distinct
  rw [hu.tree, List.map_nil, List.append_nil, Tree.find_of_mem hkeys (List.mem_map_of_mem hp), Option.some_or]

theorem nest_reached {nest : Path} (hn : Nest w₀ nest T trail) :
    w₀.tree.walkDirectory (w₀.start (Route.ofPath nest)) nest.parts = .ok T :=
  Tree.walkDirectory_eq_ok_iff.mpr ⟨⟨_, hn.walks⟩, hn.isDirectory⟩

theorem Modes.nil (w : World) (T : Location) : Modes w T [] := fun pre p post h => absurd h (by simp)

theorem Modes.left (h : Modes w₀ T (done ++ pending)) : Modes w₀ T done := fun pre p post hsplit =>
  h pre p (post ++ pending) (by rw [hsplit, List.append_assoc, List.cons_append])

theorem Modes.snoc (h : Modes w₀ T pending) (hp : ModeOf w₀ (pending.map (Parcel.shelter T) ++
    [(T ++ [p.name], unmasked privateMode w₀.umask)]) p.output.path p.mode) : Modes w₀ T (pending ++ [p]) := by
  intro pre q post hsplit
  rcases List.eq_nil_or_concat post with rfl | ⟨post, r, rfl⟩
  · obtain ⟨rfl, hlast⟩ := List.append_inj' hsplit rfl
    obtain rfl := List.singleton_inj.mp hlast
    exact hp
  · rw [List.concat_eq_append, ← List.cons_append, ← List.append_assoc] at hsplit
    exact h pre q post (List.append_inj' hsplit rfl).1

/-- While outputs are staged, the tree is the first one with the temporaries that wait. -/
theorem Underway.joined (hu : Underway w₀ T D [] pending w) (hc : Cargo w₀ directory T pending) :
    Joined w₀.tree (pending.map (Parcel.shelter T)) w.tree where
  adds := by
    intro x
    rcases hu.added x with h | ⟨p, hp, rfl, h⟩
    · exact Or.inl h
    · exact Or.inr ⟨(hc.ready p hp).vacant, _, _, h⟩
  added := by
    intro x m content hv hx
    rcases hu.added x with h | ⟨p, hp, rfl, h⟩
    · rw [h, hv] at hx
      cases hx
    · cases h.symm.trans hx
      exact List.mem_map_of_mem hp
  there := by
    intro e he
    obtain ⟨p, hp, rfl⟩ := List.mem_map.mp he
    exact ⟨_, hu.waits hc hp⟩
  masked := by
    intro e he
    obtain ⟨p, hp, rfl⟩ := List.mem_map.mp he
    exact (hc.ready p hp).bits

theorem Cargo.snoc (hc : Cargo w₀ directory T pending) (hp : p.Ready w₀ directory T)
    (hnew : p.name ∉ pending.map Parcel.name) : Cargo w₀ directory T (pending ++ [p]) where
  ready := by
    intro q hq
    rcases List.mem_append.mp hq with hq | hq
    · exact hc.ready q hq
    · obtain rfl := List.mem_singleton.mp hq
      exact hp
  distinct := by
    rw [List.map_append, List.nodup_append]
    refine ⟨hc.distinct, by simp, fun a ha b hb hab => ?_⟩
    obtain rfl : b = p.name := by simpa using hb
    exact hnew (hab ▸ ha)

/-- A temporary in a vacant place joins those that wait. -/
theorem Underway.snoc {w' : World} (hu : Underway w₀ T D done pending w) (hvacant : w.tree.get? (T ++ [p.name]) = none)
    (htree : w'.tree = w.tree.insert (T ++ [p.name]) p.node) (hcwd : w'.cwd = w.cwd) (humask : w'.umask = w.umask) :
    p.name ∉ pending.map Parcel.name ∧ w₀.tree.get? (T ++ [p.name]) = none ∧
      Underway w₀ T D done (pending ++ [p]) w' := by
  have hplace := hu.tree (T ++ [p.name])
  rw [hvacant] at hplace
  obtain ⟨hfind, hbefore⟩ := Option.or_eq_none_iff.mp hplace.symm
  rw [Tree.find_append] at hfind
  have hwaiting := (Option.or_eq_none_iff.mp hfind).1
  refine ⟨fun hm => ?_, hbefore, hcwd.trans hu.cwd, humask.trans hu.umask, ?_, hu.places⟩
  · obtain ⟨q, hq, he⟩ := List.mem_map.mp hm
    exact Tree.find_eq_none.mp hwaiting _ (List.mem_map_of_mem hq) (by simp [Parcel.waiting, he])
  · rw [htree]
    refine Tree.Over.congr (hu.tree.insert (T ++ [p.name]) p.node) fun x => ?_
    simp only [List.map_append, List.map_cons, List.map_nil, Tree.find_append]
    by_cases hx : x = T ++ [p.name]
    · rw [hx, hwaiting]; simp [Tree.find, Parcel.waiting]
    · simp [Tree.find, Parcel.waiting, Ne.symm hx, Tree.find_append]

/-- An output that was laid ready joins the pending parcels. -/
theorem Underway.lay {o : Output} {path : Path} {d : Location} {n : Text} {mode : Nat} {w' : World}
    (hu : Underway w₀ T D [] pending w) (hc : Cargo w₀ directory T pending)
    (hn : Nest w₀ (directory.absolute w₀.cwd) T trail) (hfits : Fits w₀ directory o)
    (hm : Modes w₀ T pending) (hl : Laid w o path d n mode w') :
    path = (directory.absolute w₀.cwd).child n ∧ Cargo w₀ directory T (pending ++ [⟨o, n, mode⟩]) ∧
      Modes w₀ T (pending ++ [⟨o, n, mode⟩]) ∧ Underway w₀ T D [] (pending ++ [⟨o, n, mode⟩]) w' := by
  have hpath : path = (directory.absolute w₀.cwd).child n := by
    rw [hl.path, nursery, hfits.path, hu.cwd, Path.parent_child]
  have hnames := hu.names_before hc hl.names
  rw [hpath] at hnames
  obtain rfl : d = T := by
    have h := hnames.reached
    rw [Path.dropLast_child] at h
    exact Except.ok.inj (h.symm.trans (nest_reached hn))
  obtain ⟨hnew, hbefore, hu'⟩ := hu.snoc (p := ⟨o, n, mode⟩) hl.vacant hl.tree hl.cwd hl.umask
  obtain ⟨m, hfound, hmode⟩ := hl.mode
  have hjoined := (hu.joined hc).snoc hl.vacant (unmasked_and (rfl : privateMode &&& 0o7777 = privateMode) w₀.umask)
    (Text.Utf8.encode o.text)
  have hof : ModeOf w₀ (pending.map (Parcel.shelter d) ++ [(d ++ [n], unmasked privateMode w₀.umask)]) o.path mode := by
    rw [hu.umask] at hfound
    rw [hmode]
    refine modeOf_of_modeFor hjoined ((modeFor_congr ?_ ?_ ?_ o.path).trans hfound)
    · rfl
    · exact hu.cwd.symm
    · exact hu.umask.symm
  have hbits : mode &&& 0o7777 = mode := by rw [hmode, Nat.and_assoc, Nat.and_self]
  exact ⟨hpath, hc.snoc ⟨hfits, hl.name, hnames, hbefore, ⟨_, hof⟩, hbits⟩ hnew, hm.snoc hof, hu'⟩

inductive StagedUpTo (w₀ : World) (directory : Path) (T D : Location) (pending : List Parcel)
    (outputs : List Output) (w : World) : Prop
  | all (more : List Parcel) (w' : World) : more.map Parcel.output = outputs →
      (stageAll outputs).run w = ((more.map (Parcel.staged (directory.absolute w₀.cwd)), none), w') →
      Cargo w₀ directory T (pending ++ more) → Modes w₀ T (pending ++ more) →
      Underway w₀ T D [] (pending ++ more) w' → StagedUpTo w₀ directory T D pending outputs w
  | first (more : List Parcel) (o : Output) (post : List Output) (e : Errno) (w₁ w' : World) :
      outputs = more.map Parcel.output ++ o :: post →
      (stageAll (more.map Parcel.output)).run w =
        ((more.map (Parcel.staged (directory.absolute w₀.cwd)), none), w₁) →
      (stage o).run w₁ = (.error (.errno e), w') →
      (stageAll outputs).run w =
        ((more.map (Parcel.staged (directory.absolute w₀.cwd)), some ⟨o.path, .errno e⟩), w') →
      Cargo w₀ directory T (pending ++ more) → Underway w₀ T D [] (pending ++ more) w' →
      StagedUpTo w₀ directory T D pending outputs w

theorem stage_cases (hu : Underway w₀ T D [] pending w) {o : Output} (hfits : Fits w₀ directory o) :
    (∃ e w', (stage o).run w = (.error (.errno e), w') ∧ w'.tree = w.tree) ∨
      ∃ p d n mode w', (stage o).run w = (.ok p, w') ∧ Laid w o p d n mode w' := by
  have hnest : nursery w o = directory.absolute w₀.cwd := by
    rw [nursery, hfits.path, hu.cwd, Path.parent_child]
  rcases stageWithin_cases maxAttempts w o with ⟨r, w', hrun, ht, hr⟩ | h
  · rw [hnest] at hr
    obtain ⟨e, rfl⟩ := hr hfits.cleanTemporary hfits.clean
    exact Or.inl ⟨e, w', hrun, ht⟩
  · exact Or.inr h

theorem stageAll_cases (outputs : List Output) (hu : Underway w₀ T D [] pending w)
    (hc : Cargo w₀ directory T pending) (hm : Modes w₀ T pending) (hn : Nest w₀ (directory.absolute w₀.cwd) T trail)
    (hfits : ∀ o ∈ outputs, Fits w₀ directory o) : StagedUpTo w₀ directory T D pending outputs w := by
  induction outputs generalizing pending w with
  | nil => exact .all [] w rfl rfl (by rwa [List.append_nil]) (by rwa [List.append_nil]) (by rwa [List.append_nil])
  | cons o rest ih =>
    have hcwd := Script.run_cwd (stage o) w
    rcases stage_cases hu (hfits o List.mem_cons_self) with ⟨e, w', hrun, ht⟩ | ⟨p, d, n, mode, w', hrun, hl⟩
    · rw [hrun] at hcwd
      have hu' : Underway w₀ T D [] (pending ++ []) w' := by
        rw [List.append_nil]
        exact ⟨hcwd.1.trans hu.cwd, hcwd.2.trans hu.umask, ht ▸ hu.tree, hu.places⟩
      refine .first [] o rest e w w' rfl rfl hrun ?_ (by rwa [List.append_nil]) hu'
      simp only [stageAll, Script.run_bind, hrun]
      rfl
    · obtain ⟨rfl, hc', hm', hu'⟩ := hu.lay hc hn (hfits o List.mem_cons_self) hm hl
      cases ih hu' hc' hm' (fun o ho => hfits o (List.mem_cons_of_mem _ ho)) with
      | all more w'' hmore hrest hc'' hm'' hu'' =>
        rw [List.append_assoc] at hc'' hm'' hu''
        refine .all (⟨o, n, mode⟩ :: more) w'' (by rw [List.map_cons, hmore]) ?_ hc'' hm'' hu''
        simp only [stageAll, Script.run_bind, hrun, hrest]
        rfl
      | first more o' post e w₁ w'' hout hpre hfail hrest hc'' hu'' =>
        rw [List.append_assoc] at hc'' hu''
        refine .first (⟨o, n, mode⟩ :: more) o' post e w₁ w'' (by rw [List.map_cons, hout]; rfl) ?_ hfail ?_ hc'' hu''
        · simp only [List.map_cons, stageAll, Script.run_bind, hrun, hpre]
          rfl
        · simp only [stageAll, Script.run_bind, hrun, hrest]
          rfl

end Stage

end NodeGen
