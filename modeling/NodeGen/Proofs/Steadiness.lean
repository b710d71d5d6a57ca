/-
  NodeGen.Proofs.Steadiness — when the mode of an output does not depend on what is at work beside it.

  While a batch is written, files are put under some names into one directory (`Tree.FiledAs`). What the
  system tells of an output in that directory stays the same, first, if the output is no link and its own
  name is none of those (`steady_of_not_link`). Second, if it is a link or not, but no link of the tree
  leads over one of those names (`steady_of_unnamed`): a walk comes upon a name of a directory only if
  it is told that name, be it by the path or by a link (`Tree.walk_avoiding`).
-/

import NodeGen.Proofs.Effect

namespace NodeGen

namespace Tree

variable {t u : Tree} {k : Nat} {l d place : Location} {name : Text} {names : Text → Prop} {rest : List Text}

/-- `u` is `t` with files under some names of a directory, in places that are no directories. -/
def FiledAs (names : Text → Prop) (place : Location) (t u : Tree) : Prop :=
  ∀ x, u.get? x = t.get? x ∨ ((∃ n, names n ∧ x = place ++ [n]) ∧ t.isDirectory x = false ∧
    ∃ mode content, u.get? x = some (.file mode content))

theorem FiledAs.filed (h : FiledAs names place t u) : Filed t u := fun x => (h x).imp_right And.right

theorem FiledAs.get? (h : FiledAs names place t u) {x : Location} (hx : ∀ n, names n → x ≠ place ++ [n]) :
    u.get? x = t.get? x := by
  rcases h x with h | ⟨⟨n, hn, rfl⟩, -⟩
  · exact h
  · exact absurd rfl (hx n hn)

/-! ## Walks that avoid some names -/

/-- A place that can only be reached over one of some names of a directory. -/
def Below (names : Text → Prop) (place x : Location) : Prop := ∃ n, names n ∧ place ++ [n] <+: x

theorem FiledAs.get?_of_not_below (h : FiledAs names place t u) {x : Location} (hx : ¬Below names place x) :
    u.get? x = t.get? x :=
  h.get? fun n hn e => hx ⟨n, hn, e ▸ List.prefix_rfl⟩

theorem not_below_concat (hl : ¬Below names place l) (hname : ¬names name) : ¬Below names place (l ++ [name]) := by
  intro ⟨n, hn, hprefix⟩
  rcases List.prefix_concat_iff.mp hprefix with e | hprefix
  · obtain rfl : n = name := by simpa using congrArg List.getLast? e
    exact hname hn
  · exact hl ⟨n, hn, hprefix⟩

theorem not_below_dropLast (hl : ¬Below names place l) : ¬Below names place l.dropLast :=
  fun ⟨n, hn, hprefix⟩ => hl ⟨n, hn, hprefix.trans (List.dropLast_prefix l)⟩

theorem not_below_place : ¬Below names place place := by
  rintro ⟨n, -, hprefix⟩
  exact absurd hprefix.length_le (by simp)

/-- The same walk, to a place that needs none of the names. -/
def Avoids (names : Text → Prop) (place : Location) (t u : Tree) (k : Nat) (l : Location) (way : List Text) : Prop :=
  u.walk k l way = t.walk k l way ∧ ∀ d, t.walk k l way = .ok (.node d) → ¬Below names place d

/-- One name of a walk that avoids some names, by the walks that may go on from it. -/
theorem avoids_cons (h : FiledAs names place t u) (hname : ¬names name) (hl : ¬Below names place l)
    (hrest : ∀ l, ¬Below names place l → Avoids names place t u k l rest)
    (hlink : ∀ j target, k = j + 1 → t.get? (l ++ [name]) = some (.link target) →
      Avoids names place t u j (if (Route.ofText target).absolute then [] else l)
        ((Route.ofText target).allNames ++ rest)) :
    Avoids names place t u k l (name :: rest) := by
  have hentry := not_below_concat hl hname
  unfold Avoids
  rw [walk_cons t, walk_cons u, isDirectory_congr (h.get?_of_not_below hl), h.get?_of_not_below hentry]
  by_cases hdir : t.isDirectory l = true
  · simp only [if_pos hdir]
    by_cases hdot : name = ['.']
    · simp only [if_pos hdot]
      exact hrest l hl
    simp only [if_neg hdot]
    by_cases hdots : name = ['.', '.']
    · simp only [if_pos hdots]
      exact hrest l.dropLast (not_below_dropLast hl)
    simp only [if_neg hdots]
    by_cases hlong : maxName < Text.Utf8.size name
    · simp [if_pos hlong]
    simp only [if_neg hlong]
    cases hg : t.get? (l ++ [name]) with
    | none => by_cases hend : rest = [] <;> simp [hend]
    | some node =>
      cases node with
      | file mode content => exact hrest _ hentry
      | directory mode => exact hrest _ hentry
      | link target =>
        cases k with
        | zero => simp
        | succ j => exact hlink j target rfl hg
  · simp [if_neg hdir]

/-- Files under some names are on no way whose names, and those of all links, are others. -/
theorem walk_avoiding (h : FiledAs names place t u) (hdot : ¬names ['.'])
    (hlinks : ∀ x target, t.get? x = some (.link target) → ∀ n ∈ (Route.ofText target).names, ¬names n) :
    ∀ (k : Nat) (l : Location) (way : List Text), (∀ n ∈ way, ¬names n) → ¬Below names place l →
      Avoids names place t u k l way := by
  have hdone : ∀ k l, ¬Below names place l → Avoids names place t u k l [] := by
    intro k l hl
    refine ⟨by rw [walk_nil, walk_nil], fun d hd => ?_⟩
    rw [walk_nil] at hd
    cases hd
    exact hl
  -- a link takes one from the budget and brings names of its own, so the budget comes before the way
  intro k
  induction k with
  | zero =>
    intro l way
    induction way generalizing l with
    | nil => exact fun _ hl => hdone 0 l hl
    | cons name rest ih =>
      intro hway hl
      obtain ⟨hname, hrest⟩ := List.forall_mem_cons.mp hway
      exact avoids_cons h hname hl (fun l hl => ih l hrest hl) fun j _ e => absurd e (Nat.succ_ne_zero j).symm
  | succ k ihk =>
    intro l way
    induction way generalizing l with
    | nil => exact fun _ hl => hdone _ l hl
    | cons name rest ih =>
      intro hway hl
      obtain ⟨hname, hrest⟩ := List.forall_mem_cons.mp hway
      refine avoids_cons h hname hl (fun l hl => ih l hrest hl) fun j target e hg => ?_
      cases e
      refine ihk _ _ (fun n hn => ?_) ?_
      · rcases List.mem_append.mp hn with hn | hn
        · unfold Route.allNames at hn
          split at hn
          · rcases List.mem_append.mp hn with hn | hn
            · exact hlinks _ target hg n hn
            · exact List.mem_singleton.mp hn ▸ hdot
          · exact hlinks _ target hg n hn
        · exact hrest n hn
      · split
        · rintro ⟨n, -, hprefix⟩
          exact absurd (List.prefix_nil.mp hprefix) (by simp)
        · exact hl

end Tree

/-- What the system tells of a path depends on the way to its node, and on that node. -/
theorem World.stat_of_walk {w : World} {u : Tree} {r : Route}
    (hwalk : u.walk maxLinks (w.start r) r.allNames = w.tree.walk maxLinks (w.start r) r.allNames)
    (hnode : ∀ l, w.tree.walk maxLinks (w.start r) r.allNames = .ok (.node l) → u.get? l = w.tree.get? l) :
    (w.withTree u).stat r = w.stat r := by
  cases hadmit : r.admit with
  | error x => rw [stat_of_refused (locate_refused hadmit), stat_of_refused (locate_refused hadmit)]
  | ok _ =>
    have hbefore := locate_eq (w := w) hadmit
    have hafter := locate_eq (w := w.withTree u) hadmit
    simp only [start_withTree, withTree_tree, hwalk] at hafter
    cases hspot : w.tree.walk maxLinks (w.start r) r.allNames with
    | error e =>
      rw [hspot] at hbefore hafter
      rw [stat_of_refused hbefore, stat_of_refused hafter]
    | ok spot =>
      rw [hspot] at hbefore hafter
      cases spot with
      | vacant d n => rw [stat_of_vacant hbefore, stat_of_vacant hafter]
      | node l => rw [stat_of_locate hbefore, stat_of_locate hafter, withTree_tree, hnode l hspot]

namespace Stage

variable {w : World} {directory p : Path} {place : Location} {n : Text} {names : Text → Prop}

/-- The mode that is found for a path stays the same when files are put under some names into a
    directory. -/
def Steady (w : World) (place : Location) (names : Text → Prop) (p : Path) : Prop :=
  ∀ u, w.tree.FiledAs names place u → modeFor (w.withTree u) p = modeFor w p

/-- A path into a directory is decided by the walk along its last name. -/
theorem steady_of_walk (hn : Nest w directory place []) (hp : p = directory.child n)
    (h : ∀ u, w.tree.FiledAs names place u →
      u.walk maxLinks place [n] = w.tree.walk maxLinks place [n] ∧
        ∀ l, w.tree.walk maxLinks place [n] = .ok (.node l) → u.get? l = w.tree.get? l) :
    Steady w place names p := by
  intro u hu
  obtain ⟨hwalk, hnode⟩ := h u hu
  have hbefore : w.tree.walk maxLinks (w.start (Route.ofPath directory)) (directory.parts ++ [n]) =
      w.tree.walk maxLinks place [n] := hn.walks.walk_append [n]
  have hafter : u.walk maxLinks (w.start (Route.ofPath directory)) (directory.parts ++ [n]) =
      u.walk maxLinks place [n] :=
    (hn.walks.transfer hn.isDirectory (fun _ hx => hu.filed.directories hx) (by simp)).walk_append [n]
  have hroute : (Route.ofPath p).allNames = directory.parts ++ [n] := by rw [hp]; rfl
  have hstart : w.start (Route.ofPath p) = w.start (Route.ofPath directory) := by rw [hp]; rfl
  have hstat : (w.withTree u).stat (Route.ofPath p) = w.stat (Route.ofPath p) := by
    refine World.stat_of_walk ?_ fun l hl => ?_
    · rw [hroute, hstart, hbefore, hafter, hwalk]
    · rw [hroute, hstart, hbefore] at hl
      exact hnode l hl
  simp only [modeFor, hstat, World.withTree_umask]

theorem steady_of_not_link (hn : Nest w directory place []) (hp : p = directory.child n) (hvisible : n.head? ≠ some '.')
    (hname : ¬names n) (hlink : ∀ target, w.tree.get? (place ++ [n]) ≠ some (.link target)) :
    Steady w place names p := by
  refine steady_of_walk hn hp fun u hu => ?_
  have hdot : n ≠ ['.'] := fun e => hvisible (by rw [e]; rfl)
  have hdots : n ≠ ['.', '.'] := fun e => hvisible (by rw [e]; rfl)
  have hentry : u.get? (place ++ [n]) = w.tree.get? (place ++ [n]) := by
    refine hu.get? fun m hm e => ?_
    obtain rfl : n = m := by simpa using congrArg List.getLast? e
    exact hname hm
  have hdir : u.isDirectory place = true :=
    (Tree.isDirectory_congr (hu.filed.directories hn.isDirectory)).trans hn.isDirectory
  rw [Tree.walk_cons u, Tree.walk_cons w.tree, if_pos hdir, if_pos hn.isDirectory, if_neg hdot, if_neg hdot,
    if_neg hdots, if_neg hdots, hentry]
  refine ⟨?_, fun l hl => ?_⟩
  · cases hg : w.tree.get? (place ++ [n]) with
    | none => rfl
    | some node =>
      cases node with
      | link target => exact absurd hg (hlink target)
      | file mode content => simp only [Tree.walk_nil]
      | directory mode => simp only [Tree.walk_nil]
  · obtain rfl : l = place ++ [n] := by
      split at hl
      · cases hl
      · split at hl
        · cases hl
        · rename_i target hg
          exact absurd hg (hlink target)
        · simpa using hl.symm
    exact hentry

theorem steady_of_unnamed (hn : Nest w directory place []) (hp : p = directory.child n) (hname : ¬names n)
    (hdot : ¬names ['.'])
    (hlinks : ∀ x target, w.tree.get? x = some (.link target) → ∀ n ∈ (Route.ofText target).names, ¬names n) :
    Steady w place names p := by
  refine steady_of_walk hn hp fun u hu => ?_
  have hway : ∀ m ∈ [n], ¬names m := by simpa using hname
  obtain ⟨hwalk, hend⟩ := Tree.walk_avoiding hu hdot hlinks maxLinks place [n] hway Tree.not_below_place
  exact ⟨hwalk, fun l hl => hu.get?_of_not_below (hend l hl)⟩

end Stage

end NodeGen
