/-
  NodeGen.Proofs.Walk — what a walk meets, and what a change of the tree does to it.

  `Walks` is the walk as a relation, one rule for each way to take a name; it also lists the links
  that were followed. `walk_eq_ok_iff` ties it to the function.

  - A walk to a directory looks only at directories and links. Where a tree is changed only by files
    put in places that are no directories (`Filed`), a walk that follows none of the replaced links
    still ends at the same place (`walkDirectory_filed`), a walk that follows one of them is refused
    (`walkDirectory_cut`), and no new way opens (`walkDirectory_of_filed`).
  - Where files are only added (`Extends`), a walk differs only where it comes upon one of them
    (`walk_extends`).
  - A walk to a node goes on as from there (`Walks.walk_append`). Along names without links and without `..`
    the place is the one that the names spell (`Walks.straight`).
-/

import NodeGen.File.Resolve

namespace NodeGen

namespace Tree

variable {t u : Tree} {k : Nat} {l d : Location} {name : Text} {names rest : List Text}

/-! ## The walk as a relation -/

structure Walkable (name : Text) : Prop where
  notDot : name ≠ ['.']
  notDots : name ≠ ['.', '.']
  short : Text.Utf8.size name ≤ maxName

/-- A walk from a place along names that may still follow `k` links; the links it follows, in order,
    and the spot it ends at. -/
inductive Walks (t : Tree) : Nat → Location → List Text → List Location → Spot → Prop
  | done (k : Nat) (l : Location) : Walks t k l [] [] (.node l)
  | stay {k : Nat} {l : Location} {rest : List Text} {ls : List Location} {spot : Spot} :
      t.isDirectory l = true → Walks t k l rest ls spot → Walks t k l (['.'] :: rest) ls spot
  | up {k : Nat} {l : Location} {rest : List Text} {ls : List Location} {spot : Spot} :
      t.isDirectory l = true → Walks t k l.dropLast rest ls spot →
      Walks t k l (['.', '.'] :: rest) ls spot
  | vacant {k : Nat} {l : Location} {name : Text} : t.isDirectory l = true → Walkable name →
      t.get? (l ++ [name]) = none → Walks t k l [name] [] (.vacant l name)
  | into {k : Nat} {l : Location} {name : Text} {rest : List Text} {ls : List Location} {spot : Spot}
      {node : Node} : t.isDirectory l = true → Walkable name → t.get? (l ++ [name]) = some node →
      (∀ target, node ≠ .link target) → Walks t k (l ++ [name]) rest ls spot →
      Walks t k l (name :: rest) ls spot
  | follow {k : Nat} {l : Location} {name : Text} {rest : List Text} {ls : List Location} {spot : Spot}
      {target : Text} : t.isDirectory l = true → Walkable name →
      t.get? (l ++ [name]) = some (.link target) →
      Walks t k (if (Route.ofText target).absolute then [] else l)
        ((Route.ofText target).allNames ++ rest) ls spot →
      Walks t (k + 1) l (name :: rest) ((l ++ [name]) :: ls) spot

@[simp] theorem walk_nil (t : Tree) (k : Nat) (l : Location) : t.walk k l [] = .ok (.node l) := by
  cases k <;> rfl

/-- One name of a walk, for any number of links left. -/
theorem walk_cons (t : Tree) (k : Nat) (l : Location) (name : Text) (rest : List Text) :
    t.walk k l (name :: rest) =
      if t.isDirectory l then
        if name = ['.'] then t.walk k l rest
        else if name = ['.', '.'] then t.walk k l.dropLast rest
        else if maxName < Text.Utf8.size name then .error .nameTooLong
        else
          match t.get? (l ++ [name]) with
          | none => if rest = [] then .ok (.vacant l name) else .error .noEntry
          | some (.link target) =>
            match k with
            | 0 => .error .linkLoop
            | links + 1 => t.walk links (if (Route.ofText target).absolute then [] else l)
                ((Route.ofText target).allNames ++ rest)
          | some _ => t.walk k (l ++ [name]) rest
      else .error .notDirectory := by
  cases k <;> rfl

theorem walk_walkable (hl : t.isDirectory l = true) (hn : Walkable name) :
    t.walk k l (name :: rest) =
      match t.get? (l ++ [name]) with
      | none => if rest = [] then .ok (.vacant l name) else .error .noEntry
      | some (.link target) =>
        match k with
        | 0 => .error .linkLoop
        | links + 1 => t.walk links (if (Route.ofText target).absolute then [] else l)
            ((Route.ofText target).allNames ++ rest)
      | some _ => t.walk k (l ++ [name]) rest := by
  rw [walk_cons, if_pos hl, if_neg hn.notDot, if_neg hn.notDots, if_neg (Nat.not_lt.mpr hn.short)]

theorem Walks.walk_eq {ls : List Location} {spot : Spot} (h : Walks t k l names ls spot) :
    t.walk k l names = .ok spot := by
  induction h with
  | done k l => exact walk_nil t k l
  | stay hl _ ih => rw [walk_cons, if_pos hl, if_pos rfl, ih]
  | up hl _ ih => rw [walk_cons, if_pos hl, if_neg (by decide), if_pos rfl, ih]
  | vacant hl hn hv => rw [walk_walkable hl hn, hv]; rfl
  | into hl hn hg hlink _ ih =>
    rw [walk_walkable hl hn, hg]
    split
    · contradiction
    · rename_i target e; cases e; exact absurd rfl (hlink target)
    · exact ih
  | follow hl hn hg _ ih => rw [walk_walkable hl hn, hg]; exact ih

/-- The walk along one name, by the walks that may go on from it. -/
theorem exists_walks_cons {spot : Spot}
    (hrest : ∀ l, t.walk k l rest = .ok spot → ∃ ls, Walks t k l rest ls spot)
    (hlink : ∀ j l names, k = j + 1 → t.walk j l names = .ok spot → ∃ ls, Walks t j l names ls spot)
    (h : t.walk k l (name :: rest) = .ok spot) : ∃ ls, Walks t k l (name :: rest) ls spot := by
  rw [walk_cons] at h
  by_cases hl : t.isDirectory l = true
  · rw [if_pos hl] at h
    by_cases hd : name = ['.']
    · subst hd
      rw [if_pos rfl] at h
      obtain ⟨ls, hw⟩ := hrest l h
      exact ⟨ls, .stay hl hw⟩
    rw [if_neg hd] at h
    by_cases hdd : name = ['.', '.']
    · subst hdd
      rw [if_pos rfl] at h
      obtain ⟨ls, hw⟩ := hrest _ h
      exact ⟨ls, .up hl hw⟩
    rw [if_neg hdd] at h
    by_cases hs : maxName < Text.Utf8.size name
    · rw [if_pos hs] at h; cases h
    rw [if_neg hs] at h
    have hn : Walkable name := ⟨hd, hdd, Nat.not_lt.mp hs⟩
    -- nothing is there, or a link, or anything else
    split at h
    · rename_i hv
      by_cases hr : rest = []
      · rw [if_pos hr] at h; cases h; subst hr; exact ⟨[], .vacant hl hn hv⟩
      · rw [if_neg hr] at h; cases h
    · rename_i target hg
      split at h
      · cases h
      · rename_i j
        obtain ⟨ls, hw⟩ := hlink j _ _ rfl h
        exact ⟨_, .follow hl hn hg hw⟩
    · rename_i node hnode hg
      obtain ⟨ls, hw⟩ := hrest _ h
      exact ⟨ls, .into hl hn hg (fun target e => hnode target (e ▸ rfl)) hw⟩
  · rw [if_neg hl] at h; cases h

theorem exists_walks {spot : Spot} : ∀ (k : Nat) (l : Location) (names : List Text),
    t.walk k l names = .ok spot → ∃ ls, Walks t k l names ls spot := by
  intro k
  induction k with
  | zero =>
    intro l names
    induction names generalizing l with
    | nil => intro h; simp only [walk_nil, Except.ok.injEq] at h; subst h; exact ⟨[], .done 0 l⟩
    | cons name rest ih => exact exists_walks_cons ih fun j _ _ e => absurd e (Nat.succ_ne_zero j).symm
  | succ k ihk =>
    intro l names
    induction names generalizing l with
    | nil => intro h; simp only [walk_nil, Except.ok.injEq] at h; subst h; exact ⟨[], .done _ l⟩
    | cons name rest ih =>
      refine exists_walks_cons ih fun j l names e h => ?_
      cases e
      exact ihk l names h

theorem walk_eq_ok_iff {spot : Spot} : t.walk k l names = .ok spot ↔ ∃ ls, Walks t k l names ls spot :=
  ⟨exists_walks k l names, fun ⟨_, h⟩ => h.walk_eq⟩

/-- One walk follows the same links, however it is derived. -/
theorem Walks.unique {ls ls' : List Location} {spot spot' : Spot} (h : Walks t k l names ls spot)
    (h' : Walks t k l names ls' spot') : ls = ls' ∧ spot = spot' := by
  induction h generalizing ls' spot' with
  | done => cases h'; exact ⟨rfl, rfl⟩
  | stay _ _ ih =>
    cases h' with
    | stay _ hw => exact ih hw
    | vacant _ hn _ => exact absurd rfl hn.notDot
    | into _ hn _ _ _ => exact absurd rfl hn.notDot
    | follow _ hn _ _ => exact absurd rfl hn.notDot
  | up _ _ ih =>
    cases h' with
    | up _ hw => exact ih hw
    | vacant _ hn _ => exact absurd rfl hn.notDots
    | into _ hn _ _ _ => exact absurd rfl hn.notDots
    | follow _ hn _ _ => exact absurd rfl hn.notDots
  | vacant _ hn hv =>
    cases h' with
    | stay => exact absurd rfl hn.notDot
    | up => exact absurd rfl hn.notDots
    | vacant => exact ⟨rfl, rfl⟩
    | into _ _ hg _ _ => rw [hv] at hg; cases hg
    | follow _ _ hg _ => rw [hv] at hg; cases hg
  | into _ hn hg hlink _ ih =>
    cases h' with
    | stay => exact absurd rfl hn.notDot
    | up => exact absurd rfl hn.notDots
    | vacant _ _ hv => rw [hv] at hg; cases hg
    | into _ _ _ _ hw => exact ih hw
    | follow _ _ hg' _ => rw [hg'] at hg; cases hg; exact absurd rfl (hlink _)
  | follow _ hn hg _ ih =>
    cases h' with
    | stay => exact absurd rfl hn.notDot
    | up => exact absurd rfl hn.notDots
    | vacant _ _ hv => rw [hv] at hg; cases hg
    | into _ _ hg' hlink _ => rw [hg'] at hg; cases hg; exact absurd rfl (hlink _)
    | follow _ _ hg' hw =>
      rw [hg'] at hg
      cases hg
      obtain ⟨rfl, rfl⟩ := ih hw
      exact ⟨rfl, rfl⟩

/-! ## Walks to directories -/

theorem isDirectory_congr (h : u.get? l = t.get? l) : u.isDirectory l = t.isDirectory l := by
  simp only [isDirectory, h]

theorem not_isDirectory_of_file {mode : Nat} {content : Text.Bytes}
    (h : t.get? l = some (.file mode content)) : t.isDirectory l = false := by
  simp [isDirectory, h, Node.isDirectory]

theorem not_isDirectory_of_none (h : t.get? l = none) : t.isDirectory l = false := by
  simp [isDirectory, h]

theorem not_isDirectory_of_link {target : Text} (h : t.get? l = some (.link target)) :
    t.isDirectory l = false := by
  simp [isDirectory, h, Node.isDirectory]

theorem walkDirectory_eq_ok_iff :
    t.walkDirectory l names = .ok d ↔
      (∃ ls, Walks t maxLinks l names ls (.node d)) ∧ t.isDirectory d = true := by
  unfold walkDirectory
  constructor
  · intro h
    split at h
    · rename_i e he
      by_cases hd : t.isDirectory e = true
      · rw [if_pos hd] at h; cases h; exact ⟨walk_eq_ok_iff.mp he, hd⟩
      · rw [if_neg hd] at h; cases h
    · cases h
    · cases h
  · rintro ⟨hw, hd⟩
    rw [walk_eq_ok_iff.mpr hw]
    simp only [hd, if_true]

theorem Walks.mem_link {ls : List Location} {spot : Spot} (h : Walks t k l names ls spot) :
    ∀ x ∈ ls, ∃ target, t.get? x = some (.link target) := by
  induction h with
  | done => intro x hx; cases hx
  | stay _ _ ih => exact ih
  | up _ _ ih => exact ih
  | vacant => intro x hx; cases hx
  | into _ _ _ _ _ ih => exact ih
  | follow _ _ hg _ ih =>
    intro x hx
    rcases List.mem_cons.mp hx with rfl | hx
    · exact ⟨_, hg⟩
    · exact ih x hx

theorem Walks.vacant_get? {ls : List Location} (h : Walks t k l names ls (.vacant d name)) :
    t.get? (d ++ [name]) = none := by
  generalize hs : Spot.vacant d name = spot at h
  induction h with
  | done => cases hs
  | stay _ _ ih => exact ih hs
  | up _ _ ih => exact ih hs
  | vacant _ _ hv => cases hs; exact hv
  | into _ _ _ _ _ ih => exact ih hs
  | follow _ _ _ _ ih => exact ih hs

/-- A walk to a directory starts at one. -/
theorem Walks.start_isDirectory {ls : List Location} (h : Walks t k l names ls (.node d))
    (hd : t.isDirectory d = true) : t.isDirectory l = true := by
  cases h with
  | done => exact hd
  | stay hl _ => exact hl
  | up hl _ => exact hl
  | into hl _ _ _ _ => exact hl
  | follow hl _ _ _ => exact hl

/-- A walk to a directory depends only on the directories of the tree and on the links it follows. -/
theorem Walks.transfer {ls : List Location} (h : Walks t k l names ls (.node d))
    (hd : t.isDirectory d = true) (hdirs : ∀ x, t.isDirectory x = true → u.get? x = t.get? x)
    (hlinks : ∀ x ∈ ls, u.get? x = t.get? x) : Walks u k l names ls (.node d) := by
  have hdir : ∀ {x}, t.isDirectory x = true → u.isDirectory x = true := fun hx =>
    (isDirectory_congr (hdirs _ hx)).trans hx
  generalize hs : Spot.node d = spot at h
  induction h with
  | done k l => exact .done k l
  | stay hl _ ih => exact .stay (hdir hl) (ih hlinks hs)
  | up hl _ ih => exact .up (hdir hl) (ih hlinks hs)
  | vacant => cases hs
  | into hl hn hg hlink hw ih =>
    subst hs
    have hx := hw.start_isDirectory hd
    exact .into (hdir hl) hn ((hdirs _ hx).trans hg) hlink (ih hlinks rfl)
  | follow hl hn hg _ ih =>
    have hx := (hlinks _ List.mem_cons_self).trans hg
    exact .follow (hdir hl) hn hx (ih (fun x hx => hlinks x (List.mem_cons_of_mem _ hx)) hs)

/-! ## Files put in places that are no directories -/

/-- `u` is `t` with files put in some places, none of them a directory. -/
def Filed (t u : Tree) : Prop :=
  ∀ x, u.get? x = t.get? x ∨ (t.isDirectory x = false ∧ ∃ mode content, u.get? x = some (.file mode content))

theorem Filed.directories (h : Filed t u) {x : Location} (hx : t.isDirectory x = true) :
    u.get? x = t.get? x := by
  rcases h x with h | ⟨hn, -⟩
  · exact h
  · rw [hx] at hn; cases hn

theorem Filed.directories' (h : Filed t u) {x : Location} (hx : u.isDirectory x = true) :
    t.get? x = u.get? x := by
  rcases h x with h | ⟨-, mode, content, hf⟩
  · exact h.symm
  · rw [not_isDirectory_of_file hf] at hx; cases hx

/-- No way to a directory opens when files are put into a tree. -/
theorem walkDirectory_of_filed (hf : Filed t u) (h : u.walkDirectory l names = .ok d) :
    t.walkDirectory l names = .ok d := by
  obtain ⟨⟨ls, hw⟩, hd⟩ := walkDirectory_eq_ok_iff.mp h
  have hlinks : ∀ x ∈ ls, t.get? x = u.get? x := by
    intro x hx
    obtain ⟨target, hg⟩ := hw.mem_link x hx
    rcases hf x with h | ⟨-, mode, content, hx⟩
    · exact h.symm
    · rw [hg] at hx; cases hx
  refine walkDirectory_eq_ok_iff.mpr ⟨⟨ls, hw.transfer hd (fun x hx => hf.directories' hx) hlinks⟩, ?_⟩
  exact (isDirectory_congr (hf.directories' hd)).trans hd

/-- A directory is still reached when no link on the way to it was replaced. -/
theorem walkDirectory_filed {ls : List Location} (hf : Filed t u)
    (hw : Walks t maxLinks l names ls (.node d)) (hd : t.isDirectory d = true)
    (hlinks : ∀ x ∈ ls, u.get? x = t.get? x) : u.walkDirectory l names = .ok d :=
  walkDirectory_eq_ok_iff.mpr ⟨⟨ls, hw.transfer hd (fun _ hx => hf.directories hx) hlinks⟩,
    (isDirectory_congr (hf.directories hd)).trans hd⟩

theorem Filed.insert (hl : t.isDirectory l = false) (mode : Nat) (content : Text.Bytes) :
    Filed t (t.insert l (.file mode content)) := by
  intro x
  rw [get?_insert]
  by_cases hx : x = l
  · rw [if_pos hx, hx]; exact Or.inr ⟨hl, mode, content, rfl⟩
  · rw [if_neg hx]; exact Or.inl rfl

/-- A file put in a place that is neither a directory nor a link is on no way to a directory. -/
theorem walkDirectory_insert {x : Location} (hx : t.isDirectory x = false)
    (hlink : ∀ target, t.get? x ≠ some (.link target)) (mode : Nat) (content : Text.Bytes)
    (h : t.walkDirectory l names = .ok d) : (t.insert x (.file mode content)).walkDirectory l names = .ok d := by
  obtain ⟨⟨ls, hw⟩, hd⟩ := walkDirectory_eq_ok_iff.mp h
  refine walkDirectory_filed (.insert hx mode content) hw hd fun y hy => ?_
  obtain ⟨target, hg⟩ := hw.mem_link y hy
  have hne : y ≠ x := fun e => hlink target (e ▸ hg)
  rw [get?_insert, if_neg hne]

/-- The walk from a place that is no directory: it ends there or is refused. -/
theorem walk_of_not_isDirectory (k : Nat) (names : List Text) (hl : t.isDirectory l = false) :
    t.walk k l names = .error .notDirectory ∨ t.walk k l names = .ok (.node l) := by
  cases names with
  | nil => exact Or.inr (walk_nil t k l)
  | cons name rest => left; rw [walk_cons, if_neg (by simp [hl])]

theorem Walks.cut {ls : List Location} (h : Walks t k l names ls (.node d)) (hf : Filed t u)
    (hd : t.isDirectory d = true) (hcut : ∃ x ∈ ls, u.get? x ≠ t.get? x) :
    u.walk k l names = .error .notDirectory ∨
      ∃ f, u.walk k l names = .ok (.node f) ∧ u.isDirectory f = false := by
  have hdir : ∀ {x}, t.isDirectory x = true → u.isDirectory x = true := fun hx =>
    (isDirectory_congr (hf.directories hx)).trans hx
  generalize hs : Spot.node d = spot at h
  induction h with
  | done => obtain ⟨x, hx, -⟩ := hcut; cases hx
  | stay hl _ ih => rw [walk_cons, if_pos (hdir hl), if_pos rfl]; exact ih hcut hs
  | up hl _ ih =>
    rw [walk_cons, if_pos (hdir hl), if_neg (by decide), if_pos rfl]; exact ih hcut hs
  | vacant => cases hs
  | @into k l name rest ls spot node hl hn hg hlink hw ih =>
    subst hs
    have hx := (hf.directories (hw.start_isDirectory hd)).trans hg
    rw [walk_walkable (hdir hl) hn, hx]
    have hih := ih hcut rfl
    cases node with
    | link target => exact absurd rfl (hlink target)
    | file mode content => exact hih
    | directory mode => exact hih
  | @follow k l name rest ls spot target hl hn hg hw ih =>
    rw [walk_walkable (hdir hl) hn]
    rcases hf (l ++ [name]) with he | ⟨-, mode, content, he⟩
    · rw [he, hg]
      refine ih ?_ hs
      obtain ⟨x, hx, hne⟩ := hcut
      rcases List.mem_cons.mp hx with rfl | hx
      · exact absurd he hne
      · exact ⟨x, hx, hne⟩
    · rw [he]
      have hfile := not_isDirectory_of_file he
      rcases walk_of_not_isDirectory (k + 1) rest hfile with h | h
      · exact Or.inl h
      · exact Or.inr ⟨_, h, hfile⟩

/-- The way to a directory is cut when a link on it is replaced by a file. -/
theorem walkDirectory_cut {ls : List Location} (hf : Filed t u)
    (hw : Walks t maxLinks l names ls (.node d)) (hd : t.isDirectory d = true)
    (hcut : ∃ x ∈ ls, u.get? x ≠ t.get? x) : u.walkDirectory l names = .error .notDirectory := by
  unfold walkDirectory
  rcases hw.cut hf hd hcut with h | ⟨f, h, hfile⟩
  · rw [h]
  · rw [h]; simp only [hfile, Bool.false_eq_true, if_false]

/-! ## Longer walks -/

/-- A walk to a node goes on as from there, with the links that are left. -/
theorem Walks.walk_append {ls : List Location} (h : Walks t k l names ls (.node d)) (rest : List Text) :
    t.walk k l (names ++ rest) = t.walk (k - ls.length) d rest := by
  generalize hs : Spot.node d = spot at h
  induction h with
  | done k l => cases hs; rfl
  | stay hl _ ih => rw [List.cons_append, walk_cons, if_pos hl, if_pos rfl]; exact ih hs
  | up hl _ ih => rw [List.cons_append, walk_cons, if_pos hl, if_neg (by decide), if_pos rfl]; exact ih hs
  | vacant => cases hs
  | into hl hn hg hlink _ ih =>
    rw [List.cons_append, walk_walkable hl hn, hg]
    split
    · contradiction
    · rename_i target e
      cases e
      exact absurd rfl (hlink target)
    · exact ih hs
  | follow hl hn hg _ ih =>
    have hrest := ih hs
    rw [List.append_assoc] at hrest
    rw [List.cons_append, walk_walkable hl hn, hg, List.length_cons, Nat.add_sub_add_right]
    exact hrest

/-- A walk goes on where it ended. -/
theorem Walks.append {ls : List Location} {spot : Spot} (h : Walks t k l names ls (.node d))
    (hrest : ∀ j, Walks t j d rest [] spot) : Walks t k l (names ++ rest) ls spot := by
  generalize hs : Spot.node d = s at h
  induction h with
  | done k l => cases hs; exact hrest k
  | stay hl _ ih => exact .stay hl (ih hs)
  | up hl _ ih => exact .up hl (ih hs)
  | vacant => cases hs
  | into hl hn hg hlink _ ih => exact .into hl hn hg hlink (ih hs)
  | follow hl hn hg _ ih =>
    have hrest := ih hs
    rw [List.append_assoc] at hrest
    exact .follow hl hn hg hrest

/-- The walk to an entry of a directory that is no link. -/
theorem Walks.entry {ls : List Location} {node : Node} (h : Walks t k l names ls (.node d))
    (hd : t.isDirectory d = true) (hn : Walkable name) (hg : t.get? (d ++ [name]) = some node)
    (hlink : ∀ target, node ≠ .link target) :
    Walks t k l (names ++ [name]) ls (.node (d ++ [name])) :=
  h.append fun j => .into hd hn hg hlink (.done j _)

/-! ## Added files -/

/-- `u` is `t` with files in some places that were vacant. -/
def Extends (t u : Tree) : Prop :=
  ∀ x, u.get? x = t.get? x ∨ (t.get? x = none ∧ ∃ mode content, u.get? x = some (.file mode content))

theorem Extends.refl (t : Tree) : Extends t t := fun _ => Or.inl rfl

theorem Extends.insert (h : Extends t u) {x : Location} (hv : u.get? x = none) (mode : Nat) (content : Text.Bytes) :
    Extends t (u.insert x (.file mode content)) := by
  intro y
  rw [get?_insert]
  by_cases hy : y = x
  · rw [if_pos hy, hy]
    rcases h x with heq | ⟨-, _, _, hfile⟩
    · exact Or.inr ⟨heq ▸ hv, mode, content, rfl⟩
    · rw [hv] at hfile
      cases hfile
  · rw [if_neg hy]
    exact h y

theorem Extends.isDirectory (h : Extends t u) (x : Location) : u.isDirectory x = t.isDirectory x := by
  rcases h x with h | ⟨hn, mode, content, hf⟩
  · exact isDirectory_congr h
  · rw [not_isDirectory_of_file hf, not_isDirectory_of_none hn]

/-- One name of a walk among added files, by the walks that may go on from it. -/
theorem walk_extends_cons (he : Extends t u)
    (hrest : ∀ l, u.walk k l rest = t.walk k l rest ∨
      (∃ d n, t.walk k l rest = .ok (.vacant d n) ∧ u.walk k l rest = .ok (.node (d ++ [n]))) ∨
      (t.walk k l rest = .error .noEntry ∧ u.walk k l rest = .error .notDirectory))
    (hlink : ∀ j l names, k = j + 1 → u.walk j l names = t.walk j l names ∨
      (∃ d n, t.walk j l names = .ok (.vacant d n) ∧ u.walk j l names = .ok (.node (d ++ [n]))) ∨
      (t.walk j l names = .error .noEntry ∧ u.walk j l names = .error .notDirectory)) :
    u.walk k l (name :: rest) = t.walk k l (name :: rest) ∨
      (∃ d n, t.walk k l (name :: rest) = .ok (.vacant d n) ∧
        u.walk k l (name :: rest) = .ok (.node (d ++ [n]))) ∨
      (t.walk k l (name :: rest) = .error .noEntry ∧ u.walk k l (name :: rest) = .error .notDirectory) := by
  rw [walk_cons t, walk_cons u, he.isDirectory]
  by_cases hl : t.isDirectory l = true
  · simp only [if_pos hl]
    by_cases hd : name = ['.']
    · simp only [if_pos hd]; exact hrest l
    simp only [if_neg hd]
    by_cases hdd : name = ['.', '.']
    · simp only [if_pos hdd]; exact hrest l.dropLast
    simp only [if_neg hdd]
    by_cases hs : maxName < Text.Utf8.size name
    · simp only [if_pos hs]; exact Or.inl trivial
    simp only [if_neg hs]
    rcases he (l ++ [name]) with hx | ⟨hv, mode, content, hf⟩
    · rw [hx]
      cases hg : t.get? (l ++ [name]) with
      | none => exact Or.inl rfl
      | some node =>
        cases node with
        | file mode content => exact hrest _
        | directory mode => exact hrest _
        | link target =>
          cases k with
          | zero => exact Or.inl rfl
          | succ j => exact hlink j _ _ rfl
    · -- an added file ends the walk, so it matters whether a name is left
      rw [hv, hf]
      cases rest with
      | nil => exact Or.inr (Or.inl ⟨l, name, rfl, walk_nil u k _⟩)
      | cons next rest =>
        refine Or.inr (Or.inr ⟨rfl, ?_⟩)
        simp only [walk_cons u k (l ++ [name]), not_isDirectory_of_file hf, Bool.false_eq_true, if_false]
  · simp only [if_neg hl]; exact Or.inl trivial

/-- Added files change a walk only where it comes upon one of them: it ends there if no name is left,
    and otherwise it is refused for another reason than before. -/
theorem walk_extends (he : Extends t u) : ∀ (k : Nat) (l : Location) (names : List Text),
    u.walk k l names = t.walk k l names ∨
      (∃ d n, t.walk k l names = .ok (.vacant d n) ∧ u.walk k l names = .ok (.node (d ++ [n]))) ∨
      (t.walk k l names = .error .noEntry ∧ u.walk k l names = .error .notDirectory) := by
  intro k
  induction k with
  | zero =>
    intro l names
    induction names generalizing l with
    | nil => exact Or.inl (by rw [walk_nil, walk_nil])
    | cons name rest ih => exact walk_extends_cons he ih fun j _ _ e => absurd e (Nat.succ_ne_zero j).symm
  | succ k ihk =>
    intro l names
    induction names generalizing l with
    | nil => exact Or.inl (by rw [walk_nil, walk_nil])
    | cons name rest ih =>
      refine walk_extends_cons he ih fun j l names e => ?_
      cases e
      exact ihk l names

/-! ## Straight ways -/

structure Straight (t : Tree) (l : Location) (names : List Text) : Prop where
  notDot : ['.'] ∉ names
  notDots : ['.', '.'] ∉ names
  noLink : ∀ q, q ≠ [] → q <+: names → ∀ target, t.get? (l ++ q) ≠ some (.link target)

theorem Straight.tail (h : Straight t l (name :: rest)) : Straight t (l ++ [name]) rest where
  notDot := fun hm => h.notDot (List.mem_cons_of_mem _ hm)
  notDots := fun hm => h.notDots (List.mem_cons_of_mem _ hm)
  noLink := by
    intro q _ hq target
    have := h.noLink (name :: q) (List.cons_ne_nil _ _) (List.prefix_cons_inj name |>.mpr hq) target
    rwa [List.append_assoc]

/-- Along a straight way no link is followed, and the place is the one that the names spell. -/
theorem Walks.straight {ls : List Location} (h : Walks t k l names ls (.node d))
    (hst : Straight t l names) : ls = [] ∧ d = l ++ names := by
  generalize hs : Spot.node d = spot at h
  induction h with
  | done k l => cases hs; simp
  | stay => exact absurd List.mem_cons_self hst.notDot
  | up => exact absurd List.mem_cons_self hst.notDots
  | vacant => cases hs
  | into _ _ _ _ _ ih =>
    obtain ⟨hls, hd⟩ := ih hst.tail hs
    exact ⟨hls, by rw [hd, List.append_assoc, List.singleton_append]⟩
  | @follow k l name rest ls spot target _ _ hg _ _ =>
    have hq : [name] <+: name :: rest := ⟨rest, rfl⟩
    exact absurd hg (hst.noLink [name] (List.cons_ne_nil _ _) hq target)

/-- The second part of a straight way, walked from where the first part ends. -/
theorem Walks.drop {ls : List Location} (first : List Text)
    (h : Walks t k l (first ++ rest) ls (.node d)) (hst : Straight t l (first ++ rest)) :
    Walks t k (l ++ first) rest ls (.node d) := by
  induction first generalizing l with
  | nil => simpa using h
  | cons name first ih =>
    rw [List.cons_append] at h hst
    have hst' := hst.tail
    generalize hmore : first ++ rest = more at h hst hst'
    cases h with
    | stay => exact absurd List.mem_cons_self hst.notDot
    | up => exact absurd List.mem_cons_self hst.notDots
    | into _ _ _ _ hw =>
      subst hmore
      have := ih hw hst'
      rwa [List.append_assoc, List.singleton_append] at this
    | follow _ _ hg _ =>
      have hq : [name] <+: name :: more := ⟨more, rfl⟩
      exact absurd hg (hst.noLink [name] (List.cons_ne_nil _ _) hq _)

end Tree

end NodeGen
