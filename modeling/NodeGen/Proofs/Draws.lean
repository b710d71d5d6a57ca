/-
  NodeGen.Proofs.Draws — which name a temporary file gets.

  The names that are tried for an output differ in their random suffixes alone, and all suffixes have one
  length: the system takes all of these names, or none (`World.Names.redraw`). Where it takes them, the
  first that is vacant is used (`createTemporary_run_free`), and staging succeeds exactly if there is one
  and the mode of the output is found (`stage_run`, `stage_taken`). Names that are tried
  for different outputs differ (`temporaryName_injective`).
-/

import Mathlib.Data.Nat.Find
import NodeGen.Proofs.Outputs

namespace NodeGen

/-! ## The names that are tried -/

theorem Text.Utf8.size_append (a b : Text) : size (a ++ b) = size a + size b := by
  simp [size, encode]

theorem Suffix.size_text (s : Suffix) : Text.Utf8.size s.text = 8 := by
  have hletter : suffixAlphabet.all (fun c => (String.utf8EncodeChar c).length = 1) = true := by decide
  have hsize : ∀ t : Text, (∀ c ∈ t, c ∈ suffixAlphabet) → Text.Utf8.size t = t.length := by
    intro t
    induction t with
    | nil => exact fun _ => rfl
    | cons c t ih =>
      intro h
      have hc : Text.Utf8.size [c] = 1 := by
        simpa [Text.Utf8.size, Text.Utf8.encode] using List.all_eq_true.mp hletter c (h c List.mem_cons_self)
      rw [← List.singleton_append, Text.Utf8.size_append, hc, ih fun x hx => h x (List.mem_cons_of_mem _ hx),
        List.length_append, List.length_singleton]
  rw [hsize s.text s.letters, s.length]

theorem Path.toText_child (p : Path) : ∃ front, ∀ name, (p.child name).toText = front ++ name := by
  have hjoin : ∀ parts : List Text, ∃ front, ∀ name, ['/'].intercalate (parts ++ [name]) = front ++ name := by
    intro parts
    induction parts with
    | nil => exact ⟨[], fun name => by simp⟩
    | cons part parts ih =>
      obtain ⟨front, h⟩ := ih
      refine ⟨part ++ ['/'] ++ front, fun name => ?_⟩
      rw [List.cons_append, List.intercalate_cons_of_ne_nil (by simp), h]
      simp
  obtain ⟨anchor, parts⟩ := p
  obtain ⟨front, h⟩ := hjoin parts
  refine ⟨anchor.text ++ front, fun name => ?_⟩
  rw [List.append_assoc, ← h]
  unfold toText child
  split
  · simp_all
  · rfl

theorem Route.admit_eq_ok_iff {r : Route} :
    r.admit = .ok () ↔ '\x00' ∉ r.text ∧ r.text ≠ [] ∧ Text.Utf8.size r.text < maxPath := by
  unfold Route.admit
  by_cases hnul : '\x00' ∈ r.text
  · simp [hnul]
  · by_cases hne : r.text = []
    · simp [hne]
    · by_cases hsize : maxPath ≤ Text.Utf8.size r.text
      · simp [hnul, hne, hsize]
      · simp [hnul, hne, hsize, Nat.lt_of_not_le hsize]

namespace Stage

variable {w w' : World} {o : Output} {nest : Path} {place : Location} {name : Text} {i m attempts : Nat}

theorem temporaryName_size (name : Text) (s : Suffix) :
    Text.Utf8.size (temporaryName name s.text) = Text.Utf8.size name + 14 := by
  have hframe : Text.Utf8.size ['.'] = 1 ∧ Text.Utf8.size ".tmp".toList = 4 := by decide
  simp only [temporaryName, Text.Utf8.size_append, s.size_text, hframe.1, hframe.2]
  omega

/-- Names that are tried for different outputs differ. -/
theorem temporaryName_injective {a b : Text} {s s' : Suffix}
    (h : temporaryName a s.text = temporaryName b s'.text) : a = b := by
  have hstem : ['.'] ++ a ++ ['.'] = ['.'] ++ b ++ ['.'] :=
    List.append_inj_left' (List.append_cancel_right h) (s.length.trans s'.length.symm)
  exact List.append_cancel_left (List.append_cancel_right hstem)

/-- A path that the system takes with one suffix is one that it takes with any. -/
theorem World.Names.redraw {s : Suffix}
    (h : w.Names (nest.child (temporaryName name s.text)) place (temporaryName name s.text)) (s' : Suffix) :
    w.Names (nest.child (temporaryName name s'.text)) place (temporaryName name s'.text) := by
  obtain ⟨front, hfront⟩ := nest.toText_child
  have hreached := h.reached
  rw [Path.dropLast_child] at hreached
  refine ⟨?_, by rwa [Path.dropLast_child], Path.getLast?_child _ _, ?_⟩
  · obtain ⟨hnul, -, hsize⟩ := Route.admit_eq_ok_iff.mp h.admitted
    simp only [Route.ofPath, hfront, List.mem_append, not_or, Text.Utf8.size_append, temporaryName_size] at hnul hsize
    have hname : '\x00' ∉ name := fun hm => hnul.2 (by simp [temporaryName, hm])
    refine Route.admit_eq_ok_iff.mpr ⟨?_, ?_, ?_⟩
    · simp only [Route.ofPath, hfront, List.mem_append, not_or]
      exact ⟨hnul.1, temporaryName_clean hname s'⟩
    · simp [Route.ofPath, hfront, temporaryName]
    · simpa only [Route.ofPath, hfront, Text.Utf8.size_append, temporaryName_size] using hsize
  · have hlong : 2 < (temporaryName name s'.text).length := by
      simp only [temporaryName, List.length_append, s'.length]
      omega
    refine ⟨fun e => ?_, fun e => ?_, ?_⟩
    · rw [e] at hlong
      simp at hlong
    · rw [e] at hlong
      simp at hlong
    · have hshort := h.walkable.short
      rwa [temporaryName_size] at hshort ⊢

def drawnName (w : World) (name : Text) (draw : Nat) : Text := temporaryName name (w.suffixes draw).text

theorem isTemporary_drawnName (w : World) (name : Text) (draw : Nat) : IsTemporary (drawnName w name draw) :=
  ⟨name, _, rfl⟩

/-! ## The first vacant name -/

structure FirstFree (w : World) (place : Location) (name : Text) (attempts k i : Nat) : Prop where
  within : i < attempts
  vacant : w.tree.get? (place ++ [drawnName w name (k + i)]) = none
  taken : ∀ j < i, w.tree.get? (place ++ [drawnName w name (k + j)]) ≠ none

theorem exists_firstFree {k : Nat} (h : ∃ i < attempts, w.tree.get? (place ++ [drawnName w name (k + i)]) = none) :
    ∃ i, FirstFree w place name attempts k i := by
  classical
  obtain ⟨hwithin, hvacant⟩ := Nat.find_spec h
  refine ⟨Nat.find h, hwithin, hvacant, fun j hj hfree => ?_⟩
  exact Nat.find_min h hj ⟨Nat.lt_trans hj hwithin, hfree⟩

theorem FirstFree.congr {k : Nat} (h : FirstFree w place name attempts k i) (hsuffixes : w'.suffixes = w.suffixes)
    (hsame : ∀ draw, w'.tree.get? (place ++ [drawnName w name draw]) = w.tree.get? (place ++ [drawnName w name draw])) :
    FirstFree w' place name attempts k i := by
  have hname : ∀ draw, drawnName w' name draw = drawnName w name draw := fun draw => by simp only [drawnName, hsuffixes]
  exact ⟨h.within, by rw [hname, hsame, h.vacant], fun j hj => by rw [hname, hsame]; exact h.taken j hj⟩

theorem World.Names.create_taken {p : Path} {d : Location} {n : Text} {mode : Nat} (h : w.Names p d n)
    (ht : w.tree.get? (d ++ [n]) ≠ none) : w.create (Route.ofPath p) mode = .error (.errno .alreadyExists) := by
  simp [World.create, h.entry_eq, h.location_eq, Option.isSome_iff_ne_none.mpr ht, bind, Except.bind, throw, throwThe,
    MonadExceptOf.throw]

def afterDraws (w : World) (draws : Nat) (t : Tree) : World := { w with tree := t, drawn := draws }

variable (hnames : ∀ s : Suffix,
  w.Names (nest.child (temporaryName name s.text)) place (temporaryName name s.text))

include hnames in
/-- The first vacant name becomes that of a new file. -/
theorem createTemporary_run_free (h : FirstFree w place name attempts w.drawn i) :
    (createTemporary nest name attempts).run w =
      (.ok (nest.child (drawnName w name (w.drawn + i))), afterDraws w (w.drawn + i + 1)
        (w.tree.insert (place ++ [drawnName w name (w.drawn + i)]) (.file (unmasked privateMode w.umask) []))) := by
  induction attempts generalizing w i with
  | zero => exact absurd h.within (Nat.not_lt_zero i)
  | succ attempts ih =>
    have hdrawn : ∀ s : Suffix, (draw w).Names (nest.child (temporaryName name s.text)) place
        (temporaryName name s.text) := fun s => (hnames s).congr rfl rfl
    have hnext : (draw w).Names (nextTemporary w nest name) place (drawnName w name w.drawn) :=
      hdrawn (w.suffixes w.drawn)
    rw [createTemporary_run_succ]
    cases i with
    | zero => rw [hnext.create_eq h.vacant]; rfl
    | succ i =>
      rw [World.Names.create_taken hnext (h.taken 0 (Nat.succ_pos i))]
      have hshift : ∀ j, (draw w).drawn + j = w.drawn + (j + 1) := fun j => by simp only [draw]; omega
      have hrest : FirstFree (draw w) place name attempts (draw w).drawn i := by
        refine ⟨Nat.lt_of_succ_lt_succ h.within, ?_, fun j hj => ?_⟩
        · rw [hshift]
          exact h.vacant
        · rw [hshift]
          exact h.taken (j + 1) (Nat.succ_lt_succ hj)
      have hrun := ih hdrawn hrest
      rw [hshift] at hrun
      exact hrun

include hnames in
theorem createTemporary_run_taken
    (h : ∀ i < attempts, w.tree.get? (place ++ [drawnName w name (w.drawn + i)]) ≠ none) :
    ((createTemporary nest name attempts).run w).1 = .error (.errno .alreadyExists) := by
  induction attempts generalizing w with
  | zero => rfl
  | succ attempts ih =>
    have hdrawn : ∀ s : Suffix, (draw w).Names (nest.child (temporaryName name s.text)) place
        (temporaryName name s.text) := fun s => (hnames s).congr rfl rfl
    have hnext : (draw w).Names (nextTemporary w nest name) place (drawnName w name w.drawn) :=
      hdrawn (w.suffixes w.drawn)
    rw [createTemporary_run_succ, World.Names.create_taken hnext (h 0 (Nat.succ_pos attempts))]
    refine ih hdrawn fun i hi => ?_
    have hshift : (draw w).drawn + i = w.drawn + (i + 1) := by simp only [draw]; omega
    rw [hshift]
    exact h (i + 1) (Nat.succ_lt_succ hi)

/-! ## Staging -/

/-- The tree in which the mode of an output is asked for: its temporary is there, and is private. -/
def beside (w : World) (place : Location) (o : Output) (n : Text) : Tree :=
  w.tree.insert (place ++ [n]) (fileOf o (unmasked privateMode w.umask))

theorem failAfterDiscard_error {α : Type} (temporary : Path) (r : Refusal) (w : World) :
    ∃ r', ((failAfterDiscard temporary r : Script (Except Refusal α)).run w).1 = .error r' := by
  simp only [failAfterDiscard, Script.run_bind]
  cases ((discard temporary).run w).1 with
  | ok _ => exact ⟨r, rfl⟩
  | error r' => exact ⟨r', rfl⟩

variable (hnest : ∀ s : Suffix,
  w.Names ((nursery w o).child (temporaryName o.path.name s.text)) place (temporaryName o.path.name s.text))

include hnest in
/-- Staging with the first vacant name, by the answer to the question for the mode. -/
theorem stage_run (h : FirstFree w place o.path.name maxAttempts w.drawn i) :
    (stage o).run w =
      match modeFor (w.withTree (beside w place o (drawnName w o.path.name (w.drawn + i)))) o.path with
      | .ok m => (.ok ((nursery w o).child (drawnName w o.path.name (w.drawn + i))),
          afterDraws w (w.drawn + i + 1)
            (w.tree.insert (place ++ [drawnName w o.path.name (w.drawn + i)]) (fileOf o (m &&& 0o7777))))
      | .error r => (failAfterDiscard ((nursery w o).child (drawnName w o.path.name (w.drawn + i))) r).run
          (afterDraws w (w.drawn + i + 1) (beside w place o (drawnName w o.path.name (w.drawn + i)))) := by
  have hmade := createTemporary_run_free hnest h
  have hv := h.vacant
  have hat : w.Names ((nursery w o).child (drawnName w o.path.name (w.drawn + i))) place
      (drawnName w o.path.name (w.drawn + i)) := hnest _
  generalize drawnName w o.path.name (w.drawn + i) = n at hmade hv hat ⊢
  generalize hw' : afterDraws w (w.drawn + i + 1)
    (w.tree.insert (place ++ [n]) (.file (unmasked privateMode w.umask) [])) = w' at hmade
  have htree : w'.tree = w.tree.insert (place ++ [n]) (.file (unmasked privateMode w.umask) []) := by rw [← hw']; rfl
  have hcwd : w'.cwd = w.cwd := by rw [← hw']; rfl
  have hnew : w'.Names ((nursery w o).child n) place n := hat.with_file hv htree hcwd
  have hfile : w'.tree.get? (place ++ [n]) = some (.file (unmasked privateMode w.umask) []) := by
    rw [htree, Tree.get?_insert_self]
  have hfilled : ∀ mode, w'.withTree (w'.tree.insert (place ++ [n]) (fileOf o mode)) =
      afterDraws w (w.drawn + i + 1) (w.tree.insert (place ++ [n]) (fileOf o mode)) := by
    intro mode
    rw [htree, Tree.insert_insert, ← hw']
    rfl
  have hmode : ∀ t, modeFor (afterDraws w (w.drawn + i + 1) t) o.path = modeFor (w.withTree t) o.path := fun t =>
    @modeFor_congr (w.withTree t) (afterDraws w (w.drawn + i + 1) t) rfl rfl rfl o.path
  have hfill := fill_run hnew hfile o
  simp only [hfilled, hmode] at hfill
  rw [stage, stageWithin_run, hmade]
  simp only [hfill, beside]
  cases modeFor (w.withTree (w.tree.insert (place ++ [n]) (fileOf o (unmasked privateMode w.umask)))) o.path <;> rfl

include hnest in
theorem stage_taken (h : ∀ i < maxAttempts, w.tree.get? (place ++ [drawnName w o.path.name (w.drawn + i)]) ≠ none) :
    ((stage o).run w).1 = .error (.errno .alreadyExists) := by
  have hmade := createTemporary_run_taken hnest h
  rw [stage, stageWithin_run]
  rcases hrun : (createTemporary (nursery w o) o.path.name maxAttempts).run w with ⟨answer, w'⟩
  rw [hrun] at hmade
  subst hmade
  rfl

include hnest in
theorem firstFree_of_stage {path : Path} (hrun : (stage o).run w = (.ok path, w')) :
    ∃ i, FirstFree w place o.path.name maxAttempts w.drawn i := by
  apply exists_firstFree
  by_contra hnone
  have htaken := stage_taken hnest fun i hi hv => hnone ⟨i, hi, hv⟩
  rw [hrun] at htaken
  cases htaken

end Stage

end NodeGen
