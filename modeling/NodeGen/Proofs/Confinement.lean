/-
  NodeGen.Proofs.Confinement — where a run can write at all.

  To every output belong its own path and the paths that its temporary may get (`Owns`). Paths that belong to
  different outputs of one directory end in different names, as a base name holds neither a slash nor a point
  (`Owns.name_inj`). `Script.Confined` follows a script through all answers that the system could give: whatever
  they are, a run asks for no change but at paths that belong to outputs of its directory (`invoke_confined`), and
  nothing in the tree changes but the entries that these paths name (`invoke_changed`). `output_confined` puts both
  together. The temporaries are made in the absolute form of the directory, with its `..` parts taken back by name;
  it is the directory itself unless a `..` or a link is on the way.
-/

import NodeGen.Proofs.Draws
import NodeGen.Proofs.Effect
import NodeGen.Proofs.Layout
import NodeGen.Proofs.Untouched

namespace NodeGen

/-! ## Paths in normal form -/

namespace Path

variable {p : Path}

def IsPart (part : Text) : Prop := '/' ∉ part ∧ part ≠ [] ∧ part ≠ ['.']

def Normal (p : Path) : Prop := ∀ part ∈ p.parts, IsPart part

theorem normal_ofText (t : Text) : (ofText t).Normal := by
  intro part hpart
  obtain ⟨hsplit, hnamed⟩ := List.mem_filter.mp hpart
  exact ⟨fun hslash => (Text.mem_splitOn hsplit hslash).2 rfl, by simpa using hnamed⟩

theorem Normal.child {name : Text} (h : p.Normal) (hname : IsPart name) : (p.child name).Normal := by
  intro part hpart
  rcases List.mem_append.mp hpart with hpart | hpart
  · exact h part hpart
  · exact List.mem_singleton.mp hpart ▸ hname

theorem partsOf_slash (t : Text) : partsOf ('/' :: t) = partsOf t := by
  simp [partsOf, List.splitOn_cons_eq_if_modifyHead]

theorem partsOf_anchor (anchor : Anchor) (t : Text) : partsOf (anchor.text ++ t) = partsOf t := by
  cases anchor with
  | here => rfl
  | root => exact partsOf_slash t
  | doubleRoot => exact (partsOf_slash _).trans (partsOf_slash t)

theorem partsOf_intercalate {parts : List Text} (h : ∀ part ∈ parts, IsPart part) :
    partsOf (['/'].intercalate parts) = parts := by
  by_cases hparts : parts = []
  · rw [hparts]
    rfl
  · rw [partsOf, List.splitOn_intercalate '/' (fun part hpart => (h part hpart).1) hparts]
    exact List.filter_eq_self.mpr fun part hpart => by simpa using (h part hpart).2

theorem anchor_of_parts {anchor : Anchor} {parts : List Text} (h : ∀ part ∈ parts, IsPart part)
    (hsome : anchor = .here → parts ≠ []) : Anchor.ofText (anchor.text ++ ['/'].intercalate parts) = anchor := by
  cases parts with
  | nil =>
    cases anchor with
    | here => exact absurd rfl (hsome rfl)
    | root => rfl
    | doubleRoot => rfl
  | cons first rest =>
    -- the first part does not go on with a slash
    obtain ⟨hslash, hne, -⟩ := h first List.mem_cons_self
    obtain ⟨c, first, rfl⟩ := List.exists_cons_of_ne_nil hne
    have hc : c ≠ '/' := fun e => hslash (e ▸ List.mem_cons_self)
    obtain ⟨more, hmore⟩ : ∃ more, ['/'].intercalate ((c :: first) :: rest) = c :: more := by
      cases rest with
      | nil => exact ⟨first, List.intercalate_singleton⟩
      | cons next rest => exact ⟨_, List.intercalate_cons_cons⟩
    rw [hmore]
    cases anchor <;> simp [Anchor.ofText, Anchor.text, hc]

/-- A path in normal form is the one that its text spells. -/
theorem Normal.ofText_toText (h : p.Normal) : ofText p.toText = p := by
  obtain ⟨anchor, parts⟩ := p
  unfold toText
  split
  · rename_i hanchor hparts
    cases hanchor
    cases hparts
    rfl
  · rename_i hnot
    have hsome : anchor = .here → parts ≠ [] := fun hanchor hparts => hnot hanchor hparts
    rw [ofText, anchor_of_parts h hsome, partsOf_anchor, partsOf_intercalate h]

end Path

/-! ## Names of outputs and temporaries -/

theorem Target.isPart_fileName (target : Target) {base : Text} (h : Text.isIdentifier base = true) :
    Path.IsPart (target.fileName base) :=
  ⟨fun hslash => (target.fileName_clean h hslash).1 rfl, target.fileName_ne_nil h,
    fun hdot => target.fileName_head h (by rw [hdot]; rfl)⟩

/-- A base name holds no point, so the first one in a file's name is where the extension starts. -/
theorem Target.fileName_eq_iff {t u : Target} {a b : Text} (ha : Text.isIdentifier a = true)
    (hb : Text.isIdentifier b = true) : t.fileName a = u.fileName b ↔ a = b ∧ t = u := by
  constructor
  · intro h
    have hpoint : ∀ {base : Text}, Text.isIdentifier base = true → '.' ∉ base := fun hbase =>
      Text.not_mem_identifier hbase (by decide)
    simp only [fileName, List.append_assoc, List.singleton_append] at h
    obtain ⟨hbase, hextension⟩ := Text.append_first_inj (hpoint ha) (hpoint hb) h
    refine ⟨hbase, ?_⟩
    cases t <;> cases u <;> first | rfl | cases hextension
  · rintro ⟨rfl, rfl⟩
    rfl

namespace Stage

def temporaryOf (cwd : Location) (output : Path) (suffix : Suffix) : Path :=
  (output.parent.absolute cwd).child (temporaryName output.name suffix.text)

/-- The paths that belong to an output: its own, and those that its temporary may get. -/
inductive Owns (cwd : Location) (output : Path) : Path → Prop
  | itself : Owns cwd output output
  | temporary (suffix : Suffix) : Owns cwd output (temporaryOf cwd output suffix)

variable {cwd : Location} {directory p q : Path} {t u : Target} {a b : Text}

theorem name_output (directory : Path) (target : Target) {base : Text} (h : Text.isIdentifier base = true) :
    (directory.output target base).name = target.fileName base := by
  rw [Path.output_eq directory target h, Path.name_child]

theorem name_temporaryOf (cwd : Location) (output : Path) (suffix : Suffix) :
    (temporaryOf cwd output suffix).name = temporaryName output.name suffix.text :=
  Path.name_child _ _

/-- A temporary is hidden, an output is not. -/
theorem name_temporaryOf_ne (h : Text.isIdentifier b = true) (output : Path) (suffix : Suffix) :
    (temporaryOf cwd output suffix).name ≠ (directory.output u b).name := by
  rw [name_temporaryOf, name_output directory u h]
  intro he
  exact u.fileName_head h (he ▸ IsTemporary.head ⟨_, suffix, rfl⟩)

/-- Paths that end in one name belong to one output, in whatever form the way to the directory is written. -/
theorem Owns.name_inj (ha : Text.isIdentifier a = true) (hb : Text.isIdentifier b = true)
    (hp : Owns cwd (directory.output t a) p) (hq : Owns cwd (directory.output u b) q) (h : p.name = q.name) :
    a = b ∧ t = u := by
  rw [← Target.fileName_eq_iff ha hb]
  cases hp with
  | itself =>
    cases hq with
    | itself => rwa [name_output directory t ha, name_output directory u hb] at h
    | temporary suffix => exact absurd h.symm (name_temporaryOf_ne ha _ suffix)
  | temporary suffix =>
    cases hq with
    | itself => exact absurd h (name_temporaryOf_ne hb _ suffix)
    | temporary suffix' =>
      rw [name_temporaryOf, name_temporaryOf, name_output directory t ha, name_output directory u hb] at h
      exact temporaryName_injective h

end Stage

/-! ## What a script may ask for -/

namespace Call

def changes : {α : Type} → Call α → List Path
  | _, .create p => [p]
  | _, .write p _ => [p]
  | _, .chmod p _ => [p]
  | _, .rename old new => [old, new]
  | _, .unlink p => [p]
  | _, _ => []

/-- The one answer that is relied on is the current directory. -/
def Answers (cwd : Location) : {α : Type} → Call α → α → Prop
  | _, .workingDirectory, l => l = cwd
  | _, _, _ => True

end Call

namespace Script

variable {α β : Type} {cwd : Location} {allowed : Path → Prop}

/-- Whatever the answers to its calls, a script asks for no change but at allowed paths, and what it returns has
    a property. -/
def Confined (cwd : Location) (allowed : Path → Prop) (post : α → Prop) : Script α → Prop
  | .done a => post a
  | .call c next => (∀ p ∈ c.changes, allowed p) ∧ ∀ b, c.Answers cwd b → (next b).Confined cwd allowed post

variable {post mid : α → Prop} {s : Script α}

theorem confined_pure {a : α} (h : post a) : (pure a : Script α).Confined cwd allowed post := h

theorem confined_ask {c : Call α} (hchanges : ∀ p ∈ c.changes, allowed p) (h : ∀ a, c.Answers cwd a → post a) :
    (ask c).Confined cwd allowed post := ⟨hchanges, h⟩

theorem Confined.bind {f : α → Script β} {post : β → Prop} (hs : s.Confined cwd allowed mid)
    (hf : ∀ a, mid a → (f a).Confined cwd allowed post) : (s >>= f).Confined cwd allowed post := by
  induction s with
  | done a => exact hf a hs
  | call c next ih => exact ⟨hs.1, fun b hb => ih b (hs.2 b hb)⟩

theorem Confined.mono {allowed' : Path → Prop} {post' : α → Prop} (h : s.Confined cwd allowed post)
    (hallowed : ∀ p, allowed p → allowed' p) (hpost : ∀ a, post a → post' a) : s.Confined cwd allowed' post' := by
  induction s with
  | done a => exact hpost a h
  | call c next ih => exact ⟨fun p hp => hallowed p (h.1 p hp), fun b hb => ih b (h.2 b hb)⟩

/-- A call that changes nothing, with a script behind it. -/
theorem confined_look {c : Call α} {f : α → Script β} {post : β → Prop} (hc : c.changes = [])
    (hf : ∀ a, c.Answers cwd a → (f a).Confined cwd allowed post) : (ask c >>= f).Confined cwd allowed post :=
  (confined_ask (by simp [hc]) fun _ ha => ha).bind hf

/-- A call that changes something at one path, with a script behind it. -/
theorem confined_change {c : Call α} {f : α → Script β} {post : β → Prop} {p : Path} (hc : c.changes = [p])
    (hp : allowed p) (hf : ∀ a, (f a).Confined cwd allowed post) : (ask c >>= f).Confined cwd allowed post :=
  have hasked : (ask c).Confined cwd allowed fun _ => True := confined_ask (by simpa [hc] using hp) fun _ _ => trivial
  hasked.bind fun a _ => hf a

end Script

namespace Stage

open Script

variable {cwd : Location} {allowed : Path → Prop}

theorem createTemporary_confined (directory : Path) (name : Text) (attempts : Nat)
    (h : ∀ s : Suffix, allowed (directory.child (temporaryName name s.text))) :
    (createTemporary directory name attempts).Confined cwd allowed
      fun r => ∀ t, r = .ok t → ∃ s : Suffix, t = directory.child (temporaryName name s.text) := by
  induction attempts with
  | zero => exact confined_pure (by simp)
  | succ attempts ih =>
    refine confined_look rfl fun suffix _ => confined_change rfl (h suffix) fun answer => ?_
    rcases answer with r | _
    · -- a name that is taken leads to the next attempt, any other refusal ends them
      cases r with
      | nulInPath => exact confined_pure (by simp)
      | errno e => cases e <;> first | exact ih | exact confined_pure (by simp)
    · refine confined_pure fun t ht => ⟨suffix, ?_⟩
      cases ht
      rfl

theorem discard_confined {temporary : Path} (h : allowed temporary) :
    (discard temporary).Confined cwd allowed fun _ => True := by
  refine confined_change rfl h fun answer => ?_
  split <;> exact confined_pure trivial

theorem failAfterDiscard_confined {α : Type} {temporary : Path} (h : allowed temporary) (r : Refusal) :
    (failAfterDiscard temporary r : Script (Except Refusal α)).Confined cwd allowed
      fun answer => ∃ r', answer = .error r' := by
  refine (discard_confined h).bind fun answer _ => ?_
  cases answer <;> exact confined_pure ⟨_, rfl⟩

theorem fill_confined {temporary : Path} (h : allowed temporary) (o : Output) :
    (fill temporary o).Confined cwd allowed fun _ => True := by
  refine confined_change rfl h fun answer => ?_
  cases answer with
  | error r => exact confined_pure trivial
  | ok _ =>
    have hmode : (outputMode o.path).Confined cwd allowed fun _ => True := by
      refine confined_look rfl fun answer _ => ?_
      split
      · exact confined_look rfl fun umask _ => confined_pure trivial
      · exact confined_pure trivial
    refine hmode.bind fun mode _ => ?_
    cases mode with
    | error r => exact confined_pure trivial
    | ok m => exact confined_ask (by simpa [Call.changes] using h) fun _ _ => trivial

theorem stage_confined (o : Output) : (stage o).Confined cwd (Owns cwd o.path)
    fun r => ∀ temporary, r = .ok temporary → Owns cwd o.path temporary := by
  refine confined_look rfl fun l hl => ?_
  obtain rfl : l = cwd := hl
  refine (createTemporary_confined _ o.path.name maxAttempts fun s => .temporary s).bind fun made hmade => ?_
  cases made with
  | error r => exact confined_pure (by simp)
  | ok temporary =>
    obtain ⟨s, rfl⟩ := hmade temporary rfl
    have howned : Owns l o.path (temporaryOf l o.path s) := .temporary s
    refine (fill_confined howned o).bind fun filled _ => ?_
    cases filled with
    | ok _ =>
      refine confined_pure fun t ht => ?_
      cases ht
      exact howned
    | error r =>
      refine (failAfterDiscard_confined howned r).mono (fun _ h => h) fun answer hanswer t ht => ?_
      obtain ⟨r', rfl⟩ := hanswer
      cases ht

theorem commit_confined {x : Staged} (htemporary : allowed x.temporary) (hpath : allowed x.path) :
    (commit x).Confined cwd allowed fun _ => True := by
  have hasked : (ask (.rename x.temporary x.path)).Confined cwd allowed fun _ => True :=
    confined_ask (by simp [Call.changes, htemporary, hpath]) fun _ _ => trivial
  refine hasked.bind fun answer _ => ?_
  cases answer with
  | ok _ => exact confined_pure trivial
  | error r => exact (failAfterDiscard_confined htemporary r).mono (fun _ h => h) fun _ _ => trivial

/-- Everything that is staged belongs to one of the outputs. -/
theorem stageAll_confined {outputs : List Output} (h : ∀ o ∈ outputs, ∀ p, Owns cwd o.path p → allowed p) :
    (stageAll outputs).Confined cwd allowed fun r => ∀ x ∈ r.1, allowed x.temporary ∧ allowed x.path := by
  induction outputs with
  | nil => exact confined_pure (by simp)
  | cons o rest ih =>
    obtain ⟨ho, hrest⟩ := List.forall_mem_cons.mp h
    refine ((stage_confined o).mono ho fun _ hpost => hpost).bind fun staged hstaged => ?_
    cases staged with
    | error r => exact confined_pure (by simp)
    | ok temporary =>
      refine (ih hrest).bind fun more hmore => confined_pure ?_
      exact List.forall_mem_cons.mpr ⟨⟨ho _ (hstaged temporary rfl), ho _ .itself⟩, hmore⟩

/-- What is left staged was staged before. -/
theorem commitAll_confined {staged : List Staged} (h : ∀ x ∈ staged, allowed x.temporary ∧ allowed x.path) :
    (commitAll staged).Confined cwd allowed fun r => ∀ x ∈ r.2.1, x ∈ staged := by
  induction staged with
  | nil => exact confined_pure (by simp)
  | cons x rest ih =>
    obtain ⟨hx, hrest⟩ := List.forall_mem_cons.mp h
    refine (commit_confined hx.1 hx.2).bind fun answer _ => ?_
    cases answer with
    | error r => exact confined_pure fun y hy => List.mem_cons_of_mem _ hy
    | ok _ => exact (ih hrest).bind fun more hmore => confined_pure fun y hy => List.mem_cons_of_mem _ (hmore y hy)

theorem cleanUp_confined {staged : List Staged} (h : ∀ x ∈ staged, allowed x.temporary) (o : Outcome) :
    (cleanUp o staged).Confined cwd allowed fun _ => True := by
  have hall : (discardAll staged).Confined cwd allowed fun _ => True := by
    induction staged with
    | nil => exact confined_pure trivial
    | cons x rest ih =>
      obtain ⟨hx, hrest⟩ := List.forall_mem_cons.mp h
      refine (discard_confined hx).bind fun answer _ => ?_
      cases answer with
      | ok _ => exact ih hrest
      | error r => exact confined_pure trivial
  refine hall.bind fun answer _ => ?_
  cases answer <;> exact confined_pure trivial

theorem writeAll_confined {outputs : List Output} (h : ∀ o ∈ outputs, ∀ p, Owns cwd o.path p → allowed p) :
    (writeAll outputs).Confined cwd allowed fun _ => True := by
  refine (stageAll_confined h).bind fun r hr => ?_
  obtain ⟨staged, stop⟩ := r
  cases stop with
  | some stop => exact cleanUp_confined (fun x hx => (hr x hx).1) _
  | none =>
    refine (commitAll_confined hr).bind fun r hleft => ?_
    obtain ⟨done, left, stop⟩ := r
    cases stop with
    | some stop => exact cleanUp_confined (fun x hx => (hr x (hleft x hx)).1) _
    | none => exact confined_pure trivial

/-! ## What a run has changed -/

variable {w w₀ w' : World} {directory : Path} {T D : Location} {done pending : List Parcel} {outputs : List Output}
  {outcome : Outcome}

def Entry (w : World) (outputs : List Output) (l : Location) : Prop :=
  ∃ o ∈ outputs, ∃ p d n, Owns w.cwd o.path p ∧ w.Names p d n ∧ l = d ++ [n]

/-- What is in the tree at some moment of the work and was not there before stands in the place of a temporary that
    waits or of an output that was put in its place. -/
theorem Underway.changed (hu : Underway w₀ T D done pending w) (hready : ∀ q ∈ pending, q.Ready w₀ directory T)
    (hdone : ∀ q ∈ done, q.output ∈ outputs) (hpending : ∀ q ∈ pending, q.output ∈ outputs) {l : Location}
    (h : w.tree.get? l ≠ w₀.tree.get? l) : Entry w₀ outputs l := by
  rw [hu.tree] at h
  cases hl : Tree.find l (pending.map (Parcel.waiting T) ++ done.map (Parcel.placed D)) with
  | none =>
    rw [hl, Option.none_or] at h
    exact absurd rfl h
  | some node =>
    rcases List.mem_append.mp (Tree.mem_of_find hl) with hmem | hmem
    · obtain ⟨q, hq, he⟩ := List.mem_map.mp hmem
      cases he
      obtain ⟨s, hs⟩ := (hready q hq).named
      have howned : Owns w₀.cwd q.output.path ((directory.absolute w₀.cwd).child q.name) := by
        have hdirectory : q.output.path.parent = directory := by
          rw [(hready q hq).fits.path, Path.parent_child]
        rw [hs, ← hdirectory]
        exact .temporary s
      exact ⟨q.output, hpending q hq, _, T, q.name, howned, (hready q hq).names, rfl⟩
    · obtain ⟨q, hq, he⟩ := List.mem_map.mp hmem
      cases he
      exact ⟨q.output, hdone q hq, _, D, _, .itself, (hu.places q hq).1, rfl⟩

theorem Ended.changed (h : Ended w directory outputs outcome w') {l : Location}
    (hl : w'.tree.get? l ≠ w.tree.get? l) : Entry w outputs l := by
  cases h with
  | unstaged pre o post staged e w₁ w₂ _ hout hpre hfail hsame => exact absurd (hsame l) hl
  | written T D trail parcels w₁ _ hplan hcommit hclear hu =>
    exact hu.changed (Cargo.nil w directory T).ready (fun q hq => hplan.covers ▸ List.mem_map_of_mem hq) (by simp) hl
  | refused T D trail pre p rest e w₁ w₂ w₃ _ hplan hpre hfail hclear hbefore hrename hu =>
    refine hu.changed (Cargo.nil w directory T).ready (fun q hq => ?_) (by simp) hl
    exact hplan.covers ▸ List.mem_map_of_mem (List.mem_append_left _ hq)
  | cut T D trail pre p rest w₁ _ hplan hclear hu =>
    have hmem : ∀ q ∈ pre ++ p :: rest, q.output ∈ outputs := fun q hq => hplan.covers ▸ List.mem_map_of_mem hq
    exact hu.changed (Cargo.right hplan.cargo).ready (fun q hq => hmem q (List.mem_append_left _ hq))
      (fun q hq => hmem q (List.mem_append_right _ hq)) hl

end Stage

/-! ## Runs -/

theorem Grammar.load_confined (p : Path) (cwd : Location) :
    (Grammar.load p).Confined cwd (fun _ => False) fun _ => True := by
  refine Script.confined_look rfl fun answer _ => ?_
  cases answer with
  | error r => exact Script.confined_pure trivial
  | ok bytes =>
    simp only
    split <;> exact Script.confined_pure trivial

theorem Check.checkFrom_confined (reports : List Report) (outputs : List Output) (cwd : Location) :
    (checkFrom reports outputs).Confined cwd (fun _ => False) fun _ => True := by
  induction outputs generalizing reports with
  | nil => exact Script.confined_pure trivial
  | cons o rest ih =>
    have hone : (checkOne o).Confined cwd (fun _ => False) fun _ => True := by
      refine Script.confined_look rfl fun mode _ => ?_
      cases mode with
      | error r => exact Script.confined_pure trivial
      | ok m =>
        refine Script.confined_look rfl fun content _ => ?_
        split <;> exact Script.confined_pure trivial
    refine hone.bind fun answer _ => ?_
    cases answer with
    | ok report => exact ih _
    | error r => exact Script.confined_pure trivial

namespace Command

open Stage

variable {w : World} {cwd : Location} {directory p : Path} {arguments : List Text} {s : Settings}

/-- The paths that a run with an output directory may change anything at: those that belong to an output, whatever
    its base name. -/
def Assigned (directory : Path) (cwd : Location) (p : Path) : Prop :=
  ∃ target base, Text.isIdentifier base = true ∧ Owns cwd (directory.output target base) p

/-- All of them are in the directory, as it is given or in its absolute form. -/
theorem Assigned.parent (h : Assigned directory cwd p) :
    p.parent = directory ∨ p.parent = directory.absolute cwd := by
  obtain ⟨target, base, hbase, howned⟩ := h
  have houtput := Path.output_eq directory target hbase
  cases howned with
  | itself => exact Or.inl (by rw [houtput, Path.parent_child])
  | temporary suffix => exact Or.inr (by rw [temporaryOf, Path.parent_child, houtput, Path.parent_child])

theorem runGrammar_confined (s : Settings) (g : Grammar) (cwd : Location) :
    (runGrammar s g).Confined cwd (Assigned (Path.ofText s.directory) cwd) fun _ => True := by
  unfold runGrammar
  split
  · exact Script.confined_pure trivial
  · rename_i ds hds
    split
    · exact Script.confined_pure trivial
    · rename_i target _
      by_cases hcheck : s.check = true
      · rw [if_pos hcheck]
        exact (Check.checkFrom_confined [] _ cwd).mono (fun _ h => h.elim) fun _ h => h
      · rw [if_neg hcheck]
        refine writeAll_confined fun o ho p hp => ?_
        obtain ⟨d, hd, rfl⟩ := List.mem_map.mp ho
        exact ⟨target, d.base, (Descriptor.parseGrammar_bases hds).2 d hd, hp⟩

theorem invoke_confined (hparse : parse arguments = .ok s) (cwd : Location) :
    (invoke arguments).Confined cwd (Assigned (Path.ofText s.directory) cwd) fun _ => True := by
  simp only [invoke, hparse]
  unfold run
  split
  · exact runGrammar_confined s _ cwd
  · refine ((Grammar.load_confined _ cwd).mono (fun _ h => h.elim) fun _ h => h).bind fun loaded _ => ?_
    cases loaded with
    | ok g => exact runGrammar_confined s g cwd
    | error e => exact Script.confined_pure trivial

/-- All that a run has changed are entries that belong to its outputs. -/
theorem invoke_changed (hparse : parse arguments = .ok s) {l : Location}
    (hl : ((invoke arguments).run w).2.tree.get? l ≠ w.tree.get? l) :
    ∃ p d n, Assigned (Path.ofText s.directory) w.cwd p ∧ w.Names p d n ∧ l = d ++ [n] := by
  by_cases hcheck : s.check = true
  · have hidle : Idle w arguments := .checking s hparse hcheck
    rw [hidle.still.run_eq] at hl
    exact absurd rfl hl
  · have hwriting : ∀ s', parse arguments = .ok s' → s'.check = false := by
      intro s' hs'
      rw [hparse] at hs'
      cases hs'
      simpa using hcheck
    rcases invoke_cases w hwriting with ⟨hw, -⟩ | ⟨s', g, ds, target, hs', hg, hds, -, hrun⟩
    · rw [hw] at hl
      exact absurd rfl hl
    · rw [hparse] at hs'
      cases hs'
      obtain ⟨hne, hnodup⟩ := grammarOf_bases hg
      have hids := (Descriptor.parseGrammar_bases hds).2
      have houtputs : outputs s target ds ≠ [] := outputs_ne_nil hne hds target
      rw [hrun] at hl
      rcases fits_or_unchanged w s target (fun he => houtputs (by rw [he]; rfl)) hids with hfits | ⟨hsame, -⟩
      · have hended := writeAll_cases hfits (outputs_distinct hnodup hds target) houtputs
        obtain ⟨o, ho, p, d, n, howned, hnames, heq⟩ := hended.changed hl
        obtain ⟨x, hx, rfl⟩ := List.mem_map.mp ho
        exact ⟨p, d, n, ⟨target, x.base, hids x hx, howned⟩, hnames, heq⟩
      · exact absurd (hsame l) hl

/-- In a plain directory the paths of outputs and of temporaries name entries of this one directory. -/
theorem Assigned.place {d : Location} {n : Text} (h : Assigned directory w.cwd p) (hw : w.Rooted)
    (hp : Plain w directory) (hn : w.Names p d n) : d = spelled w directory := by
  obtain ⟨target, base, hbase, howned⟩ := h
  obtain ⟨⟨trail, hwalks⟩, hdir⟩ := Tree.walkDirectory_eq_ok_iff.mp hn.reached
  have houtput := Path.output_eq directory target hbase
  cases howned with
  | itself =>
    rw [houtput, Path.dropLast_child] at hwalks
    exact (hwalks.straight hp).2
  | temporary suffix =>
    rw [temporaryOf, houtput, Path.parent_child, Path.dropLast_child] at hwalks
    exact (hp.nest hw ⟨hwalks, hdir⟩).2.1

/-- An output lies in the directory as it is written in normal form, under the base name and the extension. The
    outputs of different base names or targets are different, and so are all paths that belong to them, by their last
    names even; no temporary has the name of an output. So whatever grammar a run is given and whatever the system
    answers, the run asks for no change but at paths that belong to outputs of the directory; and it changes nothing
    but entries that these paths name, which are entries of the directory itself if there is neither a link nor a
    `..` on the way to it. -/
theorem output_confined (directory : Text) {a b : Text} (ha : Text.isIdentifier a = true)
    (hb : Text.isIdentifier b = true) (t u : Target) :
    ((Path.ofText directory).output t a).parent = Path.ofText directory ∧
    ((Path.ofText directory).output t a).name = a ++ ['.'] ++ t.extension ∧
    Path.ofText ((Path.ofText directory).output t a).toText = (Path.ofText directory).output t a ∧
    ((Path.ofText directory).output t a = (Path.ofText directory).output u b ↔ a = b ∧ t = u) ∧
    (∀ cwd p q, Owns cwd ((Path.ofText directory).output t a) p → Owns cwd ((Path.ofText directory).output u b) q →
      p.name = q.name → a = b ∧ t = u) ∧
    (∀ cwd suffix, (temporaryOf cwd ((Path.ofText directory).output t a) suffix).name ≠
      ((Path.ofText directory).output u b).name) ∧
    (∀ cwd p, Assigned (Path.ofText directory) cwd p →
      p.parent = Path.ofText directory ∨ p.parent = (Path.ofText directory).absolute cwd) ∧
    ∀ arguments s, parse arguments = .ok s → s.directory = directory →
      (∀ cwd, (invoke arguments).Confined cwd (Assigned (Path.ofText directory) cwd) fun _ => True) ∧
      ∀ w l, ((invoke arguments).run w).2.tree.get? l ≠ w.tree.get? l →
        ∃ p d n, Assigned (Path.ofText directory) w.cwd p ∧ w.Names p d n ∧ l = d ++ [n] ∧
          (w.Rooted → Plain w (Path.ofText directory) → d = spelled w (Path.ofText directory)) := by
  have houtput := Path.output_eq (Path.ofText directory) t ha
  refine ⟨by rw [houtput, Path.parent_child], name_output _ t ha, ?_, ⟨fun h => ?_, ?_⟩,
    fun cwd p q hp hq => hp.name_inj ha hb hq, fun cwd suffix => name_temporaryOf_ne hb _ suffix,
    fun cwd p hp => hp.parent, ?_⟩
  · rw [houtput]
    exact ((Path.normal_ofText directory).child (t.isPart_fileName ha)).ofText_toText
  · have hitself : ∀ output, Owns [] output output := fun output => .itself
    exact (hitself _).name_inj ha hb (hitself _) (congrArg Path.name h)
  · rintro ⟨rfl, rfl⟩
    rfl
  · rintro arguments s hparse rfl
    refine ⟨invoke_confined hparse, fun w l hl => ?_⟩
    obtain ⟨p, d, n, hassigned, hnames, heq⟩ := invoke_changed hparse hl
    exact ⟨p, d, n, hassigned, hnames, heq, fun hw hp => hassigned.place hw hp hnames⟩

theorem output_confined_two :
    ((Path.ofText "a//b/./../".toList).output .java "Expr".toList).name = "Expr.java".toList ∧
    (Path.ofText "a//b/./../".toList).output .java "Expr".toList ≠
      (Path.ofText "a//b/./../".toList).output .python "Stmt".toList ∧
    (∀ suffix, (temporaryOf [] ((Path.ofText "a//b/./../".toList).output .java "Expr".toList) suffix).name ≠
      ((Path.ofText "a//b/./../".toList).output .python "Stmt".toList).name) ∧
    (invoke ["a//b/./../".toList]).Confined [] (Assigned (Path.ofText "a//b/./../".toList) []) fun _ => True := by
  obtain ⟨-, hname, -, hiff, -, htemporary, -, hrun⟩ :=
    output_confined "a//b/./../".toList (a := "Expr".toList) (b := "Stmt".toList) (by decide) (by decide) .java .python
  have hparse : parse ["a//b/./../".toList] = .ok ⟨"a//b/./../".toList, [], some .java, "lox".toList, false⟩ := rfl
  exact ⟨hname, fun h => absurd (hiff.mp h).1 (by decide), htemporary [], (hrun _ _ hparse rfl).1 []⟩

end Command

end NodeGen
