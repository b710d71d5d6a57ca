/-
  NodeGen.Proofs.AllOrNothing — what a failed run has changed.

  Staging is all or nothing, but outputs are put in their places one after the other, and a later one
  may still be refused. `failed_run`: a run that fails has changed nothing exactly if every output that
  it reported as generated was in its place already (`Current`), and if it reported any, it stopped at
  an output that was `Blocked`. `halfway` is a tree where a directory has the name of the second output:
  the first one is replaced all the same.
-/

import NodeGen.Proofs.Cleanup

namespace NodeGen

namespace Stage

variable {w w₀ w' : World} {directory : Path} {T D : Location} {trail : List Location}
  {done pending : List Parcel} {outputs : List Output} {o : Output} {outcome : Outcome}

def Current (w : World) (o : Output) : Prop :=
  ∃ d mode, w.Names o.path d o.path.name ∧ w.tree.get? (d ++ [o.path.name]) = some (fileOf o (mode &&& 0o7777))

theorem ModeOf.eq_and {beside : List (Location × Nat)} {p : Path} {mode : Nat} {d : Location} {n : Text}
    {node : Node} (h : ModeOf w beside p mode) (hn : w.Names p d n) (hg : w.tree.get? (d ++ [n]) = some node) (hlink : ∀ target, node ≠ .link target) :
    mode = node.mode &&& 0o7777 := by
  have hs := hn.stat_eq hg hlink
  cases h with
  | kept hm => rw [hm] at hs; cases hs; rfl
  | new hm _ => rw [hm] at hs; cases hs
  | temporary hd _ => rw [hd.stat_eq] at hs; cases hs

theorem nodup_placed (h : (done.map (·.output.path.name)).Nodup) :
    ((done.map (Parcel.placed D)).map Prod.fst).Nodup := by
  rw [List.map_map]
  rw [show (Prod.fst ∘ Parcel.placed D) = (D ++ [·]) ∘ fun q : Parcel => q.output.path.name from rfl,
    ← List.map_map]
  exact List.Pairwise.map _ (fun a b hab e => hab (by simpa using e)) h

theorem Underway.placed (hu : Underway w₀ T D done [] w) (hdistinct : (done.map (·.output.path.name)).Nodup)
    {q : Parcel} (hq : q ∈ done) : w.tree.get? (D ++ [q.output.path.name]) = some q.node := by
  rw [hu.tree, List.map_nil, List.nil_append, Tree.find_of_mem (nodup_placed hdistinct) (List.mem_map_of_mem hq),
    Option.some_or]

/-- What was put in its place makes a difference unless it stood there already. -/
theorem Underway.same_iff (hu : Underway w₀ T D done [] w) (hready : ∀ q ∈ done, q.Ready w₀ directory T)
    (hdistinct : (done.map (·.output.path.name)).Nodup) :
    (∀ l, w.tree.get? l = w₀.tree.get? l) ↔ ∀ q ∈ done, Current w₀ q.output := by
  constructor
  · intro h q hq
    have hg := (h _).symm.trans (hu.placed hdistinct hq)
    have hnames := (hu.places q hq).1
    obtain ⟨beside, hmode⟩ := (hready q hq).mode
    have hmode := hmode.eq_and hnames hg (by simp [Parcel.node, fileOf])
    refine ⟨D, q.mode, hnames, ?_⟩
    rw [hg, Parcel.node]
    exact congrArg (fun mode => some (fileOf q.output mode)) hmode
  · intro h l
    rw [hu.tree, List.map_nil, List.nil_append]
    cases hl : Tree.find l (done.map (Parcel.placed D)) with
    | none => rw [Option.none_or]
    | some node =>
      obtain ⟨q, hq, he⟩ := List.mem_map.mp (Tree.mem_of_find hl)
      cases he
      obtain ⟨d, mode, hnames, hg⟩ := h q hq
      obtain ⟨rfl, -⟩ := hnames.unique (hu.places q hq).1
      obtain ⟨beside, hmode⟩ := (hready q hq).mode
      have hmode := hmode.eq_and hnames hg (by simp [fileOf])
      simp only [fileOf, Node.mode, Nat.and_assoc, Nat.and_self] at hmode
      rw [hg, Option.some_or, Parcel.node, hmode]

theorem eq_of_name {a b : Output} (hd : (outputs.map (·.path.name)).Nodup) (ha : a ∈ outputs) (hb : b ∈ outputs)
    (h : a.path.name = b.path.name) : a = b := by
  induction outputs with
  | nil => cases ha
  | cons o rest ih =>
    obtain ⟨hnot, hd⟩ := List.nodup_cons.mp hd
    rcases List.mem_cons.mp ha with rfl | ha'
    · rcases List.mem_cons.mp hb with rfl | hb'
      · rfl
      · exact absurd (List.mem_map.mpr ⟨b, hb', h.symm⟩) hnot
    · rcases List.mem_cons.mp hb with rfl | hb'
      · exact absurd (List.mem_map.mpr ⟨a, ha', h⟩) hnot
      · exact ih hd ha' hb'

theorem Ended.unchanged_iff (h : Ended w directory outputs outcome w') (hd : (outputs.map (·.path.name)).Nodup)
    (hexit : outcome.ending ≠ .exit 0) :
    (∀ l, w'.tree.get? l = w.tree.get? l) ↔
      ∀ o ∈ outputs, .generated o.path ∈ outcome.reports → Current w o := by
  cases h with
  | unstaged pre o post staged e w₁ w₂ _ hout hpre hfail hsame =>
    refine ⟨fun _ o ho hg => ?_, fun _ => hsame⟩
    cases List.mem_singleton.mp hg
  | written => exact absurd rfl hexit
  | refused T D trail pre p rest e w₁ w₂ w₃ _ hplan hpre hfail hclear hbefore hrename hu =>
    have hready : ∀ q ∈ pre, q.Ready w directory T := fun q hq =>
      hplan.cargo.ready q (List.mem_append_left _ hq)
    have hmem : ∀ q ∈ pre, q.output ∈ outputs := fun q hq =>
      hplan.covers ▸ List.mem_map_of_mem (List.mem_append_left _ hq)
    have hnames : (pre.map (·.output.path.name)).Nodup := by
      rw [← hplan.covers, List.map_map, List.map_append] at hd
      exact (List.nodup_append.mp hd).1
    rw [hu.same_iff hready hnames]
    constructor
    · intro h o ho hg
      obtain ⟨q, hq, hpath⟩ := mem_generated hg
      exact eq_of_name hd (hmem q hq) ho (congrArg Path.name hpath) ▸ h q hq
    · intro h q hq
      exact h _ (hmem q hq) (List.mem_append_left _ (List.mem_map.mpr ⟨q, hq, rfl⟩))
  | cut T D trail pre p rest w₁ _ hplan hclear hu =>
    have hc' : Cargo w directory T (p :: rest) := Cargo.right hplan.cargo
    refine ⟨fun hsame => absurd (fun l _ _ _ => hsame l) (hu.left hc'), fun h => ?_⟩
    refine absurd (fun q hq hmem => ?_) hclear
    -- the output that cut the way replaced a link, so no file stood there before
    have ho : q.output ∈ outputs := hplan.covers ▸ List.mem_map_of_mem (List.mem_append_left _ hq)
    obtain ⟨d, mode, hnames, hg⟩ := h _ ho (List.mem_append_left _ (List.mem_map.mpr ⟨q, hq, rfl⟩))
    obtain ⟨rfl, -⟩ := hnames.unique (hu.places q hq).1
    obtain ⟨target, hlink⟩ := hplan.nest.walks.mem_link _ hmem
    rw [hlink] at hg
    cases hg

/-! ## Why a later output is refused -/

/-- What keeps an output from its place once the outputs of `pre` are in theirs: a directory stands
    there, or one that the temporaries lie below; or one of `pre` replaced a link on the way to the
    place or to the temporaries. -/
inductive Blocked (w : World) (directory : Path) (pre : List Output) (o : Output) : Prop
  | occupied (d : Location) : w.Names o.path d o.path.name →
      w.tree.isDirectory (d ++ [o.path.name]) = true → Blocked w directory pre o
  | above (d T : Location) (trail : List Location) : w.Names o.path d o.path.name →
      Nest w (directory.absolute w.cwd) T trail → d ++ [o.path.name] <+: T → Blocked w directory pre o
  | cutOff (q : Output) : q ∈ pre → OnWay w directory q ∨ OnWay w (directory.absolute w.cwd) q →
      Blocked w directory pre o

/-- A failed run that generated an output stopped at a later one that was blocked. -/
theorem Ended.blocked {path : Path} (h : Ended w directory outputs outcome w') (hexit : outcome.ending ≠ .exit 0)
    (hg : .generated path ∈ outcome.reports) :
    ∃ pre o post e, outputs = pre ++ o :: post ∧
      outcome.reports = pre.map (.generated ·.path) ++ [.unwritable o.path e] ∧ Blocked w directory pre o := by
  cases h with
  | unstaged => cases List.mem_singleton.mp hg
  | written => exact absurd rfl hexit
  | refused T D trail pre p rest e w₁ w₂ w₃ _ hplan hpre hfail hclear hbefore hrename hu =>
    have hc' : Cargo w directory T (p :: rest) := Cargo.right hplan.cargo
    have hready := hc'.ready p List.mem_cons_self
    refine ⟨pre.map Parcel.output, p.output, rest.map Parcel.output, e, ?_, by simp [List.map_map], ?_⟩
    · rw [← hplan.covers, List.map_append, List.map_cons]
    obtain ⟨q, hq, -⟩ := mem_generated hg
    have hreach : w.tree.walkDirectory (w.start (Route.ofPath directory)) directory.parts = .ok D := by
      have h := (hu.places q hq).1.reached
      rw [(Cargo.fits_left hplan.cargo q hq).path, Path.dropLast_child] at h
      exact h
    obtain ⟨⟨way, hwalks⟩, hdir⟩ := Tree.walkDirectory_eq_ok_iff.mp hreach
    by_cases hway : Clear way D pre
    · have hreach₂ := hbefore.reached hc' ⟨hwalks, hdir⟩ hway
      rcases hbefore.rename_error hc' hplan.nest hclear hreach₂ hrename with ⟨-, h⟩ | ⟨-, h⟩
      · exact .above D T trail (hready.names_of_reached hreach) hplan.nest h
      · exact .occupied D (hready.names_of_reached hreach) h
    · obtain ⟨q, hq, hmem⟩ := exists_of_not_clear hway
      exact .cutOff q.output (List.mem_map_of_mem hq)
        (Or.inl ⟨D, way, D, ⟨hwalks, hdir⟩, (hu.places q hq).1, hmem⟩)
  | cut T D trail pre p rest w₁ _ hplan hclear hu =>
    refine ⟨pre.map Parcel.output, p.output, rest.map Parcel.output, .notDirectory, ?_, ?_, ?_⟩
    · rw [← hplan.covers, List.map_append, List.map_cons]
    · simp [List.map_map]
    obtain ⟨q, hq, hmem⟩ := exists_of_not_clear hclear
    exact .cutOff q.output (List.mem_map_of_mem hq)
      (Or.inr ⟨T, trail, D, hplan.nest, (hu.places q hq).1, hmem⟩)

end Stage

namespace Command

open Stage

variable {w : World} {arguments : List Text} {s : Settings} {ds : List Descriptor}

/-- Unless all paths of a batch are free of NULs, nothing is staged. -/
theorem fits_or_unchanged (w : World) (s : Settings) (target : Target) (hne : ds ≠ [])
    (hids : ∀ d ∈ ds, Text.isIdentifier d.base = true) :
    (∀ o ∈ outputs s target ds, Fits w (Path.ofText s.directory) o) ∨
      (∀ l, ((writeAll (outputs s target ds)).run w).2.tree.get? l = w.tree.get? l) ∧
        (∀ path, .generated path ∉ ((writeAll (outputs s target ds)).run w).1.reports) ∧
        ((writeAll (outputs s target ds)).run w).1.ending ≠ .exit 0 := by
  obtain ⟨d, rest, rfl⟩ := List.exists_cons_of_ne_nil hne
  rcases stageWithin_cases maxAttempts w (output (Path.ofText s.directory) target s.package d) with
    ⟨r, w', hrun, ht, -⟩ | ⟨p, dir, n, mode, w', -, hl⟩
  · right
    have hall : (writeAll (outputs s target (d :: rest))).run w =
        (stopped [] ⟨(output (Path.ofText s.directory) target s.package d).path, r⟩, w') := by
      simp only [outputs, List.map_cons, writeAll, stageAll, stage, Script.run_bind, hrun]
      rfl
    rw [hall]
    refine ⟨fun l => by rw [ht], fun path hg => ?_, ?_⟩
    · cases r <;> simp [stopped] at hg
    · cases r <;> simp [stopped]
  · left
    obtain ⟨hclean, htemporary⟩ := hl.clean
    have hd : (output (Path.ofText s.directory) target s.package d).path =
        (Path.ofText s.directory).child (target.fileName d.base) :=
      Path.output_eq _ target (hids d List.mem_cons_self)
    have hdir : ∀ part ∈ (Path.ofText s.directory).parts, '\x00' ∉ part := fun part hp =>
      Path.parts_clean hclean (by rw [hd]; exact List.mem_append_left _ hp)
    have hnest : ∀ part ∈ ((Path.ofText s.directory).absolute w.cwd).parts, '\x00' ∉ part := fun part hp => by
      refine Path.parts_clean htemporary ?_
      rw [hl.path, nursery, hd, Path.parent_child]
      exact List.mem_append_left _ hp
    intro o ho
    obtain ⟨x, hx, rfl⟩ := List.mem_map.mp ho
    exact fits_of_clean hdir hnest (hids x hx)

def planned (w : World) (arguments : List Text) : List Output :=
  match parse arguments with
  | .error _ => []
  | .ok s =>
    match grammarOf w s with
    | .error _ => []
    | .ok g =>
      match Descriptor.parseGrammar g, s.target with
      | .ok ds, some target => outputs s target ds
      | _, _ => []

theorem loadFailed_reports {name : Text} (e : LoadError) (path : Path) :
    .generated path ∉ (loadFailed name e).reports := by
  intro h
  rcases e with (e | _) | ⟨p, flaw⟩ | digits
  · cases List.mem_singleton.mp h
  · cases h
  · cases List.mem_singleton.mp h
  · cases h

/-- A run without a check writes the outputs that were planned, or it does nothing to any file. -/
theorem invoke_cases (w : World) (hwriting : ∀ s, parse arguments = .ok s → s.check = false) :
    (((invoke arguments).run w).2 = w ∧ planned w arguments = [] ∧
      ∀ path, .generated path ∉ ((invoke arguments).run w).1.reports) ∨
    ∃ s g ds target, parse arguments = .ok s ∧ grammarOf w s = .ok g ∧ Descriptor.parseGrammar g = .ok ds ∧
      planned w arguments = outputs s target ds ∧
      (invoke arguments).run w = (writeAll (outputs s target ds)).run w := by
  cases hp : parse arguments with
  | error halt =>
    refine Or.inl ⟨?_, by simp only [planned, hp], fun path h => ?_⟩
    · cases halt <;> (simp only [invoke, hp]; rfl)
    · cases halt <;> simp only [invoke, hp] at h <;> cases List.mem_singleton.mp h
  | ok s =>
    have hinvoke : invoke arguments = run s := by simp only [invoke, hp]
    rw [hinvoke]
    cases hg : grammarOf w s with
    | error e =>
      rw [run_loadFailed hg]
      exact Or.inl ⟨rfl, by simp only [planned, hp, hg], loadFailed_reports e⟩
    | ok g =>
      rw [run_eq hg]
      cases hds : Descriptor.parseGrammar g with
      | error fault =>
        refine Or.inl ⟨?_, by simp only [planned, hp, hg, hds], fun path h => ?_⟩
        · simp only [runGrammar, hds]
          rfl
        · simp only [runGrammar, hds] at h
          cases List.mem_singleton.mp h
      | ok ds =>
        cases ht : s.target with
        | none =>
          refine Or.inl ⟨?_, by simp only [planned, hp, hg, hds, ht], fun path h => ?_⟩
          · simp only [runGrammar, hds, ht]
            rfl
          · simp only [runGrammar, hds, ht] at h
            cases h
        | some target =>
          refine Or.inr ⟨s, g, ds, target, rfl, hg, hds, by simp only [planned, hp, hg, hds, ht], ?_⟩
          simp only [runGrammar, hds, ht, hwriting s hp]
          rfl

/-- A run that writes and fails, by an exit code other than zero or by an abort, has changed nothing
    exactly if every output that it reported as generated stood in its place already. If it reported
    any, it stopped at a later one that was blocked. -/
theorem failed_run (hwriting : ∀ s, parse arguments = .ok s → s.check = false)
    (hexit : ((invoke arguments).run w).1.ending ≠ .exit 0) :
    ((∀ l, ((invoke arguments).run w).2.tree.get? l = w.tree.get? l) ↔
      ∀ o ∈ planned w arguments, .generated o.path ∈ ((invoke arguments).run w).1.reports → Current w o) ∧
    ∀ path, .generated path ∈ ((invoke arguments).run w).1.reports →
      ∃ s pre o post e, parse arguments = .ok s ∧ planned w arguments = pre ++ o :: post ∧
        ((invoke arguments).run w).1.reports = pre.map (.generated ·.path) ++ [.unwritable o.path e] ∧
        Blocked w (Path.ofText s.directory) pre o := by
  rcases invoke_cases w hwriting with ⟨hw, hp, hreports⟩ | ⟨s, g, ds, target, hs, hg, hds, hp, hrun⟩
  · refine ⟨⟨fun _ o _ h => absurd h (hreports _), fun _ l => by rw [hw]⟩, fun path h => absurd h (hreports path)⟩
  · have hids := (Descriptor.parseGrammar_bases hds).2
    obtain ⟨hne, hnodup⟩ := grammarOf_bases hg
    have houtputs : outputs s target ds ≠ [] := outputs_ne_nil hne hds target
    have hsome : ds ≠ [] := fun he => houtputs (by rw [he]; rfl)
    rw [hp]
    rw [hrun] at hexit ⊢
    rcases fits_or_unchanged w s target hsome hids with hfits | ⟨hsame, hreports, -⟩
    · have hdistinct : ((outputs s target ds).map (·.path.name)).Nodup := outputs_distinct hnodup hds target
      have hended := writeAll_cases hfits hdistinct houtputs
      refine ⟨hended.unchanged_iff hdistinct hexit, fun path h => ?_⟩
      obtain ⟨pre, o, post, e, hout, hreports, hblocked⟩ := hended.blocked hexit h
      exact ⟨s, pre, o, post, e, hs, hout, hreports, hblocked⟩
    · exact ⟨⟨fun _ o _ h => absurd h (hreports _), fun _ => hsame⟩, fun path h => absurd h (hreports path)⟩

/-- A current directory with a grammar of two tables, in which a directory has the name of the second
    output. -/
def secondTaken : World where
  tree := ⟨[([], .directory 0o755), (["w".toList], .directory 0o755),
    (["w".toList, "B.java".toList], .directory 0o755),
    (["w".toList, "g".toList],
      .file 0o644 (Text.Utf8.encode "\x7b\"A\":[\"V :\"],\"B\":[\"V :\"]\x7d".toList))]⟩
  cwd := ["w".toList]
  umask := 0o022
  suffixes := Suffix.ofNat
  drawn := 0

theorem failed_run_second_taken :
    ∃ s pre o post e, parse [".".toList, "--grammar".toList, "g".toList] = .ok s ∧
      planned secondTaken [".".toList, "--grammar".toList, "g".toList] = pre ++ o :: post ∧
      ((invoke [".".toList, "--grammar".toList, "g".toList]).run secondTaken).1.reports =
        pre.map (.generated ·.path) ++ [.unwritable o.path e] ∧
      Blocked secondTaken (Path.ofText s.directory) pre o := by
  have hwriting : ∀ s, parse [".".toList, "--grammar".toList, "g".toList] = .ok s → s.check = false := by
    intro s h
    have hs : parse [".".toList, "--grammar".toList, "g".toList] =
      .ok ⟨['.'], ['g'], some .java, "lox".toList, false⟩ := rfl
    cases h.symm.trans hs
    rfl
  exact (failed_run hwriting (by decide +kernel)).2 ⟨.here, ["A.java".toList]⟩ (by decide +kernel)

/-- The first output is replaced although the second one is not. -/
theorem halfway :
    (∃ s ds, Writing secondTaken [".".toList, "--grammar".toList, "g".toList] s ds) ∧
      ((invoke [".".toList, "--grammar".toList, "g".toList]).run secondTaken).1.ending = .exit 1 ∧
      secondTaken.tree.get? ["w".toList, "A.java".toList] = none ∧
      ((invoke [".".toList, "--grammar".toList, "g".toList]).run secondTaken).2.tree.get?
        ["w".toList, "A.java".toList] ≠ none :=
  ⟨⟨_, _, by decide, rfl, rfl, _, rfl, rfl⟩, by decide +kernel, by decide +kernel, by decide +kernel⟩

end Command

end NodeGen
