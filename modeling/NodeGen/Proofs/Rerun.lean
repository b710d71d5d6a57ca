/-
  NodeGen.Proofs.Rerun — a run made again, and a run with the tables in another order.

  A run that succeeds leaves regular files in the places of its outputs, with the very modes that it would
  find there (`InPlace`). A later one finds them, under any umask, and puts the same files in the same
  places (`InPlace.unchanged`, `InPlace.outcome`).

  The order of the tables decides which temporaries are there when a mode is asked for, and no more. An
  output may be a link to another one, for all modes are found before the first output is replaced. Only a
  link to a name that is drawn for a temporary could tell one order from another (`Impartial`).
-/

import NodeGen.Proofs.Foresight

namespace NodeGen

namespace Stage

variable {w v : World} {directory nest : Path} {place : Location} {outputs outputs' : List Output} {o : Output}
  {n : Text}

/-! ## Ways that lead on past new files -/

theorem Nest.filed (hn : Nest w nest place []) (hf : Tree.Filed w.tree v.tree) (hc : v.cwd = w.cwd) :
    Nest v nest place [] where
  walks := by
    simp only [World.start, hc]
    exact hn.walks.transfer hn.isDirectory (fun _ hx => hf.directories hx) (by simp)
  isDirectory := (Tree.isDirectory_congr (hf.directories hn.isDirectory)).trans hn.isDirectory

theorem InReach.filed (h : InReach w directory place outputs) (hf : Tree.Filed w.tree v.tree) (hc : v.cwd = w.cwd) :
    InReach v directory place outputs where
  nest := by
    rw [hc]
    exact h.nest.filed hf hc
  reached := h.reached.filed hf hc
  fits := fun o ho => (h.fits o ho).congr hc

theorem Nest.names (hn : Nest v nest place []) (h : w.Names (nest.child n) place n) :
    v.Names (nest.child n) place n where
  admitted := h.admitted
  reached := by
    rw [Path.dropLast_child]
    exact nest_reached hn
  last := h.last
  walkable := h.walkable

/-! ## Outputs that are in their places -/

structure InPlace (v : World) (directory : Path) (place : Location) (outputs : List Output) : Prop
    extends InReach v directory place outputs where
  distinct : (outputs.map (·.path.name)).Nodup
  temporaries : ∀ o ∈ outputs, ∀ s : Suffix,
    v.Names ((directory.absolute v.cwd).child (temporaryName o.path.name s.text)) place
      (temporaryName o.path.name s.text)
  current : ∀ o ∈ outputs, Current v o

theorem InPlace.of_written (hreach : InReach w directory place outputs) (hd : (outputs.map (·.path.name)).Nodup)
    (hne : outputs ≠ []) (hexit : ((writeAll outputs).run w).1.ending = .exit 0)
    (ht : v.tree = ((writeAll outputs).run w).2.tree) (hc : v.cwd = w.cwd) :
    ((writeAll outputs).run w).1 = ⟨outputs.map (.generated ·.path), .exit 0⟩ ∧ InPlace v directory place outputs := by
  obtain ⟨houtcome, T, D, trail, parcels, w₁, hplan, hu⟩ := (writeAll_cases hreach.fits hd hne).of_exit hexit
  obtain ⟨rfl, rfl⟩ := hreach.nest.unique hplan.nest
  obtain rfl := hplan.goal place (nest_reached hreach.reached)
  have hreach' := hreach.filed (ht ▸ hu.filed (.nil w directory place)) hc
  have hnodup := hd
  rw [← hplan.covers, List.map_map] at hnodup
  refine ⟨houtcome, hreach', hd, ?_, ?_⟩
  · intro o ho s
    rw [← hplan.covers] at ho
    obtain ⟨q, hq, rfl⟩ := List.mem_map.mp ho
    have hready := hplan.cargo.ready q hq
    obtain ⟨drawn, hdrawn⟩ := hready.named
    have hnames := hready.names
    rw [hdrawn, ← hc] at hnames
    exact hreach'.nest.names (World.Names.redraw hnames s)
  · intro o ho
    rw [← hplan.covers] at ho
    obtain ⟨q, hq, rfl⟩ := List.mem_map.mp ho
    have hready := hplan.cargo.ready q hq
    refine ⟨place, q.mode, hready.names_of_reached (nest_reached hreach'.reached), ?_⟩
    rw [ht, hu.placed hnodup hq, hready.bits, Parcel.node]

theorem InPlace.file (h : InPlace v directory place outputs) (ho : o ∈ outputs) :
    ∃ mode, v.Names o.path place o.path.name ∧ v.tree.get? (place ++ [o.path.name]) = some (fileOf o mode) := by
  obtain ⟨d, mode, hnames, hg⟩ := h.current o ho
  have hreached := hnames.reached
  rw [(h.fits o ho).path, Path.dropLast_child] at hreached
  obtain rfl : place = d := Except.ok.inj ((nest_reached h.reached).symm.trans hreached)
  exact ⟨_, hnames, hg⟩

theorem InPlace.batched (h : InPlace v directory place outputs) : Batched v directory place outputs where
  toInReach := h.toInReach
  distinct := h.distinct
  steady := by
    refine Unlinked.steady (fun o ho target hlink => ?_) h.toInReach
    obtain ⟨mode, -, hg⟩ := h.file ho
    cases hg.symm.trans hlink

theorem InPlace.stageable (h : InPlace v directory place outputs) (ho : o ∈ outputs) :
    Stageable v directory place o where
  names := h.temporaries o ho
  mode := by
    obtain ⟨mode, hnames, hg⟩ := h.file ho
    have hstat := hnames.stat_eq hg (by simp [fileOf])
    exact ⟨_, by rw [modeFor, hstat]⟩

/-- Writing outputs that are in their places changes nothing, also if it fails. -/
theorem InPlace.unchanged (h : InPlace v directory place outputs) (hne : outputs ≠ []) (l : Location) :
    ((writeAll outputs).run v).2.tree.get? l = v.tree.get? l := by
  have hends := writeAll_cases h.fits h.distinct hne
  by_cases hexit : ((writeAll outputs).run v).1.ending = .exit 0
  · obtain ⟨-, T, D, trail, parcels, v₁, hplan, hu⟩ := hends.of_exit hexit
    have hd := h.distinct
    rw [← hplan.covers, List.map_map] at hd
    have hcurrent : ∀ q ∈ parcels, Current v q.output := fun q hq =>
      h.current _ (hplan.covers ▸ List.mem_map_of_mem hq)
    exact (hu.same_iff hplan.cargo.ready hd).mpr hcurrent l
  · exact (hends.unchanged_iff h.distinct hexit).mpr (fun o ho _ => h.current o ho) l

/-- It fails only if the source of names runs dry. -/
theorem InPlace.outcome (h : InPlace v directory place outputs) (hne : outputs ≠ []) (hs : Supplied v place outputs) :
    ((writeAll outputs).run v).1 = ⟨outputs.map (.generated ·.path), .exit 0⟩ := by
  have hforesight := hs.foresight_iff.mpr fun o ho => h.stageable ho
  have hfree : ∀ o ∈ outputs, v.tree.isDirectory (place ++ [o.path.name]) = false := by
    intro o ho
    obtain ⟨mode, -, hg⟩ := h.file ho
    exact Tree.not_isDirectory_of_file hg
  obtain ⟨v', hrun, -⟩ := h.batched.written hne ((h.batched.writeAll_iff hne).mpr ⟨hforesight, hfree⟩)
  rw [hrun]

/-! ## Orders of the outputs -/

/-- A source of names that does not run dry, and that draws no name to which a link leads. -/
structure Impartial (w : World) (place : Location) (outputs : List Output) : Prop where
  supplied : Supplied w place outputs
  unnamed : ∀ x target, w.tree.get? x = some (.link target) → ∀ n ∈ (Route.ofText target).names, ¬ DrawnFor w outputs n

theorem Impartial.steady (h : Impartial w place outputs) (hreach : InReach w directory place outputs) :
    ∀ o ∈ outputs, Steady w place (DrawnFor w outputs) o.path := by
  intro o ho
  have hfits := hreach.fits o ho
  refine steady_of_unnamed hreach.reached hfits.path hfits.not_drawn (fun hdrawn => ?_) h.unnamed
  obtain ⟨name, suffix, hn⟩ := DrawnFor.isTemporary hdrawn
  have hlength := congrArg List.length hn
  simp [temporaryName] at hlength

/-- A batch ends the same way in any order, and then it leaves the same tree. -/
theorem Batched.perm (hb : Batched w directory place outputs) (hb' : Batched v directory place outputs')
    (hperm : outputs'.Perm outputs) (hne : outputs ≠ []) (ht : v.tree = w.tree) (hc : v.cwd = w.cwd)
    (hu : v.umask = w.umask) (hs : Supplied w place outputs) (hs' : Supplied v place outputs') :
    ((Stage.writeAll outputs').run v).1.ending = ((Stage.writeAll outputs).run w).1.ending ∧
      (((Stage.writeAll outputs).run w).1.ending = .exit 0 → ∀ l,
        ((Stage.writeAll outputs').run v).2.tree.get? l = ((Stage.writeAll outputs).run w).2.tree.get? l) := by
  have hne' : outputs' ≠ [] := fun e => hne (List.nil_perm.mp (e ▸ hperm))
  have hiff : ((Stage.writeAll outputs').run v).1.ending = .exit 0 ↔
      ((Stage.writeAll outputs).run w).1.ending = .exit 0 := by
    rw [hb'.writeAll_iff hne', hb.writeAll_iff hne, hs.foresight_iff, hs'.foresight_iff, ht]
    refine and_congr ⟨fun h o ho => ?_, fun h o ho => ?_⟩ ⟨fun h o ho => ?_, fun h o ho => ?_⟩
    · exact (h o (hperm.mem_iff.mpr ho)).congr ht.symm hc.symm hu.symm
    · exact (h o (hperm.mem_iff.mp ho)).congr ht hc hu
    · exact h o (hperm.mem_iff.mpr ho)
    · exact h o (hperm.mem_iff.mp ho)
  constructor
  · rcases hb.ending hne with h | h
    · rw [h, hiff.mpr h]
    · rcases hb'.ending hne' with h' | h'
      · rw [hiff.mp h'] at h
        cases h
      · rw [h, h']
  · intro hexit l
    obtain ⟨w', hrun, hwritten⟩ := hb.written hne hexit
    obtain ⟨v', hrun', hwritten'⟩ := hb'.written hne' (hiff.mpr hexit)
    rw [hrun, hrun']
    exact hwritten.same hwritten' ht hc hu (fun _ => hperm.mem_iff) l

end Stage

namespace Command

open Stage

variable {w v : World} {arguments arguments' : List Text} {s s' : Settings} {g g' : Grammar} {ds ds' : List Descriptor}
  {target : Target}

structure Alike (w : World) (s : Settings) (v : World) (s' : Settings) : Prop where
  cwd : v.cwd = w.cwd
  directory : s'.directory = s.directory
  target : s'.target = s.target
  package : s'.package = s.package

theorem Alike.outputs_eq (h : Alike w s v s') (target : Target) (ds : List Descriptor) :
    outputs s' target ds = outputs s target ds := by
  simp only [outputs, h.directory, h.package]

/-- What a successful run has written is in its place for any later one. -/
theorem Tasked.inPlace (h : Tasked w arguments s g ds) (ht : s.target = some target) (hw : w.Rooted)
    (hp : Plain w (Path.ofText s.directory)) (hexit : ((invoke arguments).run w).1.ending = .exit 0)
    (htree : v.tree = ((invoke arguments).run w).2.tree) (hc : v.cwd = w.cwd) :
    ((invoke arguments).run w).1 = ⟨(outputs s target ds).map (.generated ·.path), .exit 0⟩ ∧
      InPlace v (Path.ofText s.directory) (spelled w (Path.ofText s.directory)) (outputs s target ds) := by
  have hne := outputs_ne_nil (s := s) (grammarOf_bases h.grammar).1 h.tables target
  rw [h.invoke_eq ht] at hexit htree ⊢
  rcases reached_or_unstaged (Descriptor.parseGrammar_bases h.tables).2 hw hp target with hreach | hunstaged
  · exact InPlace.of_written hreach (outputs_distinct (grammarOf_bases h.grammar).2 h.tables target) hne hexit htree hc
  · exact absurd hexit (hunstaged.exit_ne hne)

/-- Two runs for the same tables in two orders end alike. -/
theorem Tasked.reorder (h : Tasked w arguments s g ds) (h' : Tasked v arguments' s' g' ds') (hsame : Alike w s v s')
    (ht : s.target = some target) (hw : w.Rooted) (hp : Plain w (Path.ofText s.directory)) (htree : v.tree = w.tree)
    (humask : v.umask = w.umask) (hperm : ds'.Perm ds)
    (hi : Impartial w (spelled w (Path.ofText s.directory)) (outputs s target ds))
    (hi' : Impartial v (spelled w (Path.ofText s.directory)) (outputs s target ds')) :
    ((invoke arguments').run v).1.ending = ((invoke arguments).run w).1.ending ∧
      (((invoke arguments).run w).1.ending = .exit 0 → ∀ l,
        ((invoke arguments').run v).2.tree.get? l = ((invoke arguments).run w).2.tree.get? l) := by
  have hne := outputs_ne_nil (s := s) (grammarOf_bases h.grammar).1 h.tables target
  have hne' := outputs_ne_nil (s := s) (grammarOf_bases h'.grammar).1 h'.tables target
  have houtputs : (outputs s target ds').Perm (outputs s target ds) := hperm.map _
  rw [h.invoke_eq ht, h'.invoke_eq (hsame.target.trans ht), hsame.outputs_eq]
  rcases reached_or_unstaged_both (Descriptor.parseGrammar_bases h.tables).2 hw hp target htree hsame.cwd
    (fun d => hperm.mem_iff) with ⟨hreach, hreach'⟩ | ⟨hunstaged, hunstaged'⟩
  · have hb : Batched w (Path.ofText s.directory) (spelled w (Path.ofText s.directory)) (outputs s target ds) :=
      ⟨hreach, outputs_distinct (grammarOf_bases h.grammar).2 h.tables target, hi.steady hreach⟩
    have hb' : Batched v (Path.ofText s.directory) (spelled w (Path.ofText s.directory)) (outputs s target ds') :=
      ⟨hreach', outputs_distinct (grammarOf_bases h'.grammar).2 h'.tables target, hi'.steady hreach'⟩
    exact hb.perm hb' houtputs hne htree hsame.cwd humask hi.supplied hi'.supplied
  · refine ⟨?_, fun hexit => absurd hexit (hunstaged.exit_ne hne)⟩
    rw [hunstaged.ending hne, hunstaged'.ending hne']

/-- A run that succeeded can be made again, under any umask: it ends in the same way, and the tree stays as it
    is. And the order of the tables is of no account, neither to the end of a run nor to the tree that a
    successful one leaves. What is asked of the sources of names is that they do not run dry and, in the
    second part, that they draw no name to which a link leads. -/
theorem rerun_and_reorder (h : Tasked w arguments s g ds) (hw : w.Rooted) (hp : Plain w (Path.ofText s.directory)) :
    (((invoke arguments).run w).1.ending = .exit 0 →
      ∀ (v : World) {arguments' : List Text} {s' : Settings} {g' : Grammar},
      v.tree = ((invoke arguments).run w).2.tree → Alike w s v s' → Tasked v arguments' s' g' ds →
      (∀ l, ((invoke arguments').run v).2.tree.get? l = v.tree.get? l) ∧
        ((∀ target, s.target = some target →
            Supplied v (spelled w (Path.ofText s.directory)) (outputs s target ds)) →
          ((invoke arguments').run v).1 = ((invoke arguments).run w).1)) ∧
    ∀ (v : World) {arguments' : List Text} {s' : Settings} {g' : Grammar} {ds' : List Descriptor},
      v.tree = w.tree → v.umask = w.umask → Alike w s v s' → Tasked v arguments' s' g' ds' → ds'.Perm ds →
      (∀ target, s.target = some target → Impartial w (spelled w (Path.ofText s.directory)) (outputs s target ds) ∧
        Impartial v (spelled w (Path.ofText s.directory)) (outputs s target ds')) →
      ((invoke arguments').run v).1.ending = ((invoke arguments).run w).1.ending ∧
        (((invoke arguments).run w).1.ending = .exit 0 → ∀ l,
          ((invoke arguments').run v).2.tree.get? l = ((invoke arguments).run w).2.tree.get? l) := by
  constructor
  · intro hexit v arguments' s' g' htree hsame h'
    cases ht : s.target with
    | none =>
      rw [h.invoke_noTarget ht] at hexit
      cases hexit
    | some target =>
      have hne := outputs_ne_nil (s := s) (grammarOf_bases h.grammar).1 h.tables target
      obtain ⟨houtcome, hplaced⟩ := h.inPlace ht hw hp hexit htree hsame.cwd
      rw [houtcome, h'.invoke_eq (hsame.target.trans ht), hsame.outputs_eq]
      exact ⟨hplaced.unchanged hne, fun hs => hplaced.outcome hne (hs target rfl)⟩
  · intro v arguments' s' g' ds' htree humask hsame h' hperm hi
    cases ht : s.target with
    | none =>
      rw [h.invoke_noTarget ht, h'.invoke_noTarget (hsame.target.trans ht)]
      exact ⟨rfl, fun hexit => nomatch hexit⟩
    | some target =>
      obtain ⟨hi₁, hi₂⟩ := hi target ht
      exact h.reorder h' hsame ht hw hp htree humask hperm hi₁ hi₂

/-- A directory where the first output is a link to the second, with the grammar of both in two orders. -/
def linkedTree : Tree :=
  ⟨[([], .directory 0o755), (["w".toList], .directory 0o755),
    (["w".toList, "A.java".toList], .link "B.java".toList), (["w".toList, "B.java".toList], .file 0o600 []),
    (["w".toList, "g".toList],
      .file 0o644 (Text.Utf8.encode "\x7b\"A\":[\"V :\"],\"B\":[\"V :\"]\x7d".toList)),
    (["w".toList, "h".toList],
      .file 0o644 (Text.Utf8.encode "\x7b\"B\":[\"V :\"],\"A\":[\"V :\"]\x7d".toList))]⟩

def linkedOutputs (suffixes : Nat → Suffix) : World where
  tree := linkedTree
  cwd := ["w".toList]
  umask := 0o022
  suffixes := suffixes
  drawn := 0

def linkedAgain : World where
  tree := ((invoke [".".toList, "--grammar".toList, "g".toList]).run (linkedOutputs Suffix.ofNat)).2.tree
  cwd := ["w".toList]
  umask := 0o077
  suffixes draw := Suffix.ofNat (draw + 1)
  drawn := 0

def withGrammar (file : Text) : Settings := ⟨['.'], file, some .java, "lox".toList, false⟩

theorem impartial_linkedOutputs (suffixes : Nat → Suffix) (outputs : List Output) :
    Impartial (linkedOutputs suffixes) ["w".toList] outputs where
  supplied := by
    have hvisible : ∀ e ∈ linkedTree.nodes, ∀ n ∈ e.1.getLast?, n.head? ≠ some '.' := by decide +kernel
    exact supplied_of_visible hvisible _ _
  unnamed := by
    intro x target hg n hn hdrawn
    obtain ⟨-, rfl⟩ : x = ["w".toList, "A.java".toList] ∧ target = "B.java".toList := by
      simpa [linkedOutputs, linkedTree] using Tree.mem_of_find hg
    obtain rfl : n = "B.java".toList := List.mem_singleton.mp hn
    cases (DrawnFor.isTemporary hdrawn).head

theorem rerun_and_reorder_linked :
    ((invoke [".".toList, "--grammar".toList, "g".toList]).run linkedAgain).1 =
        ((invoke [".".toList, "--grammar".toList, "g".toList]).run (linkedOutputs Suffix.ofNat)).1 ∧
      ∀ l, ((invoke [".".toList, "--grammar".toList, "h".toList]).run
          (linkedOutputs fun draw => Suffix.ofNat (draw + 1))).2.tree.get? l =
        ((invoke [".".toList, "--grammar".toList, "g".toList]).run (linkedOutputs Suffix.ofNat)).2.tree.get? l := by
  have hrooted : (linkedOutputs Suffix.ofNat).Rooted :=
    rooted_of_single rfl (by decide) (by decide) ⟨by decide, by decide, by decide⟩ (by decide)
  have htasked : Tasked (linkedOutputs Suffix.ofNat) [".".toList, "--grammar".toList, "g".toList] (withGrammar ['g'])
      [(['A'], ["V :".toList]), (['B'], ["V :".toList])] [⟨['A'], [⟨['V'], []⟩]⟩, ⟨['B'], [⟨['V'], []⟩]⟩] :=
    ⟨rfl, rfl, rfl, rfl⟩
  have hexit : ((invoke [".".toList, "--grammar".toList, "g".toList]).run (linkedOutputs Suffix.ofNat)).1.ending =
    .exit 0 := by decide +kernel
  have htold := rerun_and_reorder htasked hrooted (plain_here _)
  constructor
  · have hagain : Tasked linkedAgain [".".toList, "--grammar".toList, "g".toList] (withGrammar ['g'])
        [(['A'], ["V :".toList]), (['B'], ["V :".toList])] [⟨['A'], [⟨['V'], []⟩]⟩, ⟨['B'], [⟨['V'], []⟩]⟩] :=
      ⟨rfl, rfl, by decide +kernel, rfl⟩
    have hvisible : ∀ e ∈ linkedAgain.tree.nodes, ∀ n ∈ e.1.getLast?, n.head? ≠ some '.' := by decide +kernel
    exact (htold.1 hexit linkedAgain (by simp only [linkedAgain]) ⟨rfl, rfl, rfl, rfl⟩ hagain).2
      fun target _ => supplied_of_visible hvisible _ _
  · have hturned : Tasked (linkedOutputs fun draw => Suffix.ofNat (draw + 1))
        [".".toList, "--grammar".toList, "h".toList] (withGrammar ['h'])
        [(['B'], ["V :".toList]), (['A'], ["V :".toList])] [⟨['B'], [⟨['V'], []⟩]⟩, ⟨['A'], [⟨['V'], []⟩]⟩] :=
      ⟨rfl, rfl, rfl, rfl⟩
    have hsame : Alike (linkedOutputs Suffix.ofNat) (withGrammar ['g'])
      (linkedOutputs fun draw => Suffix.ofNat (draw + 1)) (withGrammar ['h']) := ⟨rfl, rfl, rfl, rfl⟩
    exact (htold.2 (linkedOutputs fun draw => Suffix.ofNat (draw + 1)) rfl rfl hsame hturned (.swap ..) fun target _ =>
      ⟨impartial_linkedOutputs _ _, impartial_linkedOutputs _ _⟩).2 hexit

end Command

end NodeGen
