/-
  NodeGen.Proofs.Outputs — where the outputs of a grammar go.

  A base name is an identifier, so the file of a base type is one name in the output directory, it is
  not hidden, and two base types never share it. No NUL gets into a path from arguments and a current
  directory without one.
-/

import NodeGen.Command.Run
import NodeGen.Proofs.Arguments
import NodeGen.Proofs.Paths
import NodeGen.Proofs.Tables
import NodeGen.Proofs.Writing

namespace NodeGen

/-! ## Names of files -/

namespace Target

theorem extension_clean (target : Target) {c : Char} (h : c ∈ target.extension) : c ≠ '/' ∧ c ≠ '\x00' := by
  have hall : target.extension.all (fun c => c ≠ '/' ∧ c ≠ '\x00') = true := by cases target <;> decide
  simpa using List.all_eq_true.mp hall c h

theorem fileName_clean (target : Target) {base : Text} (h : Text.isIdentifier base = true) {c : Char}
    (hc : c ∈ target.fileName base) : c ≠ '/' ∧ c ≠ '\x00' := by
  rcases List.mem_append.mp hc with hc | hc
  · rcases List.mem_append.mp hc with hc | hc
    · constructor
      · rintro rfl; exact Text.not_mem_identifier h (by decide) hc
      · rintro rfl; exact Text.not_mem_identifier h (by decide) hc
    · cases List.mem_singleton.mp hc
      decide
  · exact extension_clean target hc

theorem fileName_head (target : Target) {base : Text} (h : Text.isIdentifier base = true) :
    (target.fileName base).head? ≠ some '.' := by
  cases base with
  | nil => cases h
  | cons c rest =>
    intro hhead
    obtain rfl : c = '.' := by simpa [fileName] using hhead
    exact Text.not_mem_identifier h (by decide) List.mem_cons_self

theorem fileName_injective (target : Target) {a b : Text} (h : target.fileName a = target.fileName b) : a = b :=
  List.append_cancel_right (List.append_cancel_right h)

end Target

theorem Target.fileName_ne_nil (target : Target) {base : Text} (h : Text.isIdentifier base = true) :
    target.fileName base ≠ [] := by
  rw [Target.fileName, List.append_assoc]
  exact List.append_ne_nil_of_left_ne_nil (Text.identifier_ne_nil h) _

/-- The file of a base type is one name in its directory. -/
theorem Path.output_eq (directory : Path) (target : Target) {base : Text} (h : Text.isIdentifier base = true) :
    directory.output target base = directory.child (target.fileName base) := by
  have hdot : target.fileName base ≠ ['.'] := fun e => Target.fileName_head target h (by rw [e]; rfl)
  rw [Path.output, Path.ofText_singleton (fun hm => (Target.fileName_clean target h hm).1 rfl)
    (Target.fileName_ne_nil target h) hdot]
  rfl

/-! ## Worlds -/

/-- A current directory as the system reports it: its names are those of real directories, from the
    root on, with neither a link nor a `..` among them. -/
structure World.Rooted (w : World) : Prop where
  directories : ∀ l, l <+: w.cwd → w.tree.isDirectory l = true
  names : ∀ n ∈ w.cwd, Tree.Walkable n
  clean : ∀ n ∈ w.cwd, '\x00' ∉ n

namespace Stage

theorem temporaryName_clean {name : Text} (h : '\x00' ∉ name) (s : Suffix) :
    '\x00' ∉ temporaryName name s.text := by
  have hletters : suffixAlphabet.all (· ≠ '\x00') = true := by decide
  intro hm
  simp only [temporaryName, List.mem_append, List.mem_singleton] at hm
  rcases hm with (((hm | hm) | hm) | hm) | hm
  · cases hm
  · exact h hm
  · cases hm
  · simpa using List.all_eq_true.mp hletters _ (s.letters _ hm)
  · revert hm; decide

/-- A file that goes into a directory with no NUL in its name, neither as given nor as anchored. -/
theorem fits_of_clean {w : World} {directory : Path} {target : Target} {base text : Text}
    (hd : ∀ part ∈ directory.parts, '\x00' ∉ part)
    (hnest : ∀ part ∈ (directory.absolute w.cwd).parts, '\x00' ∉ part) (hb : Text.isIdentifier base = true) :
    Fits w directory ⟨directory.output target base, text⟩ := by
  have hname : '\x00' ∉ target.fileName base := fun hm => (Target.fileName_clean target hb hm).2 rfl
  rw [Path.output_eq directory target hb]
  refine ⟨by simp, by simpa using Target.fileName_ne_nil target hb,
    by simpa using Target.fileName_head target hb, Path.clean fun part hp => ?_,
    fun s => Path.clean fun part hp => ?_⟩
  · rcases List.mem_append.mp hp with hp | hp
    · exact hd part hp
    · exact List.mem_singleton.mp hp ▸ hname
  · rcases List.mem_append.mp hp with hp | hp
    · exact hnest part hp
    · rw [List.mem_singleton.mp hp, Path.name_child]
      exact temporaryName_clean hname s

end Stage

/-! ## Commands that write -/

theorem Grammar.load_run (p : Path) (w : World) : ((Grammar.load p).run w).2 = w := by
  simp only [load, Script.run_bind, Script.run_ask, World.perform]
  cases w.read (Route.ofPath p) with
  | error r => rfl
  | ok bytes =>
    simp only
    rcases Grammar.ofBytes bytes with (flaw | digits) | g <;> rfl

theorem Grammar.load_bases {p : Path} {w : World} {g : Grammar} (h : ((Grammar.load p).run w).1 = .ok g) :
    g ≠ [] ∧ (g.map Prod.fst).Nodup := by
  simp only [load, Script.run_bind, Script.run_ask, World.perform] at h
  cases hread : w.read (Route.ofPath p) with
  | error r => rw [hread] at h; cases h
  | ok bytes =>
    rw [hread] at h
    cases hbytes : Grammar.ofBytes bytes with
    | ok g' =>
      simp only [hbytes] at h
      cases h
      exact Grammar.ofBytes_bases hbytes
    | error f =>
      cases f <;> (simp only [hbytes] at h; cases h)

namespace Command

/-- The grammar that settings ask for. -/
def grammarOf (w : World) (s : Settings) : Except LoadError Grammar :=
  if s.grammar = [] then .ok Grammar.builtin else ((Grammar.load (Path.ofText s.grammar)).run w).1

structure Writing (w : World) (arguments : List Text) (s : Settings) (ds : List Descriptor) : Prop where
  clean : ∀ a ∈ arguments, '\x00' ∉ a
  parsed : parse arguments = .ok s
  writing : s.check = false
  grammar : ∃ g, grammarOf w s = .ok g ∧ Descriptor.parseGrammar g = .ok ds

def outputs (s : Settings) (target : Target) (ds : List Descriptor) : List Output :=
  ds.map (output (Path.ofText s.directory) target s.package)

variable {w : World} {arguments : List Text} {s : Settings} {ds : List Descriptor} {target : Target}

/-- A run gets its grammar first, and nothing has changed by then. -/
theorem run_grammarOf (w : World) (s : Settings) : (run s).run w =
    match grammarOf w s with
    | .ok g => (runGrammar s g).run w
    | .error e => (loadFailed s.grammar e, w) := by
  unfold grammarOf run
  by_cases hname : s.grammar = []
  · rw [if_pos hname, if_pos hname]
  · rw [if_neg hname, if_neg hname, Script.run_bind, Grammar.load_run]
    cases ((Grammar.load (Path.ofText s.grammar)).run w).1 <;> rfl

theorem run_eq {g : Grammar} (h : grammarOf w s = .ok g) : (run s).run w = (runGrammar s g).run w := by
  rw [run_grammarOf, h]

theorem run_loadFailed {e : LoadError} (h : grammarOf w s = .error e) :
    (run s).run w = (loadFailed s.grammar e, w) := by
  rw [run_grammarOf, h]

theorem runGrammar_rejected {g : Grammar} {fault : Fault} (h : Descriptor.parseGrammar g = .error fault) :
    runGrammar s g = return ⟨[.rejected fault.message fault.line], .exit 1⟩ := by
  simp only [runGrammar, h]

structure Tasked (w : World) (arguments : List Text) (s : Settings) (g : Grammar) (ds : List Descriptor) : Prop where
  parsed : parse arguments = .ok s
  writing : s.check = false
  grammar : grammarOf w s = .ok g
  tables : Descriptor.parseGrammar g = .ok ds

/-- A run that writes is the writing of its outputs. -/
theorem Tasked.invoke_eq {g : Grammar} (h : Tasked w arguments s g ds) (ht : s.target = some target) :
    (invoke arguments).run w = (Stage.writeAll (outputs s target ds)).run w := by
  simp only [invoke, h.parsed, run_eq h.grammar, runGrammar, h.tables, ht, h.writing]
  rfl

theorem Tasked.invoke_noTarget {g : Grammar} (h : Tasked w arguments s g ds) (ht : s.target = none) :
    (invoke arguments).run w = (⟨[], .abort .noTarget⟩, w) := by
  simp only [invoke, h.parsed, run_eq h.grammar, runGrammar, h.tables, ht]
  rfl

theorem Writing.tasked (h : Writing w arguments s ds) : ∃ g, Tasked w arguments s g ds := by
  obtain ⟨g, hg, hds⟩ := h.grammar
  exact ⟨g, h.parsed, h.writing, hg, hds⟩

theorem Writing.invoke_eq (h : Writing w arguments s ds) (ht : s.target = some target) :
    (invoke arguments).run w = (Stage.writeAll (outputs s target ds)).run w := by
  obtain ⟨g, htask⟩ := h.tasked
  exact htask.invoke_eq ht

theorem Writing.invoke_noTarget (h : Writing w arguments s ds) (ht : s.target = none) :
    (invoke arguments).run w = (⟨[], .abort .noTarget⟩, w) := by
  obtain ⟨g, htask⟩ := h.tasked
  exact htask.invoke_noTarget ht

/-- Outputs fit a directory that has no NUL in its name, if the current directory has none. -/
theorem outputs_fit (hcwd : ∀ n ∈ w.cwd, '\x00' ∉ n) (hdir : ∀ part ∈ (Path.ofText s.directory).parts, '\x00' ∉ part)
    (hids : ∀ d ∈ ds, Text.isIdentifier d.base = true) (target : Target) :
    ∀ o ∈ outputs s target ds, Stage.Fits w (Path.ofText s.directory) o := by
  intro o ho
  obtain ⟨d, hd, rfl⟩ := List.mem_map.mp ho
  refine Stage.fits_of_clean hdir (fun part hp => ?_) (hids d hd)
  exact (Path.mem_absolute hp).elim (hcwd part) (hdir part)

theorem Writing.fits (h : Writing w arguments s ds) (hcwd : ∀ n ∈ w.cwd, '\x00' ∉ n) (target : Target) :
    ∀ o ∈ outputs s target ds, Stage.Fits w (Path.ofText s.directory) o := by
  obtain ⟨g, -, hds⟩ := h.grammar
  have hdir : ∀ part ∈ (Path.ofText s.directory).parts, '\x00' ∉ part := fun part hp hm =>
    h.clean _ (directory_mem h.parsed) (Path.mem_ofText hp hm)
  exact outputs_fit hcwd hdir (Descriptor.parseGrammar_bases hds).2 target

theorem grammarOf_bases {g : Grammar} (hg : grammarOf w s = .ok g) : g ≠ [] ∧ (g.map Prod.fst).Nodup := by
  unfold grammarOf at hg
  split at hg
  · cases hg; exact Grammar.builtin_bases
  · exact Grammar.load_bases hg

theorem outputs_ne_nil {g : Grammar} (hg : g ≠ []) (hds : Descriptor.parseGrammar g = .ok ds)
    (target : Target) : outputs s target ds ≠ [] := by
  intro h
  have hbases := (Descriptor.parseGrammar_bases hds).1
  rw [List.map_eq_nil_iff.mp h] at hbases
  exact hg (List.map_eq_nil_iff.mp hbases.symm)

/-- No two outputs have one name. -/
theorem outputs_distinct {g : Grammar} (hg : (g.map Prod.fst).Nodup) (hds : Descriptor.parseGrammar g = .ok ds)
    (target : Target) : ((outputs s target ds).map (·.path.name)).Nodup := by
  obtain ⟨hbases, hids⟩ := Descriptor.parseGrammar_bases hds
  have hnames : (outputs s target ds).map (·.path.name) = (ds.map Descriptor.base).map target.fileName := by
    rw [outputs, List.map_map, List.map_map]
    refine List.map_congr_left fun d hd => ?_
    simp [output, Path.output_eq _ _ (hids d hd)]
  rw [hnames, hbases]
  exact List.Pairwise.map _ (fun a b hab e => hab (Target.fileName_injective target e)) hg

/-- All outputs of a run that writes fit their directory. -/
theorem Writing.ended (h : Writing w arguments s ds) (hcwd : ∀ n ∈ w.cwd, '\x00' ∉ n)
    (ht : s.target = some target) :
    Stage.Ended w (Path.ofText s.directory) (outputs s target ds) ((invoke arguments).run w).1
      ((invoke arguments).run w).2 := by
  obtain ⟨g, hg, hds⟩ := h.grammar
  rw [h.invoke_eq ht]
  obtain ⟨hne, hnodup⟩ := grammarOf_bases hg
  exact Stage.writeAll_cases (h.fits hcwd target) (outputs_distinct hnodup hds target)
    (outputs_ne_nil hne hds target)

end Command

end NodeGen
