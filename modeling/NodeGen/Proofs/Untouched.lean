/-
  NodeGen.Proofs.Untouched — a run that has nothing to write touches nothing.

  A script stands still in a world if every call that it comes to leaves that world as it is
  (`Script.Still`). Calls that only look do so, and so does what is put together from still parts. A run
  writes only with settings that ask for no check and with a grammar of which every table was read;
  whatever it lacks (`Idle`), it stands still from its first call to its end, be that an exit code or an
  abort (`idle_untouched`). Misuse of the command line is answered by the exit code 64, a grammar that is
  refused by the exit code 1; neither writes to the standard output.
-/

import NodeGen.Proofs.Moments

namespace NodeGen

/-! ## Still scripts -/

namespace Script

variable {α β : Type} {w : World}

def Still (w : World) (s : Script α) : Prop := ∀ w' ∈ s.worlds w, w' = w

theorem Still.run_eq {s : Script α} (h : s.Still w) : (s.run w).2 = w := by
  rcases List.mem_cons.mp (run_mem_worlds s w) with hw | hw
  · exact hw
  · exact h _ hw

theorem Still.bind {s : Script α} {f : α → Script β} (hs : s.Still w) (hf : (f (s.run w).1).Still w) :
    (s >>= f).Still w := by
  intro w' h
  rw [worlds_bind, hs.run_eq] at h
  rcases List.mem_append.mp h with h | h
  · exact hs w' h
  · exact hf w' h

theorem still_pure (a : α) (w : World) : (pure a : Script α).Still w := fun _ h => nomatch h

/-- A call that only looks. -/
theorem still_ask {c : Call α} (h : (w.perform c).2 = w) : (ask c).Still w := by
  intro w' hw
  rw [worlds_ask, List.mem_singleton] at hw
  exact hw.trans h

end Script

theorem Grammar.load_still (p : Path) (w : World) : (Grammar.load p).Still w := fun _ => Grammar.load_worlds

namespace Check

variable {w : World}

theorem checkOne_still (o : Output) (w : World) : (checkOne o).Still w := by
  refine (Script.still_ask rfl).bind ?_
  split
  · exact Script.still_pure _ w
  · refine (Script.still_ask rfl).bind ?_
    split <;> exact Script.still_pure _ w

theorem checkFrom_still (reports : List Report) (outputs : List Output) (w : World) :
    (checkFrom reports outputs).Still w := by
  induction outputs generalizing reports with
  | nil => exact Script.still_pure _ w
  | cons o rest ih =>
    refine (checkOne_still o w).bind ?_
    split
    · exact ih _
    · exact Script.still_pure _ w

end Check

/-! ## Runs with nothing to write -/

namespace Command

variable {w : World} {arguments : List Text} {s : Settings}

/-- What keeps a run from writing: its arguments, the check that they ask for, the file of its grammar,
    or any table of the grammar. -/
inductive Idle (w : World) (arguments : List Text) : Prop
  | misused (m : Misuse) : parse arguments = .error (.misuse m) → Idle w arguments
  | helped : parse arguments = .error .help → Idle w arguments
  | checking (s : Settings) : parse arguments = .ok s → s.check = true → Idle w arguments
  | unloaded (s : Settings) (e : LoadError) : parse arguments = .ok s → grammarOf w s = .error e →
      Idle w arguments
  | rejected (s : Settings) (g : Grammar) (base : Text) (lines : List Text) (fault : Fault) :
      parse arguments = .ok s → grammarOf w s = .ok g → (base, lines) ∈ g →
      Descriptor.parse base lines = .error fault → Idle w arguments

inductive Refused (w : World) (s : Settings) : Prop
  | unreadable (e : Errno) : grammarOf w s = .error (.unreadable (.errno e)) → Refused w s
  | flawed (p : Path) (flaw : Grammar.Flaw) : grammarOf w s = .error (.flawed p flaw) → Refused w s
  | rejected (g : Grammar) (base : Text) (lines : List Text) (fault : Fault) : grammarOf w s = .ok g →
      (base, lines) ∈ g → Descriptor.parse base lines = .error fault → Refused w s

/-- Without a grammar, and with one that is not written, a run stands still. -/
theorem run_still (h : ∀ g, grammarOf w s = .ok g → (runGrammar s g).Still w) : (run s).Still w := by
  unfold grammarOf at h
  unfold run
  by_cases hbuiltin : s.grammar = []
  · rw [if_pos hbuiltin] at h ⊢
    exact h _ rfl
  · rw [if_neg hbuiltin] at h ⊢
    refine (Grammar.load_still _ w).bind ?_
    split
    · rename_i g hg
      exact h g hg
    · exact Script.still_pure _ w

theorem runGrammar_check_still (hs : s.check = true) (g : Grammar) (w : World) : (runGrammar s g).Still w := by
  unfold runGrammar
  split
  · exact Script.still_pure _ w
  · split
    · exact Script.still_pure _ w
    · rw [if_pos hs]
      exact Check.checkFrom_still [] _ w

theorem Idle.still (h : Idle w arguments) : (invoke arguments).Still w := by
  cases h with
  | misused m hm =>
    simp only [invoke, hm]
    exact Script.still_pure _ w
  | helped hh =>
    simp only [invoke, hh]
    exact Script.still_pure _ w
  | checking s hs hcheck =>
    simp only [invoke, hs]
    exact run_still fun g _ => runGrammar_check_still hcheck g w
  | unloaded s e hs he =>
    simp only [invoke, hs]
    refine run_still fun g hg => ?_
    rw [he] at hg
    cases hg
  | rejected s g base lines fault hs hg hmem hfault =>
    simp only [invoke, hs]
    refine run_still fun g' hg' => ?_
    obtain rfl : g = g' := Except.ok.inj (hg.symm.trans hg')
    obtain ⟨_, _, _, _, _, -, -, -, hfirst⟩ := Descriptor.parseGrammar_rejected hmem hfault
    rw [runGrammar_rejected hfirst]
    exact Script.still_pure _ w

theorem Refused.outcome (h : Refused w s) :
    ((run s).run w).1.ending = .exit 1 ∧ ((run s).run w).1.on .output = [] := by
  cases h with
  | unreadable e he =>
    rw [run_loadFailed he]
    exact ⟨rfl, rfl⟩
  | flawed p flaw he =>
    rw [run_loadFailed he]
    exact ⟨rfl, rfl⟩
  | rejected g base lines fault hg hmem hfault =>
    obtain ⟨_, _, _, _, _, -, -, -, hfirst⟩ := Descriptor.parseGrammar_rejected hmem hfault
    rw [run_eq hg, runGrammar_rejected hfirst]
    exact ⟨rfl, rfl⟩

/-- A run that has nothing to write leaves the whole world as it was, after each of its calls and at its
    end. It is told by the exit code 64 if the arguments are misused and by 1 if the grammar is refused,
    with nothing on the standard output. -/
theorem idle_untouched (w : World) (arguments : List Text) :
    (Idle w arguments → (∀ w' ∈ (invoke arguments).worlds w, w' = w) ∧ ((invoke arguments).run w).2 = w) ∧
    (∀ m, parse arguments = .error (.misuse m) →
      ((invoke arguments).run w).1.ending = .exit 64 ∧ ((invoke arguments).run w).1.on .output = []) ∧
    (∀ s, parse arguments = .ok s → Refused w s →
      ((invoke arguments).run w).1.ending = .exit 1 ∧ ((invoke arguments).run w).1.on .output = []) := by
  refine ⟨fun h => ⟨h.still, h.still.run_eq⟩, fun m hm => ?_, fun s hs h => ?_⟩
  · simp only [invoke, hm]
    exact ⟨rfl, rfl⟩
  · simp only [invoke, hs]
    exact h.outcome

def lastRejected : World where
  tree := ⟨[([], .directory 0o755), (["w".toList], .directory 0o755),
    (["w".toList, "g".toList],
      .file 0o644 (Text.Utf8.encode "\x7b\"A\":[\"V :\"],\"B\":[\"V\"]\x7d".toList))]⟩
  cwd := ["w".toList]
  umask := 0o022
  suffixes := Suffix.ofNat
  drawn := 0

theorem idle_untouched_last_rejected :
    ((invoke [".".toList, "--grammar".toList, "g".toList]).run lastRejected).2 = lastRejected ∧
      ((invoke [".".toList, "--grammar".toList, "g".toList]).run lastRejected).1.ending = .exit 1 ∧
      ((invoke ["--gram".toList]).run lastRejected).1.ending = .exit 64 :=
  have hg : grammarOf lastRejected ⟨['.'], ['g'], some .java, "lox".toList, false⟩ =
      .ok [(['A'], ["V :".toList]), (['B'], ["V".toList])] := rfl
  have hmem : (['B'], ["V".toList]) ∈ ([(['A'], ["V :".toList]), (['B'], ["V".toList])] : Grammar) :=
    List.mem_cons_of_mem _ List.mem_cons_self
  ⟨((idle_untouched lastRejected _).1 (.rejected _ _ _ _ _ rfl hg hmem rfl)).2,
    ((idle_untouched lastRejected _).2.2 _ rfl (.rejected _ _ _ _ hg hmem rfl)).1,
    ((idle_untouched lastRejected _).2.1 (.missingValue .grammar) rfl).1⟩

end Command

end NodeGen
