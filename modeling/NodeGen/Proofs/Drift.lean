/-
  NodeGen.Proofs.Drift — a check that follows a run tells what has changed in between.

  What a run wrote is read back as the text that was rendered, since that text holds no carriage return,
  and a text determines what it was rendered from (`Target.render_eq_iff`). So the report on a base type
  tells whether its descriptor, and for Java the package, is still the one of the run. The report may
  be missing: a check stops at a base type whose name is too long for a file. `drift_told` says that this
  is the only exception, `untold` that it happens.
-/

import NodeGen.Proofs.Checking
import NodeGen.Proofs.Effect
import NodeGen.Proofs.JavaText
import NodeGen.Proofs.PythonText

namespace NodeGen

/-! ## Texts -/

section Texts

variable {target : Target} {d d' : Descriptor} {package package' : Text}

/-- A file determines its descriptor, and its package if the target names one. -/
theorem Target.render_eq_iff (hd : d.WellFormed) (hd' : d'.WellFormed) :
    target.render package d = target.render package' d' ↔ d = d' ∧ (target = .python ∨ package = package') := by
  cases target with
  | java =>
    constructor
    · intro h
      obtain ⟨hdd, hpp⟩ := Java.file_inj hd hd' h
      exact ⟨hdd, Or.inr hpp⟩
    · rintro ⟨rfl, h | rfl⟩
      · cases h
      · rfl
  | python =>
    constructor
    · intro h
      exact ⟨Python.file_inj hd.named hd'.named h, Or.inl rfl⟩
    · rintro ⟨rfl, -⟩
      rfl

theorem Target.noReturn_render (hd : d.WellFormed) (hp : '\r' ∉ package) : '\r' ∉ target.render package d := by
  cases target with
  | java => exact Java.noReturn_file hd hp
  | python => exact Python.noReturn_file hd.named

end Texts

/-! ## What a run leaves -/

namespace Stage

variable {w w' : World} {directory : Path} {outputs : List Output} {o o' : Output} {outcome : Outcome}

/-- After a run into a plain directory that ends well, every output stands in its place. -/
theorem Ended.placed (h : Ended w directory outputs outcome w') (hw : w.Rooted) (hp : Plain w directory)
    (hd : (outputs.map (·.path.name)).Nodup) (hexit : outcome.ending = .exit 0) :
    ∀ o ∈ outputs, ∃ d mode, w'.Names o.path d o.path.name ∧
      w'.tree.get? (d ++ [o.path.name]) = some (fileOf o mode) := by
  obtain ⟨-, T, D, trail, parcels, w₁, hplan, hu⟩ := h.of_exit hexit
  obtain ⟨rfl, -, hn⟩ := hplan.plain hw hp
  have hreach := hu.reached (Cargo.nil w directory T) hn .straight
  intro o ho
  rw [← hplan.covers] at ho hd
  obtain ⟨q, hq, rfl⟩ := List.mem_map.mp ho
  rw [List.map_map] at hd
  exact ⟨D, q.mode, (hplan.cargo.ready q hq).names_of_reached hreach, hu.placed hd hq⟩

end Stage

namespace Check

variable {w : World} {o o' : Output} {outputs : List Output} {report : Report} {outcome : Outcome}

/-- The answer to an output in whose place another one was written. -/
theorem answer_of_placed {d : Location} {mode : Nat} (hnames : w.Names o.path d o.path.name)
    (hfile : w.tree.get? (d ++ [o.path.name]) = some (Stage.fileOf o mode)) (hreturn : '\r' ∉ o.text)
    (hpath : o'.path = o.path) :
    answer w o' = .ok (if o.text = o'.text then .upToDate o'.path else .outOfDate o'.path) := by
  have hstat : w.stat (Route.ofPath o'.path) = .ok mode := by
    rw [hpath]
    exact hnames.stat_eq hfile (by simp [Stage.fileOf])
  have hread : w.read (Route.ofPath o'.path) = .ok (Text.Utf8.encode o.text) := by
    rw [hpath]
    exact hnames.read_eq hfile
  simp only [answer, hstat, hread, verdict_encode o' hreturn]

/-- Where names are distinct, the reports on an output's path are those on the output. -/
theorem Checked.mem_reports_at (h : Checked w outputs outcome) (hd : (outputs.map (·.path.name)).Nodup)
    {pre post : List Output} (hout : outputs = pre ++ o :: post)
    (hr : report = .upToDate o.path ∨ report = .outOfDate o.path) :
    report ∈ outcome.reports ↔ (∀ q ∈ pre, ¬ Hidden w q) ∧ answer w o = .ok report := by
  rw [h.mem_reports]
  constructor
  · rintro ⟨pre', o', post', hout', hpre', hanswer⟩
    have ho : o ∈ outputs := hout ▸ List.mem_append_right _ List.mem_cons_self
    have ho' : o' ∈ outputs := hout' ▸ List.mem_append_right _ List.mem_cons_self
    obtain rfl : o' = o := Stage.eq_of_name hd ho' ho (congrArg Path.name (answer_path hanswer hr))
    have hnot : ∀ {front back : List Output}, outputs = front ++ o' :: back → o' ∉ front := by
      intro front back he hm
      rw [he, List.map_append, List.map_cons] at hd
      exact (List.nodup_append.mp hd).2.2 _ (List.mem_map_of_mem hm) _ List.mem_cons_self rfl
    obtain ⟨rfl, -⟩ := Text.append_first_inj (hnot hout) (hnot hout') (hout.symm.trans hout')
    exact ⟨hpre', hanswer⟩
  · rintro ⟨hpre, hanswer⟩
    exact ⟨pre, o, post, hout, hpre, hanswer⟩

end Check

/-! ## A check after a run -/

namespace Command

open Stage

variable {w w' : World} {target : Target} {s₁ s₂ : Settings} {g₁ g₂ : Grammar} {ds₁ ds₂ : List Descriptor}

structure Revisit (w : World) (target : Target) (s₁ : Settings) (g₁ : Grammar) (ds₁ : List Descriptor)
    (w' : World) (s₂ : Settings) (g₂ : Grammar) (ds₂ : List Descriptor) : Prop where
  rooted : w.Rooted
  plain : Plain w (Path.ofText s₁.directory)
  writing : s₁.check = false
  checking : s₂.check = true
  directory : s₂.directory = s₁.directory
  target₁ : s₁.target = some target
  target₂ : s₂.target = some target
  bases₁ : g₁ ≠ [] ∧ (g₁.map Prod.fst).Nodup
  bases₂ : g₂ ≠ [] ∧ (g₂.map Prod.fst).Nodup
  parsed₁ : Descriptor.parseGrammar g₁ = .ok ds₁
  parsed₂ : Descriptor.parseGrammar g₂ = .ok ds₂
  noReturn : '\r' ∉ s₁.package
  written : ((runGrammar s₁ g₁).run w).1.ending = .exit 0
  after : ((runGrammar s₁ g₁).run w).2 = w'

structure Told (reports : List Report) (p : Path) (same : Prop) : Prop where
  upToDate : .upToDate p ∈ reports ↔ same
  outOfDate : .outOfDate p ∈ reports ↔ ¬ same

theorem Revisit.placed (h : Revisit w target s₁ g₁ ds₁ w' s₂ g₂ ds₂) :
    ∀ o ∈ outputs s₁ target ds₁, ∃ d mode, w'.Names o.path d o.path.name ∧
      w'.tree.get? (d ++ [o.path.name]) = some (fileOf o mode) := by
  have hrun : runGrammar s₁ g₁ = writeAll (outputs s₁ target ds₁) := by
    simp only [runGrammar, h.parsed₁, h.target₁, h.writing]
    rfl
  have hids := (Descriptor.parseGrammar_bases h.parsed₁).2
  have hdistinct : ((outputs s₁ target ds₁).map (·.path.name)).Nodup := outputs_distinct h.bases₁.2 h.parsed₁ target
  have hne : outputs s₁ target ds₁ ≠ [] := outputs_ne_nil h.bases₁.1 h.parsed₁ target
  have hsome : ds₁ ≠ [] := fun he => hne (by rw [he]; rfl)
  have hexit := h.written
  rw [hrun] at hexit
  rw [← h.after, hrun]
  rcases fits_or_unchanged w s₁ target hsome hids with hfits | ⟨-, -, hfailed⟩
  · exact (writeAll_cases hfits hdistinct hne).placed h.rooted h.plain hdistinct hexit
  · exact absurd hexit hfailed

/-- The check answers for a base type of both grammars by comparing what they make of it. -/
theorem Revisit.answer (h : Revisit w target s₁ g₁ ds₁ w' s₂ g₂ ds₂) {d₁ d₂ : Descriptor} (hd₁ : d₁ ∈ ds₁)
    (hbase : d₁.base = d₂.base) :
    Check.answer w' (output (Path.ofText s₂.directory) target s₂.package d₂) =
      .ok (if target.render s₁.package d₁ = target.render s₂.package d₂
        then .upToDate ((Path.ofText s₂.directory).output target d₂.base)
        else .outOfDate ((Path.ofText s₂.directory).output target d₂.base)) := by
  obtain ⟨d, mode, hnames, hfile⟩ := h.placed _ (List.mem_map_of_mem hd₁)
  have hwell := Descriptor.parseGrammar_wellFormed h.parsed₁ d₁ hd₁
  have hpath : (output (Path.ofText s₂.directory) target s₂.package d₂).path =
      (output (Path.ofText s₁.directory) target s₁.package d₁).path := by
    rw [output, output, h.directory, hbase]
  exact Check.answer_of_placed hnames hfile (Target.noReturn_render hwell h.noReturn) hpath

theorem Revisit.check_eq (h : Revisit w target s₁ g₁ ds₁ w' s₂ g₂ ds₂) :
    runGrammar s₂ g₂ = Check.checkAll (outputs s₂ target ds₂) := by
  simp only [runGrammar, h.parsed₂, h.target₂, h.checking]
  rfl

/-- A base type of both grammars is told about exactly if no base type before it is hidden. -/
theorem Revisit.told_iff (h : Revisit w target s₁ g₁ ds₁ w' s₂ g₂ ds₂) {pre post : List Descriptor}
    {d₁ d₂ : Descriptor} (hds₂ : ds₂ = pre ++ d₂ :: post) (hd₁ : d₁ ∈ ds₁) (hbase : d₁.base = d₂.base) :
    Told ((runGrammar s₂ g₂).run w').1.reports ((Path.ofText s₂.directory).output target d₂.base)
        (d₁ = d₂ ∧ (target = .python ∨ s₁.package = s₂.package)) ↔
      ∀ d ∈ pre, ¬ Check.Hidden w' (output (Path.ofText s₂.directory) target s₂.package d) := by
  have hd₂ : d₂ ∈ ds₂ := hds₂ ▸ List.mem_append_right _ List.mem_cons_self
  have hwell₁ := Descriptor.parseGrammar_wellFormed h.parsed₁ d₁ hd₁
  have hwell₂ := Descriptor.parseGrammar_wellFormed h.parsed₂ d₂ hd₂
  have hdistinct : ((outputs s₂ target ds₂).map (·.path.name)).Nodup := outputs_distinct h.bases₂.2 h.parsed₂ target
  have hout : outputs s₂ target ds₂ = outputs s₂ target pre ++
      output (Path.ofText s₂.directory) target s₂.package d₂ :: outputs s₂ target post := by
    rw [hds₂, outputs, List.map_append, List.map_cons]
    rfl
  have hchecked := (Check.checkAll_cases w' (outputs s₂ target ds₂)).2
  have hanswer := h.answer hd₁ hbase
  -- each of the two reports is made if the check gets that far and the texts are as it says
  have hup := hchecked.mem_reports_at hdistinct hout (Or.inl rfl)
  have hold := hchecked.mem_reports_at hdistinct hout (Or.inr rfl)
  rw [hanswer] at hup hold
  rw [h.check_eq, ← Target.render_eq_iff hwell₁ hwell₂]
  have hpre : (∀ q ∈ outputs s₂ target pre, ¬ Check.Hidden w' q) ↔
      ∀ d ∈ pre, ¬ Check.Hidden w' (output (Path.ofText s₂.directory) target s₂.package d) :=
    List.forall_mem_map
  rw [hpre] at hup hold
  by_cases hsame : target.render s₁.package d₁ = target.render s₂.package d₂
  · rw [if_pos hsame] at hup hold
    constructor
    · intro told
      exact (hup.mp (told.upToDate.mpr hsame)).1
    · intro hseen
      refine ⟨⟨fun _ => hsame, fun _ => hup.mpr ⟨hseen, rfl⟩⟩, ⟨fun hm => ?_, fun hne => absurd hsame hne⟩⟩
      cases (hold.mp hm).2
  · rw [if_neg hsame] at hup hold
    constructor
    · intro told
      exact (hold.mp (told.outOfDate.mpr hsame)).1
    · intro hseen
      refine ⟨⟨fun hm => ?_, fun he => absurd he hsame⟩, ⟨fun _ => hsame, fun _ => hold.mpr ⟨hseen, rfl⟩⟩⟩
      cases (hup.mp hm).2

/-- With the grammar and the package of the run, every file is up to date. -/
theorem Revisit.unchanged (h : Revisit w target s₁ g₁ ds₁ w' s₂ g₂ ds₂) (hg : g₁ = g₂)
    (hp : s₁.package = s₂.package) :
    (runGrammar s₂ g₂).run w' =
      (⟨ds₂.map fun d => .upToDate ((Path.ofText s₂.directory).output target d.base), .exit 0⟩, w') := by
  have hds : ds₁ = ds₂ := by
    have hparsed := h.parsed₁
    rw [hg, h.parsed₂] at hparsed
    exact (Except.ok.inj hparsed).symm
  have hanswers : (outputs s₂ target ds₂).map (Check.answer w') =
      (ds₂.map fun d => Report.upToDate ((Path.ofText s₂.directory).output target d.base)).map .ok := by
    rw [outputs, List.map_map, List.map_map]
    refine List.map_congr_left fun d hd => ?_
    have hd₁ : d ∈ ds₁ := hds ▸ hd
    have hanswer := h.answer hd₁ rfl
    rw [if_pos (by rw [hp])] at hanswer
    exact hanswer
  rw [h.check_eq, Check.checkAll, Check.checkFrom_run_all [] hanswers, List.nil_append, Check.exitCode, if_pos]
  simp [Report.stream]

/-- For a base type of both grammars, a check after a run tells whether its descriptor, and for Java the
    package, is the same, exactly if no base type before it is hidden. With the same grammar and package
    all files are up to date. -/
theorem drift_told (h : Revisit w target s₁ g₁ ds₁ w' s₂ g₂ ds₂) :
    (∀ pre d₂ post d₁, ds₂ = pre ++ d₂ :: post → d₁ ∈ ds₁ → d₁.base = d₂.base →
      (Told ((runGrammar s₂ g₂).run w').1.reports ((Path.ofText s₂.directory).output target d₂.base)
          (d₁ = d₂ ∧ (target = .python ∨ s₁.package = s₂.package)) ↔
        ∀ d ∈ pre, ¬ Check.Hidden w' (output (Path.ofText s₂.directory) target s₂.package d))) ∧
    (g₁ = g₂ → s₁.package = s₂.package → (runGrammar s₂ g₂).run w' =
      (⟨ds₂.map fun d => .upToDate ((Path.ofText s₂.directory).output target d.base), .exit 0⟩, w')) :=
  ⟨fun _ _ _ _ hds₂ hd₁ hbase => h.told_iff hds₂ hd₁ hbase, h.unchanged⟩

def tablesFor (bases : List Text) : Grammar := bases.map fun base => (base, ["V :".toList])

def descriptorsFor (bases : List Text) : List Descriptor := bases.map fun base => ⟨base, [⟨['V'], []⟩]⟩

theorem parse_tablesFor {bases : List Text} (h : ∀ base ∈ bases, Text.isIdentifier base = true) :
    Descriptor.parseGrammar (tablesFor bases) = .ok (descriptorsFor bases) := by
  induction bases with
  | nil => rfl
  | cons base rest ih =>
    have hrest := ih fun b hb => h b (List.mem_cons_of_mem _ hb)
    have hbase : Descriptor.parse base ["V :".toList] = .ok ⟨base, [⟨['V'], []⟩]⟩ := by
      unfold Descriptor.parse
      rw [if_pos (h base List.mem_cons_self)]
      rfl
    exact Descriptor.parseGrammar_of_parse hbase hrest

def settingsFor (check : Bool) : Settings := ⟨['.'], ['g'], some .java, "lox".toList, check⟩

def firstRun : World :=
  ((runGrammar (settingsFor false) (tablesFor [['B']])).run (World.fresh [("w".toList, 0o755)] 0o022)).2

theorem revisit_firstRun (bases : List Text) (hne : bases ≠ []) (hnodup : ((tablesFor bases).map Prod.fst).Nodup)
    (hids : ∀ base ∈ bases, Text.isIdentifier base = true) :
    Revisit (World.fresh [("w".toList, 0o755)] 0o022) .java (settingsFor false) (tablesFor [['B']])
      (descriptorsFor [['B']]) firstRun (settingsFor true) (tablesFor bases) (descriptorsFor bases) where
  rooted := rooted_fresh
  plain := plain_fresh
  writing := rfl
  checking := rfl
  directory := rfl
  target₁ := rfl
  target₂ := rfl
  bases₁ := by decide
  bases₂ := ⟨fun h => hne (List.map_eq_nil_iff.mp h), hnodup⟩
  parsed₁ := rfl
  parsed₂ := parse_tablesFor hids
  noReturn := by decide
  written := by decide +kernel
  after := rfl

theorem drift_told_first :
    Told ((runGrammar (settingsFor true) (tablesFor [['B'], ['C']])).run firstRun).1.reports
      ((Path.ofText ['.']).output .java ['B']) (Descriptor.mk ['B'] [⟨['V'], []⟩] = ⟨['B'], [⟨['V'], []⟩]⟩ ∧
        (Target.java = .python ∨ "lox".toList = "lox".toList)) :=
  ((drift_told (revisit_firstRun [['B'], ['C']] (by decide) (by decide) (by decide))).1 []
    ⟨['B'], [⟨['V'], []⟩]⟩ [⟨['C'], [⟨['V'], []⟩]⟩] ⟨['B'], [⟨['V'], []⟩]⟩ rfl List.mem_cons_self rfl).mpr
      fun _ hd => nomatch hd

/-- A name too long for a file stops the check before it comes to the files behind it. -/
theorem untold :
    Revisit (World.fresh [("w".toList, 0o755)] 0o022) .java (settingsFor false) (tablesFor [['B']])
      (descriptorsFor [['B']]) firstRun (settingsFor true) (tablesFor [List.replicate 300 'A', ['B']])
      (descriptorsFor [List.replicate 300 'A', ['B']]) ∧
    ((runGrammar (settingsFor true) (tablesFor [List.replicate 300 'A', ['B']])).run firstRun).1 =
      ⟨[], .abort (.refused (.errno .nameTooLong))⟩ ∧
    ¬ Told ((runGrammar (settingsFor true) (tablesFor [List.replicate 300 'A', ['B']])).run firstRun).1.reports
      ((Path.ofText ['.']).output .java ['B']) True := by
  have hrun : ((runGrammar (settingsFor true) (tablesFor [List.replicate 300 'A', ['B']])).run firstRun).1 =
      ⟨[], .abort (.refused (.errno .nameTooLong))⟩ := by decide +kernel
  refine ⟨revisit_firstRun _ (by decide) (by decide +kernel) (by decide +kernel), hrun, fun told => ?_⟩
  have hm := told.upToDate.mpr trivial
  rw [hrun] at hm
  cases hm

end Command

end NodeGen
