/-
  NodeGen.Proofs.Verdicts — what the verdicts of a check are worth.

  A check reads a file as text in which line ends of all kinds are line feeds, but nothing of the kind is
  done to what is written. `up_to_date_iff_holds`: the verdict on a rendered output tells whether its file
  holds the very bytes that are written for it, except in three cases (`Misjudged`). The package may have
  carriage returns, which are not found again in the file; the file may have carriage returns where line
  feeds are due; or the check may stop before it comes to the file.

  `check_covers`: a check reports on every output, and on each as if it were checked alone (`Covered`),
  exactly if no path is too long to be looked at. The first that is too long ends the check.
-/

import NodeGen.Proofs.Draws
import NodeGen.Proofs.Drift

namespace NodeGen

/-! ## Carriage returns -/

namespace Text

theorem return_not_mem_unifyNewlines (t : Text) : '\r' ∉ unifyNewlines t := by
  induction t using unifyNewlines.induct with
  | case1 => exact List.not_mem_nil
  | case2 rest ih =>
    intro h
    rcases List.mem_cons.mp h with h | h
    · cases h
    · exact ih h
  | case3 c rest hpair ih =>
    intro h
    rw [unifyNewlines] at h
    rcases List.mem_cons.mp h with h | h
    · split at h
      · cases h
      · rename_i hc
        exact hc h.symm
    · exact ih h
    · exact hpair

theorem unifyNewlines_eq_self_iff {t : Text} : unifyNewlines t = t ↔ '\r' ∉ t := by
  constructor
  · intro h
    rw [← h]
    exact return_not_mem_unifyNewlines t
  · exact unifyNewlines_eq_self

end Text

/-- Only the package of a Java file can bring in a carriage return. -/
theorem Target.return_mem_render {target : Target} {d : Descriptor} (hd : d.WellFormed) (package : Text) :
    '\r' ∈ target.render package d ↔ target = .java ∧ '\r' ∈ package := by
  cases target with
  | java =>
    have hrow : '\r' ∈ package → '\r' ∈ Target.java.render package d := by
      intro h
      have hfirst : Java.packageRow package ∈ Java.fileRows package d := by
        rw [Java.fileRows_eq]
        exact List.mem_cons_self
      have hmem : '\r' ∈ Java.packageRow package := List.mem_append_left _ (List.mem_append_right _ h)
      exact List.mem_append_left _ (Text.mem_intercalate_of_mem hfirst hmem)
    constructor
    · intro h
      by_cases hp : '\r' ∈ package
      · exact ⟨rfl, hp⟩
      · exact absurd h (Target.noReturn_render hd hp)
    · rintro ⟨-, hp⟩
      exact hrow hp
  | python =>
    constructor
    · intro h
      exact absurd h (Python.noReturn_file hd.named)
    · rintro ⟨h, -⟩
      cases h

namespace Check

variable {w : World} {o q : Output} {d : Descriptor} {target : Target} {package : Text} {report : Report}
  {outputs pre post : List Output} {outcome : Outcome}

/-! ## What up-to-date means -/

theorem stat_of_read {route : Route} {content : Text.Bytes} (h : w.read route = .ok content) :
    ∃ mode, w.stat route = .ok mode := by
  simp only [World.stat, World.read, bind, Except.bind] at h ⊢
  cases hl : w.locateNode route with
  | error r => rw [hl] at h; cases h
  | ok l =>
    rw [hl] at h
    simp only at h ⊢
    cases hg : w.tree.get? l with
    | none => rw [hg] at h; cases h
    | some node => exact ⟨node.mode, rfl⟩

/-- The file in the place of an output holds the bytes that are written for the output. -/
def Holds (w : World) (o : Output) : Prop := w.read (Route.ofPath o.path) = .ok (Text.Utf8.encode o.text)

/-- An output passes for up to date if it is what is left when the line ends of the file are unified. -/
theorem answer_upToDate_iff :
    answer w o = .ok (.upToDate o.path) ↔
      ∃ s, w.read (Route.ofPath o.path) = .ok (Text.Utf8.encode s) ∧ Text.unifyNewlines s = o.text := by
  constructor
  · intro h
    unfold answer at h
    split at h
    · split at h <;> cases h
    · split at h
      · rename_i content hread
        unfold verdict at h
        split at h
        · cases h
        · rename_i s hs
          split at h
          · rename_i hsame
            exact ⟨s, Text.Utf8.decode_eq_ok_iff.mp hs ▸ hread, hsame⟩
          · cases h
      · cases h
      · cases h
  · rintro ⟨s, hread, hsame⟩
    obtain ⟨mode, hstat⟩ := stat_of_read hread
    simp only [answer, hstat, hread, verdict, Text.Utf8.decode_encode, if_pos hsame]

theorem Holds.text_eq {s : Text} (h : Holds w o) (hread : w.read (Route.ofPath o.path) = .ok (Text.Utf8.encode s)) :
    s = o.text := by
  have hbytes : Text.Utf8.encode o.text = Text.Utf8.encode s := Except.ok.inj (h.symm.trans hread)
  exact Except.ok.inj ((Text.Utf8.decode_encode s).symm.trans (Text.Utf8.decode_eq_ok_iff.mpr hbytes.symm))

/-- The ways in which a check goes wrong about an output that was rendered for a target and a package. -/
inductive Misjudged (w : World) (pre : List Output) (target : Target) (package : Text) (o : Output) : Prop
  /-- The bytes are right, but the carriage returns of the package are not found again in them. -/
  | package : Holds w o → target = .java → '\r' ∈ package → Misjudged w pre target package o
  /-- The file has carriage returns for line feeds. -/
  | lineEnds {s : Text} : (∀ q ∈ pre, ¬ Hidden w q) → w.read (Route.ofPath o.path) = .ok (Text.Utf8.encode s) →
      '\r' ∈ s → Text.unifyNewlines s = o.text → Misjudged w pre target package o
  /-- The bytes are right, but the check stopped before it came to them. -/
  | unreached {q : Output} : Holds w o → q ∈ pre → Hidden w q → Misjudged w pre target package o

/-- A rendered output is reported up to date if and only if its file holds the bytes that are written for
    it, exactly where it is not misjudged. -/
theorem up_to_date_iff_holds (hd : d.WellFormed) (ho : o.text = target.render package d) :
    (((checkAll (pre ++ o :: post)).run w).1.reports[pre.length]? = some (.upToDate o.path) ↔ Holds w o) ↔
      ¬ Misjudged w pre target package o := by
  have hreported : ((checkAll (pre ++ o :: post)).run w).1.reports[pre.length]? = some (.upToDate o.path) ↔
      (∀ q ∈ pre, ¬ Hidden w q) ∧ answer w o = .ok (.upToDate o.path) :=
    (checkAll_cases w (pre ++ o :: post)).2.getElem?_reports
  have hreturn : '\r' ∈ o.text ↔ target = .java ∧ '\r' ∈ package := ho ▸ Target.return_mem_render hd package
  rw [hreported, answer_upToDate_iff]
  constructor
  · intro hiff misjudged
    cases misjudged with
    | package holds hjava hpackage =>
      obtain ⟨-, s, hread, hsame⟩ := hiff.mpr holds
      rw [holds.text_eq hread, Text.unifyNewlines_eq_self_iff] at hsame
      exact hsame (hreturn.mpr ⟨hjava, hpackage⟩)
    | @lineEnds s hpre hread hs hsame =>
      have holds : Holds w o := hiff.mp ⟨hpre, s, hread, hsame⟩
      rw [holds.text_eq hread, ← hsame] at hs
      exact Text.return_not_mem_unifyNewlines s hs
    | unreached holds hq hidden => exact (hiff.mpr holds).1 _ hq hidden
  · intro hnot
    constructor
    · rintro ⟨hpre, s, hread, hsame⟩
      by_cases hs : '\r' ∈ s
      · exact absurd (.lineEnds hpre hread hs hsame) hnot
      · rw [Text.unifyNewlines_eq_self hs] at hsame
        rw [hsame] at hread
        exact hread
    · intro holds
      refine ⟨fun q hq hidden => hnot (.unreached holds hq hidden), o.text, holds, ?_⟩
      refine Text.unifyNewlines_eq_self fun hr => ?_
      obtain ⟨hjava, hpackage⟩ := hreturn.mp hr
      exact hnot (.package holds hjava hpackage)

def leaf : Descriptor := ⟨['B'], [⟨['V'], []⟩]⟩

def leafOutput (package : Text) : Output := Command.output (Path.ofText ['.']) .java package leaf

theorem leaf_wellFormed : leaf.WellFormed where
  base := by decide
  nonempty := List.cons_ne_nil _ _
  variants := by
    intro v hv
    obtain rfl := List.mem_singleton.mp hv
    exact ⟨by decide, by simp, List.nodup_nil, by simp⟩
  distinct := by decide

def leafWorld (t : Text) : World where
  tree := ⟨[([], .directory 0o755), (["w".toList], .directory 0o755),
    (["w".toList, "B.java".toList], .file 0o644 (Text.Utf8.encode t))]⟩
  cwd := ["w".toList]
  umask := 0o022
  suffixes := Suffix.ofNat
  drawn := 0

theorem up_to_date_iff_holds_leaf :
    leaf.WellFormed ∧ (leafOutput "lox".toList).text = Target.java.render "lox".toList leaf ∧
      (((checkAll [leafOutput "lox".toList]).run (leafWorld (leafOutput "lox".toList).text)).1.reports[0]? =
          some (.upToDate (leafOutput "lox".toList).path) ↔
        Holds (leafWorld (leafOutput "lox".toList).text) (leafOutput "lox".toList)) := by
  have holds : Holds (leafWorld (leafOutput "lox".toList).text) (leafOutput "lox".toList) := by
    unfold Holds
    decide +kernel
  have hclean : '\r' ∉ (leafOutput "lox".toList).text := by decide +kernel
  have hnot : ¬ Misjudged (leafWorld (leafOutput "lox".toList).text) [] .java "lox".toList (leafOutput "lox".toList) := by
    intro misjudged
    cases misjudged with
    | package _ _ hpackage => exact absurd hpackage (by decide)
    | lineEnds _ hread hs => exact hclean (holds.text_eq hread ▸ hs)
    | unreached _ hq => cases hq
  have htext : (leafOutput "lox".toList).text = Target.java.render "lox".toList leaf := rfl
  exact ⟨leaf_wellFormed, htext, (up_to_date_iff_holds leaf_wellFormed htext).mpr hnot⟩

/-- With a carriage return in the package, the file as it is written passes for out of date; a file with
    carriage returns for its line feeds, which would be replaced, passes for up to date. -/
theorem misjudged_leaf :
    (Holds (leafWorld (leafOutput ['a', '\r', 'b']).text) (leafOutput ['a', '\r', 'b']) ∧
      ((checkAll [leafOutput ['a', '\r', 'b']]).run (leafWorld (leafOutput ['a', '\r', 'b']).text)).1.reports =
        [.outOfDate (leafOutput ['a', '\r', 'b']).path]) ∧
    (¬ Holds (leafWorld ((leafOutput ['a']).text.map fun c => if c = '\n' then '\r' else c)) (leafOutput ['a']) ∧
      ((checkAll [leafOutput ['a']]).run
          (leafWorld ((leafOutput ['a']).text.map fun c => if c = '\n' then '\r' else c))).1.reports =
        [.upToDate (leafOutput ['a']).path]) := by
  unfold Holds
  decide +kernel

/-! ## All of a list -/

inductive Concerns (p : Path) : Report → Prop
  | upToDate : Concerns p (.upToDate p)
  | missing : Concerns p (.missing p)
  | outOfDate : Concerns p (.outOfDate p)
  | unreadable (problem : ReadProblem) : Concerns p (.unreadable p problem)

structure Judged (w : World) (o : Output) (report : Report) : Prop where
  concerns : Concerns o.path report
  alone : ((checkAll [o]).run w).1.reports = [report]
  stream : report.stream = .output ↔ report = .upToDate o.path

structure Covered (w : World) (outputs : List Output) (outcome : Outcome) : Prop where
  reports : List.Forall₂ (Judged w) outputs outcome.reports
  ending : outcome.ending = .exit (if outcome.reports = outputs.map (.upToDate ·.path) then 0 else 1)

theorem concerns_of_answer (h : answer w o = .ok report) : Concerns o.path report := by
  unfold answer at h
  split at h
  · split at h <;> cases h
    exact .missing
  · split at h
    · cases h
      unfold verdict
      split
      · exact .unreadable _
      · split
        · exact .upToDate
        · exact .outOfDate
    · cases h
      exact .unreadable _
    · cases h

theorem Concerns.stream_iff {p : Path} (h : Concerns p report) : report.stream = .output ↔ report = .upToDate p := by
  cases h <;> simp [Report.stream]

theorem judged_of_answer (h : answer w o = .ok report) : Judged w o report where
  concerns := concerns_of_answer h
  alone := by
    have hanswers : [o].map (answer w) = [report].map .ok := by rw [List.map_singleton, List.map_singleton, h]
    rw [checkAll, checkFrom_run_all [] hanswers]
    rfl
  stream := (concerns_of_answer h).stream_iff

theorem judged_of_answers {reports : List Report} (h : outputs.map (answer w) = reports.map .ok) :
    List.Forall₂ (Judged w) outputs reports := by
  induction outputs generalizing reports with
  | nil =>
    obtain rfl := List.map_eq_nil_iff.mp h.symm
    exact .nil
  | cons o rest ih =>
    cases reports with
    | nil => cases h
    | cons report reports =>
      obtain ⟨ho, hrest⟩ := List.cons.inj h
      exact .cons (judged_of_answer ho) (ih hrest)

theorem all_output_iff {reports : List Report} (h : List.Forall₂ (Judged w) outputs reports) :
    reports.all (·.stream = .output) = true ↔ reports = outputs.map (.upToDate ·.path) := by
  induction h with
  | nil => simp
  | cons ho _ ih =>
    simp only [List.all_cons, Bool.and_eq_true, decide_eq_true_eq, List.map_cons, List.cons.injEq, ho.stream, ih]

/-- A check covers all outputs if none of them is hidden. -/
theorem Checked.covered (h : Checked w outputs outcome) (hall : ∀ o ∈ outputs, ¬ Hidden w o) :
    Covered w outputs outcome := by
  cases h with
  | all reports hanswers =>
    have hjudged := judged_of_answers hanswers
    refine ⟨hjudged, ?_⟩
    simp only [exitCode, all_output_iff hjudged]
  | stopped pre o post reports hout _ hidden =>
    exact absurd hidden (hall o (hout ▸ List.mem_append_right _ List.mem_cons_self))

theorem Covered.not_hidden (h : Covered w outputs outcome) (hc : Checked w outputs outcome) :
    ∀ o ∈ outputs, ¬ Hidden w o := by
  cases hc with
  | all reports hanswers => exact fun o ho => not_hidden_of_answers hanswers ho
  | stopped => cases h.ending

/-- Up to the first hidden output the reports are made all the same. -/
theorem checkAll_stopped (hpre : ∀ q ∈ pre, ¬ Hidden w q) (ho : Hidden w o) :
    ∃ reports, List.Forall₂ (Judged w) pre reports ∧
      ((checkAll (pre ++ o :: post)).run w).1 = ⟨reports, .abort (.refused (.errno .nameTooLong))⟩ := by
  rcases answers_cases w pre with ⟨reports, hanswers⟩ | ⟨front, q, back, -, hsplit, -, hidden⟩
  · refine ⟨reports, judged_of_answers hanswers, ?_⟩
    rw [checkAll, checkFrom_run_stopped [] hanswers ho]
    rfl
  · exact absurd hidden (hpre q (hsplit ▸ List.mem_append_right _ List.mem_cons_self))

/-! ### Names that are too long -/

/-- An entry of a directory that is reached, if it is no link, is hidden exactly if its name or the whole
    path is too long. -/
theorem hidden_child_iff {directory : Path} {place : Location} {n : Text} (text : Text) (hne : n ≠ [])
    (hdot : n ≠ ['.']) (hdots : n ≠ ['.', '.']) (hnul : '\x00' ∉ (Route.ofPath (directory.child n)).text)
    (hreach : w.tree.walkDirectory (w.start (Route.ofPath directory)) directory.parts = .ok place)
    (hlink : ∀ link, w.tree.get? (place ++ [n]) ≠ some (.link link)) :
    Hidden w ⟨directory.child n, text⟩ ↔
      maxName < Text.Utf8.size n ∨ maxPath ≤ Text.Utf8.size (directory.child n).toText := by
  have hsome : (Route.ofPath (directory.child n)).text ≠ [] := Path.child_toText_ne_nil directory hne
  unfold Hidden
  by_cases hlong : maxPath ≤ Text.Utf8.size (directory.child n).toText
  · have ha : Route.admit (Route.ofPath (directory.child n)) = .error (.errno .nameTooLong) := by
      unfold Route.admit
      rw [if_neg hnul, if_neg hsome]
      exact if_pos hlong
    exact iff_of_true (World.stat_of_refused (World.locate_refused ha)) (Or.inr hlong)
  have ha : Route.admit (Route.ofPath (directory.child n)) = .ok () :=
    Route.admit_eq_ok_iff.mpr ⟨hnul, hsome, Nat.not_le.mp hlong⟩
  obtain ⟨⟨ls, hway⟩, hplace⟩ := Tree.walkDirectory_eq_ok_iff.mp hreach
  -- the walk along the path ends with a step from the directory
  have hlocate : w.locate (Route.ofPath (directory.child n)) =
      World.lift (w.tree.walk (maxLinks - ls.length) place [n]) := by
    rw [World.locate_eq ha]
    exact congrArg World.lift (hway.walk_append [n])
  rw [Tree.walk_cons, if_pos hplace, if_neg hdot, if_neg hdots] at hlocate
  by_cases hname : maxName < Text.Utf8.size n
  · rw [if_pos hname] at hlocate
    exact iff_of_true (World.stat_of_refused hlocate) (Or.inl hname)
  · rw [if_neg hname] at hlocate
    refine iff_of_false ?_ (not_or.mpr ⟨hname, hlong⟩)
    cases hg : w.tree.get? (place ++ [n]) with
    | none =>
      rw [hg] at hlocate
      rw [World.stat_of_vacant hlocate]
      simp
    | some node =>
      have hspot : w.locate (Route.ofPath (directory.child n)) = .ok (.node (place ++ [n])) := by
        rw [hlocate, hg]
        cases node with
        | file => simp [World.lift]
        | directory => simp [World.lift]
        | link link => exact absurd hg (hlink link)
      rw [World.stat_of_locate hspot, hg]
      simp

/-- A check reports on all outputs, one after the other and each for itself, exactly if none of them is
    hidden. At the first hidden one it aborts. In a directory that is reached, this is an output whose
    name is too long for an entry, or whose path is too long. -/
theorem check_covers (w : World) (outputs : List Output) :
    (Covered w outputs ((checkAll outputs).run w).1 ↔ ∀ o ∈ outputs, ¬ Hidden w o) ∧
    (∀ pre o post, outputs = pre ++ o :: post → (∀ q ∈ pre, ¬ Hidden w q) → Hidden w o →
      ∃ reports, List.Forall₂ (Judged w) pre reports ∧
        ((checkAll outputs).run w).1 = ⟨reports, .abort (.refused (.errno .nameTooLong))⟩) ∧
    ∀ directory target base text place, Text.isIdentifier base = true → '\x00' ∉ (Route.ofPath directory).text →
      w.tree.walkDirectory (w.start (Route.ofPath directory)) directory.parts = .ok place →
      (∀ link, w.tree.get? (place ++ [Target.fileName target base]) ≠ some (.link link)) →
      (Hidden w ⟨directory.output target base, text⟩ ↔
        maxName < Text.Utf8.size (target.fileName base) ∨
          maxPath ≤ Text.Utf8.size (directory.output target base).toText) := by
  have hchecked := (checkAll_cases w outputs).2
  refine ⟨⟨fun hcovered => hcovered.not_hidden hchecked, hchecked.covered⟩, ?_, ?_⟩
  · rintro pre o post rfl hpre ho
    exact checkAll_stopped hpre ho
  · intro directory target base text place hbase hnul hreach hlink
    have hhead := Target.fileName_head target hbase
    rw [Path.output_eq directory target hbase]
    refine hidden_child_iff text (Target.fileName_ne_nil target hbase) (fun e => hhead (by rw [e]; rfl))
      (fun e => hhead (by rw [e]; rfl)) (Path.clean fun part hpart hm => ?_) hreach hlink
    rcases List.mem_append.mp hpart with hpart | hpart
    · exact Path.parts_clean hnul hpart hm
    · rw [List.mem_singleton.mp hpart] at hm
      exact (Target.fileName_clean target hbase hm).2 rfl

def longNamed : List Output := [⟨(Path.ofText ['.']).output .java (List.replicate 300 'A'), []⟩, leafOutput ['a']]

theorem check_covers_long_name :
    ¬ Covered (leafWorld (leafOutput ['a']).text) longNamed
      ((checkAll longNamed).run (leafWorld (leafOutput ['a']).text)).1 := by
  intro hcovered
  have hcovers := check_covers (leafWorld (leafOutput ['a']).text) longNamed
  refine hcovers.1.mp hcovered _ List.mem_cons_self ?_
  have hentry : (leafWorld (leafOutput ['a']).text).tree.get?
      (["w".toList] ++ [Target.fileName .java (List.replicate 300 'A')]) = none := by decide +kernel
  refine (hcovers.2.2 (Path.ofText ['.']) .java (List.replicate 300 'A') [] ["w".toList] (by decide +kernel)
    (by decide) (by decide +kernel) (fun link h => ?_)).mpr (Or.inl (by decide +kernel))
  rw [hentry] at h
  cases h

/-- The check does not come to the second file, which it would report up to date. -/
theorem uncovered :
    Text.isIdentifier (List.replicate 300 'A') = true ∧
      ((checkAll longNamed).run (leafWorld (leafOutput ['a']).text)).1 =
        ⟨[], .abort (.refused (.errno .nameTooLong))⟩ ∧
      ((checkAll [leafOutput ['a']]).run (leafWorld (leafOutput ['a']).text)).1 =
        ⟨[.upToDate (leafOutput ['a']).path], .exit 0⟩ := by
  decide +kernel

end Check

end NodeGen
