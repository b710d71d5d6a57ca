/-
  NodeGen.Proofs.Checking — what a check reports.

  The report on an output depends on nothing but what stands in its place (`answer`). The reports are
  those on the outputs in order, up to the first output whose path the system finds too long; there the
  check stops (`checkAll_cases`).
-/

import NodeGen.Output.Check
import NodeGen.Proofs.Calls
import NodeGen.Proofs.Encoding

namespace NodeGen

/-! ## Refused walks -/

namespace Tree

def Astray (e : Errno) : Prop := e = .noEntry ∨ e = .notDirectory ∨ e = .linkLoop ∨ e = .nameTooLong

theorem walk_refused_cons {t : Tree} {k : Nat} {l : Location} {name : Text} {rest : List Text} {e : Errno}
    (hrest : ∀ l, t.walk k l rest = .error e → Astray e)
    (hlink : ∀ j l names, k = j + 1 → t.walk j l names = .error e → Astray e)
    (h : t.walk k l (name :: rest) = .error e) : Astray e := by
  rw [walk_cons] at h
  split at h
  · split at h
    · exact hrest _ h
    · split at h
      · exact hrest _ h
      · split at h
        · cases h
          exact Or.inr (Or.inr (Or.inr rfl))
        · split at h
          · split at h
            · cases h
            · cases h
              exact Or.inl rfl
          · split at h
            · cases h
              exact Or.inr (Or.inr (Or.inl rfl))
            · exact hlink _ _ _ rfl h
          · exact hrest _ h
  · cases h
    exact Or.inr (Or.inl rfl)

theorem walk_refused {t : Tree} {e : Errno} : ∀ (k : Nat) (l : Location) (names : List Text),
    t.walk k l names = .error e → Astray e := by
  intro k
  induction k with
  | zero =>
    intro l names
    induction names generalizing l with
    | nil => intro h; rw [walk_nil] at h; cases h
    | cons name rest ih => exact walk_refused_cons ih fun j _ _ e => absurd e (Nat.succ_ne_zero j).symm
  | succ k ihk =>
    intro l names
    induction names generalizing l with
    | nil => intro h; rw [walk_nil] at h; cases h
    | cons name rest ih =>
      refine walk_refused_cons ih fun j l names e h => ?_
      cases e
      exact ihk l names h

end Tree

namespace Check

variable {w : World} {o : Output} {outputs : List Output} {report : Report} {outcome : Outcome}

/-- A refused look means that nothing is there, or that the path or a name in it is too long. -/
theorem meansAbsent_of_stat {route : Route} {r : Refusal} (h : w.stat route = .error r) :
    meansAbsent r = true ∨ r = .errno .nameTooLong := by
  have habsent : ∀ e, Tree.Astray e → meansAbsent (.errno e) = true ∨ Refusal.errno e = .errno .nameTooLong := by
    rintro e (rfl | rfl | rfl | rfl)
    · exact Or.inl rfl
    · exact Or.inl rfl
    · exact Or.inl rfl
    · exact Or.inr rfl
  cases ha : route.admit with
  | error x =>
    rw [World.stat_of_refused (World.locate_refused ha)] at h
    cases h
    unfold Route.admit at ha
    split at ha
    · cases ha; exact Or.inl rfl
    · split at ha
      · cases ha; exact Or.inl rfl
      · split at ha
        · cases ha; exact Or.inr rfl
        · cases ha
  | ok _ =>
    have hl := World.locate_eq (w := w) ha
    cases hw : w.tree.walk maxLinks (w.start route) route.allNames with
    | error e =>
      rw [hw] at hl
      rw [World.stat_of_refused hl] at h
      cases h
      exact habsent e (Tree.walk_refused _ _ _ hw)
    | ok spot =>
      rw [hw] at hl
      cases spot with
      | vacant d n =>
        rw [World.stat_of_vacant hl] at h
        cases h
        exact Or.inl rfl
      | node l =>
        rw [World.stat_of_locate hl] at h
        split at h
        · cases h
        · cases h
          exact Or.inl rfl

/-! ## One output -/

/-- An output at a place that the system does not look for, since its path is too long. -/
def Hidden (w : World) (o : Output) : Prop := w.stat (Route.ofPath o.path) = .error (.errno .nameTooLong)

def answer (w : World) (o : Output) : Except Refusal Report :=
  match w.stat (Route.ofPath o.path) with
  | .error r => if meansAbsent r then .ok (.missing o.path) else .error r
  | .ok _ =>
    match w.read (Route.ofPath o.path) with
    | .ok content => .ok (verdict o content)
    | .error (.errno e) => .ok (.unreadable o.path (.refused e))
    | .error .nulInPath => .error .nulInPath

theorem checkOne_run (w : World) (o : Output) : (checkOne o).run w = (answer w o, w) := by
  simp only [checkOne, Script.run_bind, Script.run_ask, World.perform, answer]
  cases w.stat (Route.ofPath o.path) with
  | error r => rfl
  | ok mode =>
    simp only [Script.run_bind, Script.run_ask, World.perform]
    cases w.read (Route.ofPath o.path) with
    | ok content => rfl
    | error r => cases r <;> rfl

/-- The path of a file that can be looked at holds no NUL. -/
theorem read_ne_nul {route : Route} {mode : Nat} (h : w.stat route = .ok mode) :
    w.read route ≠ .error .nulInPath := by
  intro hread
  simp only [World.stat, World.read, bind, Except.bind] at h hread
  split at h
  · cases h
  · rename_i l hl
    rw [hl] at hread
    simp only at hread
    split at hread <;> cases hread

/-- Only a path that is too long stops a check. -/
theorem answer_eq_error_iff {r : Refusal} : answer w o = .error r ↔ r = .errno .nameTooLong ∧ Hidden w o := by
  unfold answer Hidden
  cases hs : w.stat (Route.ofPath o.path) with
  | error x =>
    simp only
    rcases meansAbsent_of_stat hs with ha | rfl
    · rw [if_pos ha]
      constructor
      · intro h
        cases h
      · rintro ⟨-, h⟩
        cases h
        cases ha
    · rw [if_neg (by decide)]
      constructor
      · intro h
        cases h
        exact ⟨rfl, rfl⟩
      · rintro ⟨rfl, -⟩
        rfl
  | ok mode =>
    have hnul := read_ne_nul hs
    constructor
    · intro h
      cases hread : w.read (Route.ofPath o.path) with
      | ok content => simp only [hread] at h; cases h
      | error x =>
        cases x with
        | errno e => simp only [hread] at h; cases h
        | nulInPath => exact absurd hread hnul
    · rintro ⟨-, h⟩
      cases h

/-- A report of one of these kinds is on the output's own path. -/
theorem answer_path {p : Path} (h : answer w o = .ok report) (hr : report = .upToDate p ∨ report = .outOfDate p) :
    o.path = p := by
  unfold answer at h
  split at h
  · split at h
    · cases h
      rcases hr with hr | hr <;> cases hr
    · cases h
  · split at h
    · cases h
      unfold verdict at hr
      split at hr
      · rcases hr with hr | hr <;> cases hr
      · split at hr <;> (rcases hr with hr | hr <;> cases hr)
        · rfl
        · rfl
    · cases h
      rcases hr with hr | hr <;> cases hr
    · cases h

/-- The verdict on bytes that are a text without carriage returns. -/
theorem verdict_encode (o : Output) {t : Text} (h : '\r' ∉ t) :
    verdict o (Text.Utf8.encode t) = if t = o.text then .upToDate o.path else .outOfDate o.path := by
  simp only [verdict, Text.Utf8.decode_encode, Text.unifyNewlines_eq_self h]

/-! ## A list of outputs -/

inductive Checked (w : World) (outputs : List Output) : Outcome → Prop
  | all (reports : List Report) : outputs.map (answer w) = reports.map .ok →
      Checked w outputs ⟨reports, .exit (exitCode reports)⟩
  | stopped (pre : List Output) (o : Output) (post : List Output) (reports : List Report) :
      outputs = pre ++ o :: post → pre.map (answer w) = reports.map .ok → Hidden w o →
      Checked w outputs ⟨reports, .abort (.refused (.errno .nameTooLong))⟩

theorem checkFrom_run_all {reports : List Report} (before : List Report)
    (h : outputs.map (answer w) = reports.map .ok) :
    (checkFrom before outputs).run w = (⟨before ++ reports, .exit (exitCode (before ++ reports))⟩, w) := by
  induction outputs generalizing before reports with
  | nil =>
    obtain rfl := List.map_eq_nil_iff.mp h.symm
    simp only [checkFrom, List.append_nil]
    rfl
  | cons o rest ih =>
    cases reports with
    | nil => cases h
    | cons report reports =>
      obtain ⟨ho, hrest⟩ := List.cons.inj h
      simp only [checkFrom, Script.run_bind, checkOne_run, ho]
      rw [ih (before ++ [report]) hrest, List.append_assoc]
      rfl

theorem checkFrom_run_stopped {pre post : List Output} {reports : List Report} (before : List Report)
    (h : pre.map (answer w) = reports.map .ok) (ho : Hidden w o) :
    (checkFrom before (pre ++ o :: post)).run w =
      (⟨before ++ reports, .abort (.refused (.errno .nameTooLong))⟩, w) := by
  induction pre generalizing before reports with
  | nil =>
    obtain rfl := List.map_eq_nil_iff.mp h.symm
    have hanswer : answer w o = .error (.errno .nameTooLong) := answer_eq_error_iff.mpr ⟨rfl, ho⟩
    simp only [List.nil_append, checkFrom, Script.run_bind, checkOne_run, hanswer, List.append_nil]
    rfl
  | cons q pre ih =>
    cases reports with
    | nil => cases h
    | cons report reports =>
      obtain ⟨hq, hrest⟩ := List.cons.inj h
      simp only [List.cons_append, checkFrom, Script.run_bind, checkOne_run, hq]
      rw [ih (before ++ [report]) hrest, List.append_assoc]
      rfl

/-- Every output is answered by a report, or a first one is hidden. -/
theorem answers_cases (w : World) (outputs : List Output) :
    (∃ reports : List Report, outputs.map (answer w) = reports.map .ok) ∨
      ∃ (pre : List Output) (o : Output) (post : List Output) (reports : List Report),
        outputs = pre ++ o :: post ∧ pre.map (answer w) = reports.map .ok ∧ Hidden w o := by
  induction outputs with
  | nil => exact Or.inl ⟨[], rfl⟩
  | cons o rest ih =>
    cases ho : answer w o with
    | error r => exact Or.inr ⟨[], o, rest, [], rfl, rfl, (answer_eq_error_iff.mp ho).2⟩
    | ok report =>
      rcases ih with ⟨reports, h⟩ | ⟨pre, q, post, reports, rfl, h, hq⟩
      · exact Or.inl ⟨report :: reports, by rw [List.map_cons, List.map_cons, ho, h]⟩
      · exact Or.inr ⟨o :: pre, q, post, report :: reports, rfl, by rw [List.map_cons, List.map_cons, ho, h], hq⟩

/-- A check changes nothing, and it ends in one of two ways. -/
theorem checkAll_cases (w : World) (outputs : List Output) :
    ((checkAll outputs).run w).2 = w ∧ Checked w outputs ((checkAll outputs).run w).1 := by
  unfold checkAll
  rcases answers_cases w outputs with ⟨reports, h⟩ | ⟨pre, o, post, reports, rfl, h, ho⟩
  · rw [checkFrom_run_all [] h]
    exact ⟨rfl, .all reports h⟩
  · rw [checkFrom_run_stopped [] h ho]
    exact ⟨rfl, .stopped pre o post reports rfl h ho⟩

theorem not_hidden_of_answers {pre : List Output} {reports : List Report}
    (h : pre.map (answer w) = reports.map .ok) (ho : o ∈ pre) : ¬ Hidden w o := by
  intro hidden
  have hm : answer w o ∈ reports.map .ok := h ▸ List.mem_map_of_mem ho
  obtain ⟨report, -, he⟩ := List.mem_map.mp hm
  rw [answer_eq_error_iff.mpr ⟨rfl, hidden⟩] at he
  cases he

theorem getElem?_of_answers {pre : List Output} {reports : List Report} (h : pre.map (answer w) = reports.map .ok)
    (i : Nat) : reports[i]? = some report ↔ ∃ o, pre[i]? = some o ∧ answer w o = .ok report := by
  have hi := congrArg (·[i]?) h
  simp only [List.getElem?_map] at hi
  constructor
  · intro hr
    rw [hr, Option.map_some, Option.map_eq_some_iff] at hi
    exact hi
  · rintro ⟨o, ho, hanswer⟩
    rw [ho, Option.map_some, hanswer, eq_comm, Option.map_eq_some_iff] at hi
    obtain ⟨report', hr, he⟩ := hi
    cases he
    exact hr

/-- An output is reported on in its turn exactly if no output before it is hidden. -/
theorem Checked.getElem?_reports {pre post : List Output} (h : Checked w (pre ++ o :: post) outcome) :
    outcome.reports[pre.length]? = some report ↔ (∀ q ∈ pre, ¬ Hidden w q) ∧ answer w o = .ok report := by
  have hat : (pre ++ o :: post)[pre.length]? = some o := by simp
  generalize hout : pre ++ o :: post = outputs at h hat
  cases h with
  | all reports h =>
    rw [getElem?_of_answers h, hat]
    constructor
    · rintro ⟨o', ho', hanswer⟩
      cases ho'
      exact ⟨fun q hq => not_hidden_of_answers h (hout ▸ List.mem_append_left _ hq), hanswer⟩
    · rintro ⟨-, hanswer⟩
      exact ⟨o, rfl, hanswer⟩
  | stopped front q back reports hfront h hidden =>
    rw [getElem?_of_answers h]
    constructor
    · rintro ⟨o', ho', hanswer⟩
      have hlt : pre.length < front.length := (List.getElem?_eq_some_iff.mp ho').1
      have hsame : o' = o := by
        rw [hfront, List.getElem?_append_left hlt, ho'] at hat
        exact Option.some.inj hat
      have hpre : pre = front.take pre.length := by
        have htake := congrArg (List.take pre.length) (hout.trans hfront)
        rwa [List.take_left, List.take_append_of_le_length (Nat.le_of_lt hlt)] at htake
      refine ⟨fun x hx => not_hidden_of_answers h ?_, hsame ▸ hanswer⟩
      rw [hpre] at hx
      exact List.mem_of_mem_take hx
    · rintro ⟨hpre, hanswer⟩
      have ho : ¬ Hidden w o := fun hh => by rw [answer_eq_error_iff.mpr ⟨rfl, hh⟩] at hanswer; cases hanswer
      have hq : (pre ++ o :: post)[front.length]? = some q := by rw [hout, hfront]; simp
      refine ⟨o, ?_, hanswer⟩
      -- the hidden output stands neither before `o` nor in its place
      rcases Nat.lt_trichotomy pre.length front.length with hlt | heq | hgt
      · rwa [hfront, List.getElem?_append_left hlt] at hat
      · rw [← heq, hout, hat] at hq
        cases hq
        exact absurd hidden ho
      · rw [List.getElem?_append_left hgt] at hq
        exact absurd hidden (hpre q (List.mem_of_getElem? hq))

theorem Checked.length_le (h : Checked w outputs outcome) : outcome.reports.length ≤ outputs.length := by
  cases h with
  | all reports h =>
    have hlength : reports.length = outputs.length := by simpa using congrArg List.length h.symm
    exact Nat.le_of_eq hlength
  | stopped front q back reports hfront h _ =>
    have hlength : reports.length = front.length := by simpa using congrArg List.length h.symm
    rw [hfront, List.length_append, hlength]
    exact Nat.le_add_right _ _

/-- A report is made on an output exactly if no output before it is hidden. -/
theorem Checked.mem_reports (h : Checked w outputs outcome) :
    report ∈ outcome.reports ↔
      ∃ pre o post, outputs = pre ++ o :: post ∧ (∀ q ∈ pre, ¬ Hidden w q) ∧ answer w o = .ok report := by
  constructor
  · intro hm
    obtain ⟨i, hi⟩ := List.mem_iff_getElem?.mp hm
    have hlt : i < outputs.length := Nat.lt_of_lt_of_le (List.getElem?_eq_some_iff.mp hi).1 h.length_le
    have hsplit : outputs = outputs.take i ++ outputs[i] :: outputs.drop (i + 1) := by simp
    have hlength : (outputs.take i).length = i := List.length_take_of_le (Nat.le_of_lt hlt)
    rw [hsplit] at h
    exact ⟨_, _, _, hsplit, h.getElem?_reports.mp (hlength.symm ▸ hi)⟩
  · rintro ⟨pre, o, post, rfl, hreport⟩
    exact List.mem_of_getElem? (h.getElem?_reports.mpr hreport)

end Check

end NodeGen
