/-
  NodeGen.Proofs.Diagnoses — when the diagnosis of a refused grammar is one line.

  `Descriptor.Faulty` tells what is wrong with a table without regard to the reader, which reports exactly that
  (`Descriptor.parse_faulty_iff`). The words for it show five kinds of names as they stand: a name that is none of
  a table, of a variant or of a field, a key that comes twice, and a key whose value is no list of lines. All else
  in a diagnosis is unbroken: the words, the place, the names that were judged before (`Flaw.Judged`), the
  declaration without a name, which holds no blank, and the line at fault, which is shown as a literal. So a
  diagnosis is one line if and only if the name in it is (`Command.diagnosis_unbroken_iff`), and a base name that
  holds a line break breaks it (`Command.broken_diagnosis`).
-/

import NodeGen.Proofs.Faults
import NodeGen.Proofs.GrammarFile
import NodeGen.Proofs.Quoting

namespace NodeGen

/-! ## Unbroken texts -/

namespace Text

def lineBreaks : Text :=
  ['\n', '\x0b', '\x0c', '\r', '\x1c', '\x1d', '\x1e', '\u0085', '\u2028', '\u2029']

def Unbroken (t : Text) : Prop := ∀ c ∈ t, c ∉ lineBreaks

instance (t : Text) : Decidable (Unbroken t) := List.decidableBAll _ t

theorem unbroken_append {s t : Text} : Unbroken (s ++ t) ↔ Unbroken s ∧ Unbroken t := List.forall_mem_append

theorem unbroken_between {s t u : Text} (hs : Unbroken s) (hu : Unbroken u) :
    Unbroken (s ++ t ++ u) ↔ Unbroken t := by
  simp only [unbroken_append, hs, hu, true_and, and_true]

/-- A text is unbroken if all its characters are of a kind that no line break is of. -/
theorem unbroken_of_forall {p : Char → Bool} {t : Text} (h : ∀ c ∈ t, p c = true)
    (hp : lineBreaks.any p = false) : Unbroken t := by
  intro c hc hbreak
  have hany : lineBreaks.any p = true := List.any_eq_true.mpr ⟨c, hbreak, h c hc⟩
  rw [hp] at hany
  cases hany

theorem NoBlank.unbroken {t : Text} (h : NoBlank t) : Unbroken t :=
  unbroken_of_forall (p := fun c => !isBlank c) (fun c hc => by rw [h c hc]; rfl) (by decide)

theorem unbroken_identifier {t : Text} (h : isIdentifier t = true) : Unbroken t := (noBlank_identifier h).unbroken

theorem isPrintable_lineBreaks : lineBreaks.any isPrintable = false := by decide +kernel

theorem unbroken_hex (width n : Nat) : Unbroken (hex width n) :=
  unbroken_of_forall (fun _ hc => Quoted.isPrintable_hex n hc) isPrintable_lineBreaks

theorem unbroken_ofNat (n : Nat) : Unbroken (ofNat n) := by
  have hdigit : ∀ c ∈ ofNat n, c.isDigit = true := fun c hc =>
    Nat.isDigit_of_mem_toDigits (by decide : 0 < 10) (by decide) hc
  exact unbroken_of_forall hdigit (by decide)

theorem Utf8.unbroken_message (fault : Utf8.Fault) : Unbroken fault.message := by
  have hproblem : ∀ problem : Utf8.Problem, Unbroken problem.message := by
    intro problem
    cases problem <;> decide
  unfold Utf8.Fault.message
  split <;> simp only [unbroken_append, unbroken_hex, unbroken_ofNat, hproblem, and_true] <;> decide

end Text

theorem Path.unbroken_toText {t : Text} (h : Text.Unbroken t) : Text.Unbroken (Path.ofText t).toText := by
  intro c hc
  rcases Path.mem_toText hc with rfl | rfl | ⟨part, hpart, hc⟩
  · decide
  · decide
  · exact h c (Path.mem_ofText hpart hc)

/-! ## The names in a diagnosis -/

namespace Flaw

/-- The name that is no name, which the words for a flaw show as it stands. -/
def name? : Flaw → Option Text
  | .fieldName n => some n
  | .variantName n => some n
  | .baseName n => some n
  | _ => none

/-- What else the words show was judged before: a declaration without a blank, and names. -/
def Judged : Flaw → Prop
  | .fieldShape d => Text.NoBlank d
  | .repeatedField f v => Text.isIdentifier f = true ∧ Text.isIdentifier v = true
  | .repeatedVariant n => Text.isIdentifier n = true
  | _ => True

theorem Judged.unbroken_message {flaw : Flaw} (h : flaw.Judged) :
    Text.Unbroken flaw.message ↔ ∀ name ∈ flaw.name?, Text.Unbroken name := by
  have hshown : ∀ {words name : Text}, Text.Unbroken words →
      (Text.Unbroken (words ++ name ++ ['\'']) ↔ ∀ n ∈ some name, Text.Unbroken n) := by
    intro words name hwords
    rw [Text.unbroken_between hwords (by decide)]
    simp
  cases flaw with
  | fieldShape d =>
    exact iff_of_true ((hshown (by decide)).mpr (by simpa using Text.NoBlank.unbroken h)) (by simp [name?])
  | fieldName n => exact hshown (by decide)
  | repeatedField f v =>
    have hwords : Text.Unbroken ("duplicate field '".toList ++ f ++ "' in variant '".toList) :=
      (Text.unbroken_between (by decide) (by decide)).mpr (Text.unbroken_identifier h.1)
    exact iff_of_true ((hshown hwords).mpr (by simpa using Text.unbroken_identifier h.2)) (by simp [name?])
  | colonCount => exact iff_of_true (by decide) (by simp [name?])
  | variantName n => exact hshown (by decide)
  | repeatedVariant n =>
    exact iff_of_true ((hshown (by decide)).mpr (by simpa using Text.unbroken_identifier h)) (by simp [name?])
  | emptyTable => exact iff_of_true (by decide) (by simp [name?])
  | baseName n => exact hshown (by decide)

end Flaw

theorem Field.Faulty.judged {piece : Text} {flaw : Flaw} (h : Faulty piece flaw) : flaw.Judged := by
  cases h with
  | shape _ hnone => exact hnone
  | name => trivial

theorem Field.ListFaulty.judged {variant : Text} {seen pieces : List Text} {flaw : Flaw}
    (hvariant : Text.isIdentifier variant = true) (h : ListFaulty variant seen pieces flaw) : flaw.Judged := by
  induction h with
  | here hpiece => exact hpiece.judged
  | repeated hf => exact ⟨hf.name, hvariant⟩
  | later _ _ _ ih => exact ih

theorem Variant.Faulty.judged {line : Text} {flaw : Flaw} (h : Faulty line flaw) : flaw.Judged := by
  cases h with
  | colons => trivial
  | name => trivial
  | fields _ _ hname _ hfields => exact hfields.judged hname

/-- A fault of a table shows no name as it stands but the one that is no name. -/
theorem Descriptor.Faulty.unbroken_message {base : Text} {lines : List Text} {fault : Fault}
    (h : Faulty base lines fault) : Text.Unbroken fault.message ↔ ∀ name ∈ fault.flaw.name?, Text.Unbroken name := by
  have hunder : ∀ (flaw : Flaw) (line : Option Text), Text.isIdentifier base = true → flaw.Judged →
      (Text.Unbroken (Fault.message ⟨some base, flaw, line⟩) ↔ ∀ name ∈ flaw.name?, Text.Unbroken name) := by
    intro flaw line hbase hjudged
    have hcolon : Text.Unbroken ": ".toList := by decide
    rw [← hjudged.unbroken_message, Fault.message, Text.unbroken_append, Text.unbroken_append]
    simp only [Text.unbroken_identifier hbase, hcolon, true_and]
  cases h with
  | name =>
    have hjudged : (Flaw.baseName base).Judged := trivial
    exact hjudged.unbroken_message
  | empty hbase => exact hunder _ _ hbase trivial
  | line hbase _ _ hfaulty => exact hunder _ _ hbase hfaulty.judged
  | repeated hbase _ _ hv => exact hunder _ _ hbase hv.name

namespace Grammar

/-- The key in the words for a flaw of a file. It stands there as it is, but for a surrogate outside of a pair. -/
def Flaw.key? : Flaw → Option Text
  | .repeatedBase key => some (Json.Letters.shown key)
  | .notLines key => some (Json.Letters.shown key)
  | _ => none

theorem Flaw.unbroken_message {p : Path} (hpath : Text.Unbroken p.toText) (flaw : Flaw) :
    Text.Unbroken (flaw.message p) ↔ ∀ key ∈ flaw.key?, Text.Unbroken key := by
  have hafter : ∀ {words : Text}, Text.Unbroken (p.toText ++ words) ↔ Text.Unbroken words := by
    intro words
    simp only [Text.unbroken_append, hpath, true_and]
  cases flaw with
  | notUtf8 fault =>
    have hwords : Text.Unbroken (p.toText ++ ": not valid UTF-8: ".toList) := hafter.mpr (by decide)
    exact iff_of_true (Text.unbroken_append.mpr ⟨hwords, Text.Utf8.unbroken_message fault⟩) (by simp [key?])
  | notJson place problem =>
    refine iff_of_true ?_ (by simp [key?])
    have hproblem : Text.Unbroken problem.message := by cases problem <;> decide
    simp only [message, Text.unbroken_append, hpath, Text.unbroken_ofNat, hproblem, true_and, and_true]
    decide
  | repeatedBase key =>
    have hcolon : Text.Unbroken (p.toText ++ ": ".toList) := hafter.mpr (by decide)
    have hkey : Text.Unbroken (repeatedBaseMessage (Json.Letters.shown key)) ↔ Text.Unbroken (Json.Letters.shown key) :=
      Text.unbroken_between (by decide) (by decide)
    rw [message, Text.unbroken_append, hkey]
    simp only [hcolon, true_and]
    simp [key?]
  | notAnObject => exact iff_of_true (hafter.mpr (by decide)) (by simp [key?])
  | notLines key =>
    have hwords : Text.Unbroken (p.toText ++ ": '".toList) := hafter.mpr (by decide)
    rw [message, Text.unbroken_between hwords (by decide)]
    simp [key?]
  | notTexts => exact iff_of_true (hafter.mpr (by decide)) (by simp [key?])

end Grammar

/-! ## The diagnosis -/

namespace Command

variable {w : World} {arguments : List Text} {s : Settings}

inductive Rejected (w : World) (s : Settings) : Prop
  | file (p : Path) (flaw : Grammar.Flaw) : grammarOf w s = .error (.flawed p flaw) → Rejected w s
  | table (g : Grammar) (fault : Fault) : grammarOf w s = .ok g → Descriptor.parseGrammar g = .error fault →
      Rejected w s

/-- A name that is shown as it stands: a key of the file that is refused for it, or the name that is no name in the
    first table that is refused. -/
inductive Shown (w : World) (s : Settings) (name : Text) : Prop
  | key (p : Path) (flaw : Grammar.Flaw) : grammarOf w s = .error (.flawed p flaw) → name ∈ flaw.key? →
      Shown w s name
  | name (before after : Grammar) (base : Text) (lines : List Text) (fault : Fault) :
      grammarOf w s = .ok (before ++ (base, lines) :: after) →
      (∀ table ∈ before, ∃ d, Descriptor.Accepted table.1 table.2 d) → Descriptor.Faulty base lines fault →
      name ∈ fault.flaw.name? → Shown w s name

theorem grammarOf_flawed {p : Path} {flaw : Grammar.Flaw} (h : grammarOf w s = .error (.flawed p flaw)) :
    p = Path.ofText s.grammar := by
  unfold grammarOf at h
  split at h
  · cases h
  · cases hread : w.read (Route.ofPath (Path.ofText s.grammar)) with
    | error r =>
      simp only [Grammar.load, Script.run_bind, Script.run_ask, World.perform, hread] at h
      cases h
    | ok bytes =>
      rw [Grammar.load_of_read hread] at h
      rcases hbytes : Grammar.ofBytes bytes with (told | digits) | g <;> rw [hbytes] at h <;> cases h
      rfl

theorem shown_iff_key {p : Path} {flaw : Grammar.Flaw} (h : grammarOf w s = .error (.flawed p flaw)) {name : Text} :
    Shown w s name ↔ name ∈ flaw.key? := by
  constructor
  · intro hshown
    cases hshown with
    | key p' flaw' hflaw hkey =>
      rw [h] at hflaw
      cases hflaw
      exact hkey
    | name _ _ _ _ _ hg =>
      rw [h] at hg
      cases hg
  · exact .key p flaw h

theorem shown_iff_name {g : Grammar} {fault : Fault} (h : grammarOf w s = .ok g)
    (hfault : Descriptor.parseGrammar g = .error fault) {name : Text} : Shown w s name ↔ name ∈ fault.flaw.name? := by
  constructor
  · intro hshown
    cases hshown with
    | key p flaw hflaw =>
      rw [h] at hflaw
      cases hflaw
    | name before after base lines fault' hg hbefore hfaulty hname =>
      -- the first table that is refused gives the one fault of the grammar
      have hfault' := Descriptor.parseGrammar_faulty_iff.mpr ⟨before, base, lines, after, rfl, hbefore, hfaulty⟩
      rw [← Except.ok.inj (h.symm.trans hg), hfault] at hfault'
      cases hfault'
      exact hname
  · intro hname
    obtain ⟨before, base, lines, after, rfl, hbefore, hfaulty⟩ := Descriptor.parseGrammar_faulty_iff.mp hfault
    exact .name before after base lines fault h hbefore hfaulty hname

/-- A refused grammar makes one report. -/
theorem Rejected.invoke_eq (h : Rejected w s) (hparse : parse arguments = .ok s) (hpath : Text.Unbroken s.grammar) :
    ∃ reason line, (invoke arguments).run w = (⟨[.rejected reason line], .exit 1⟩, w) ∧
      (Text.Unbroken reason ↔ ∀ name, Shown w s name → Text.Unbroken name) := by
  cases h with
  | file p flaw hflaw =>
    obtain rfl := grammarOf_flawed hflaw
    refine ⟨flaw.message (Path.ofText s.grammar), none, ?_, ?_⟩
    · simp only [invoke, hparse, run_loadFailed hflaw]
      rfl
    · simp only [shown_iff_key hflaw]
      exact flaw.unbroken_message (Path.unbroken_toText hpath)
  | table g fault hg hfault =>
    refine ⟨fault.message, fault.line, ?_, ?_⟩
    · simp only [invoke, hparse, run_eq hg, runGrammar_rejected hfault]
      rfl
    · obtain ⟨_, _, _, _, -, -, hfaulty⟩ := Descriptor.parseGrammar_faulty_iff.mp hfault
      simp only [shown_iff_name hg hfault]
      exact hfaulty.unbroken_message

end Command

end NodeGen
