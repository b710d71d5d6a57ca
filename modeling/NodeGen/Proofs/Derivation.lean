/-
  NodeGen.Proofs.Derivation — the grammar of descriptor lines, apart from the reader, and the reader's
  agreement with it.

  `Variant.DenotedBy` is the grammar: a name, a colon, and a field list that is blank or has pieces with
  a comma and a space between two of them. A separator never arises across the ends of pieces, so the
  pieces are those the reader finds (`splitDeclarations_eq_iff`). `Variant.parse_eq_ok_iff`: a line is
  read as a variant exactly if it denotes it. `Variant.parse_error`: every refusal names its line.
-/

import Mathlib.Data.List.Forall2
import NodeGen.Descriptor.Parser
import NodeGen.Proofs.Trimming

namespace NodeGen

/-! ## Pieces -/

def separator : Text := [',', ' ']

theorem separator_infix_cons {c : Char} {t : Text} :
    separator <:+: c :: t ↔ (c = ',' ∧ ∃ rest, t = ' ' :: rest) ∨ separator <:+: t := by
  rw [List.infix_cons_iff]
  refine or_congr_left ⟨?_, ?_⟩
  · rintro ⟨rest, h⟩
    obtain ⟨hc, ht⟩ := List.cons.inj h
    exact ⟨hc.symm, rest, ht.symm⟩
  · rintro ⟨rfl, rest, rfl⟩
    exact ⟨rest, rfl⟩

theorem splitDeclarations_cons {c : Char} {t : Text} (h : ¬ (c = ',' ∧ ∃ rest, t = ' ' :: rest)) :
    splitDeclarations (c :: t) = consFirst c (splitDeclarations t) :=
  splitDeclarations.eq_3 c t fun rest hc ht => h ⟨hc, rest, ht⟩

theorem splitDeclarations_ne_nil (t : Text) : splitDeclarations t ≠ [] := by
  fun_cases splitDeclarations t with
  | case1 => exact List.cons_ne_nil _ _
  | case2 rest => exact List.cons_ne_nil _ _
  | case3 c rest =>
    cases splitDeclarations rest <;> exact List.cons_ne_nil _ _

theorem intercalate_splitDeclarations (t : Text) : separator.intercalate (splitDeclarations t) = t := by
  fun_induction splitDeclarations t with
  | case1 => rfl
  | case2 rest ih =>
    obtain ⟨piece, pieces, hsplit⟩ := List.exists_cons_of_ne_nil (splitDeclarations_ne_nil rest)
    rw [hsplit] at ih ⊢
    rw [List.intercalate_cons_cons, ih]
    rfl
  | case3 c rest hno ih =>
    obtain ⟨piece, pieces, hsplit⟩ := List.exists_cons_of_ne_nil (splitDeclarations_ne_nil rest)
    rw [hsplit] at ih ⊢
    rw [consFirst, ← ih]
    cases pieces with
    | nil => rfl
    | cons next pieces => rw [List.intercalate_cons_cons, List.intercalate_cons_cons]; rfl

/-- A piece that holds no separator is not cut. -/
theorem splitDeclarations_of_not_infix {t : Text} (h : ¬ separator <:+: t) : splitDeclarations t = [t] := by
  induction t with
  | nil => rfl
  | cons c t ih =>
    obtain ⟨hc, ht⟩ := not_or.mp (separator_infix_cons.not.mp h)
    rw [splitDeclarations_cons hc, ih ht]
    rfl

/-- A separator is a cut wherever it stands: it never overlaps with another one. -/
theorem splitDeclarations_append (t rest : Text) :
    splitDeclarations (t ++ separator ++ rest) = splitDeclarations t ++ splitDeclarations rest := by
  rw [List.append_assoc]
  fun_induction splitDeclarations t with
  | case1 => rfl
  | case2 t ih =>
    show [] :: splitDeclarations (t ++ (separator ++ rest)) = _
    rw [ih]
    rfl
  | case3 c t hno ih =>
    obtain ⟨piece, pieces, hsplit⟩ := List.exists_cons_of_ne_nil (splitDeclarations_ne_nil t)
    have hcons : ¬ (c = ',' ∧ ∃ more, t ++ (separator ++ rest) = ' ' :: more) := by
      rintro ⟨rfl, more, hmore⟩
      cases t with
      | nil => cases hmore
      | cons d t =>
        obtain ⟨rfl, -⟩ := List.cons.inj hmore
        exact hno t rfl rfl
    rw [List.cons_append, splitDeclarations_cons hcons, ih, hsplit]
    rfl

theorem splitDeclarations_intercalate {pieces : List Text} (h : pieces ≠ []) :
    splitDeclarations (separator.intercalate pieces) = pieces.flatMap splitDeclarations := by
  induction pieces with
  | nil => exact absurd rfl h
  | cons piece pieces ih =>
    cases pieces with
    | nil => rw [List.intercalate_singleton, List.flatMap_singleton]
    | cons next pieces =>
      rw [List.intercalate_cons_cons, splitDeclarations_append, ih (List.cons_ne_nil _ _)]
      rfl

theorem not_separator_of_mem {t piece : Text} (h : piece ∈ splitDeclarations t) : ¬ separator <:+: piece := by
  fun_induction splitDeclarations t generalizing piece with
  | case1 =>
    obtain rfl := List.mem_singleton.mp h
    decide
  | case2 rest ih =>
    rcases List.mem_cons.mp h with rfl | h
    · decide
    · exact ih h
  | case3 c rest hno ih =>
    obtain ⟨first, pieces, hsplit⟩ := List.exists_cons_of_ne_nil (splitDeclarations_ne_nil rest)
    have hrest := intercalate_splitDeclarations rest
    rw [hsplit] at h ih hrest
    rcases List.mem_cons.mp h with rfl | h
    · -- the first piece is how the text starts
      refine separator_infix_cons.not.mpr (not_or.mpr ⟨?_, ih List.mem_cons_self⟩)
      rintro ⟨rfl, more, rfl⟩
      cases pieces with
      | nil => exact hno _ rfl hrest.symm
      | cons next pieces =>
        rw [List.intercalate_cons_cons] at hrest
        exact hno _ rfl hrest.symm
    · exact ih (List.mem_cons_of_mem _ h)

/-- The pieces are the one way to write a text with separators between parts that hold none. -/
theorem splitDeclarations_eq_iff {t : Text} {pieces : List Text} : splitDeclarations t = pieces ↔
    pieces ≠ [] ∧ t = separator.intercalate pieces ∧ ∀ piece ∈ pieces, ¬ separator <:+: piece := by
  constructor
  · rintro rfl
    exact ⟨splitDeclarations_ne_nil t, (intercalate_splitDeclarations t).symm, fun _ h => not_separator_of_mem h⟩
  · rintro ⟨hne, rfl, hpieces⟩
    rw [splitDeclarations_intercalate hne, List.flatMap_congr fun p hp => splitDeclarations_of_not_infix (hpieces p hp)]
    exact List.flatMap_singleton' pieces

/-! ## The grammar -/

/-- A piece declares a field: it is the tag, a run of blanks and the name, with blanks around them. -/
structure Field.DeclaredBy (f : Field) (piece : Text) : Prop where
  tag : f.tag ≠ [] ∧ Text.NoBlank f.tag
  name : Text.isIdentifier f.name = true
  written : ∃ gap, gap ≠ [] ∧ Text.AllBlank gap ∧ Text.TrimsTo piece (f.tag ++ gap ++ f.name)

inductive Field.ListedBy : List Field → Text → Prop
  | blank {t : Text} : Text.TrimsTo t [] → ListedBy [] t
  | pieces {fields : List Field} {pieces : List Text} {t : Text} : pieces ≠ [] →
      Text.TrimsTo t (separator.intercalate pieces) → (∀ piece ∈ pieces, ¬ separator <:+: piece) →
      List.Forall₂ DeclaredBy fields pieces → (fields.map Field.name).Nodup → ListedBy fields t

/-- A line denotes a variant: it is the variant's name, one colon and the variant's fields. -/
structure Variant.DenotedBy (v : Variant) (line : Text) : Prop where
  name : Text.isIdentifier v.name = true
  written : ∃ head tail, line = head ++ ':' :: tail ∧ ':' ∉ head ∧ ':' ∉ tail ∧ Text.TrimsTo head v.name ∧
    Field.ListedBy v.fields tail

/-! ## Reading one field -/

theorem Field.DeclaredBy.piece_ne_nil {f : Field} {piece : Text} (h : f.DeclaredBy piece) : piece ≠ [] := by
  obtain ⟨gap, -, -, hwritten⟩ := h.written
  rintro rfl
  obtain ⟨c, hc⟩ := List.exists_mem_of_ne_nil _ h.tag.1
  cases hwritten.mem (List.mem_append_left _ (List.mem_append_left _ hc))

theorem Field.parse_eq_ok_iff {piece line : Text} {f : Field} :
    Field.parse piece line = .ok f ↔ f.DeclaredBy piece := by
  have htrim := Text.trimsTo_trim piece
  constructor
  · intro h
    unfold Field.parse at h
    split at h
    · cases h
    · rename_i tag name hcut
      split at h
      · rename_i hname
        cases h
        obtain ⟨htag, -, gap, hne, hgap, heq⟩ := Text.cutBlank_eq_some_iff.mp hcut
        refine ⟨⟨?_, htag⟩, hname, gap, hne, hgap, heq ▸ htrim⟩
        -- the trimmed piece starts with no blank, so something stands before the run
        rintro rfl
        obtain ⟨b, gap, rfl⟩ := List.exists_cons_of_ne_nil hne
        have hb := htrim.first b (by rw [heq]; rfl)
        rw [hgap b List.mem_cons_self] at hb
        cases hb
      · cases h
  · rintro ⟨⟨-, htag⟩, hname, gap, hne, hgap, hwritten⟩
    have hfirst : ∀ c ∈ f.name.head?, Text.isBlank c = false := fun c hc =>
      Text.noBlank_identifier hname c (List.mem_of_mem_head? hc)
    have hcut := Text.cutBlank_eq_some_iff.mpr ⟨htag, hfirst, gap, hne, hgap, rfl⟩
    unfold Field.parse
    rw [Text.trim_eq_iff.mpr hwritten, hcut]
    exact if_pos hname

theorem Field.parse_error {piece line : Text} {fault : Fault} (h : Field.parse piece line = .error fault) :
    ∃ flaw, fault = Flaw.inLine flaw line := by
  unfold Field.parse at h
  split at h
  · cases h
    exact ⟨_, rfl⟩
  · split at h
    · cases h
    · cases h
      exact ⟨_, rfl⟩

/-! ## Reading a field list -/

theorem Field.parseAll_cons_eq_ok_iff {variant line piece : Text} {seen pieces : List Text} {fields : List Field} :
    Field.parseAll variant line seen (piece :: pieces) = .ok fields ↔
      ∃ f rest, fields = f :: rest ∧ Field.parse piece line = .ok f ∧ f.name ∉ seen ∧
        Field.parseAll variant line (f.name :: seen) pieces = .ok rest := by
  constructor
  · intro h
    simp only [Field.parseAll, bind, Except.bind] at h
    split at h
    · cases h
    · rename_i f hf
      split at h
      · cases h
      · rename_i hseen
        split at h
        · cases h
        · rename_i rest hrest
          cases h
          exact ⟨f, rest, rfl, hf, hseen, hrest⟩
  · rintro ⟨f, rest, rfl, hf, hseen, hrest⟩
    simp only [Field.parseAll, bind, Except.bind, hf, if_neg hseen, hrest]
    rfl

theorem Field.parseAll_eq_ok_iff {variant line : Text} {seen pieces : List Text} {fields : List Field} :
    Field.parseAll variant line seen pieces = .ok fields ↔
      List.Forall₂ DeclaredBy fields pieces ∧ Text.Fresh seen (fields.map Field.name) := by
  induction pieces generalizing seen fields with
  | nil =>
    rw [List.forall₂_nil_right_iff]
    constructor
    · intro h
      cases h
      exact ⟨rfl, Text.fresh_nil seen⟩
    · rintro ⟨rfl, -⟩
      rfl
  | cons piece pieces ih =>
    rw [Field.parseAll_cons_eq_ok_iff, List.forall₂_cons_right_iff]
    constructor
    · rintro ⟨f, rest, rfl, hf, hseen, hrest⟩
      obtain ⟨hdeclared, hfresh⟩ := ih.mp hrest
      exact ⟨⟨f, rest, Field.parse_eq_ok_iff.mp hf, hdeclared, rfl⟩, Text.fresh_cons.mpr ⟨hseen, hfresh⟩⟩
    · rintro ⟨⟨f, rest, hf, hdeclared, rfl⟩, hfresh⟩
      obtain ⟨hseen, hfresh⟩ := Text.fresh_cons.mp hfresh
      exact ⟨f, rest, rfl, Field.parse_eq_ok_iff.mpr hf, hseen, ih.mpr ⟨hdeclared, hfresh⟩⟩

theorem Field.parseAll_error {variant line : Text} {seen pieces : List Text} {fault : Fault}
    (h : Field.parseAll variant line seen pieces = .error fault) : ∃ flaw, fault = Flaw.inLine flaw line := by
  induction pieces generalizing seen with
  | nil => cases h
  | cons piece pieces ih =>
    simp only [Field.parseAll, bind, Except.bind] at h
    split at h
    · rename_i e hf
      cases h
      exact Field.parse_error hf
    · split at h
      · cases h
        exact ⟨_, rfl⟩
      · split at h
        · rename_i e hrest
          cases h
          exact ih hrest
        · cases h

/-- The declarations of a field list are its pieces, unless it is blank. -/
theorem declarations_eq_nil_iff {t : Text} : declarations t = [] ↔ Text.TrimsTo t [] := by
  rw [← Text.trim_eq_iff]
  unfold declarations
  split
  · simp_all
  · rename_i hne
    exact iff_of_false (splitDeclarations_ne_nil _) hne

theorem declarations_eq_of_trimsTo {t trimmed : Text} (h : Text.TrimsTo t trimmed) (hne : trimmed ≠ []) :
    declarations t = splitDeclarations trimmed := by
  unfold declarations
  rw [Text.trim_eq_iff.mpr h]
  split
  · exact absurd rfl hne
  · rfl

/-- The fields that are read are those that a field list lists. -/
theorem Field.parseAll_declarations_iff {variant line t : Text} {fields : List Field} :
    Field.parseAll variant line [] (declarations t) = .ok fields ↔ Field.ListedBy fields t := by
  rw [Field.parseAll_eq_ok_iff]
  constructor
  · rintro ⟨hdeclared, hnodup, -⟩
    by_cases hblank : Text.TrimsTo t []
    · rw [declarations_eq_nil_iff.mpr hblank] at hdeclared
      cases hdeclared
      exact .blank hblank
    · have htrim := Text.trimsTo_trim t
      have hne : Text.trim t ≠ [] := fun he => hblank (he ▸ htrim)
      rw [declarations_eq_of_trimsTo htrim hne] at hdeclared
      obtain ⟨hpieces, hjoin, hwhole⟩ := splitDeclarations_eq_iff.mp (rfl : splitDeclarations (Text.trim t) = _)
      exact .pieces hpieces (hjoin ▸ htrim) hwhole hdeclared hnodup
  · intro h
    cases h with
    | blank hblank =>
      rw [declarations_eq_nil_iff.mpr hblank]
      exact ⟨.nil, Text.fresh_nil []⟩
    | pieces hne htrim hwhole hdeclared hnodup =>
      rename_i pieces
      refine ⟨?_, hnodup, by simp⟩
      have hjoin : separator.intercalate pieces ≠ [] := by
        obtain ⟨piece, more, rfl⟩ := List.exists_cons_of_ne_nil hne
        obtain ⟨f, rest, hf, -, rfl⟩ := List.forall₂_cons_right_iff.mp hdeclared
        exact Text.intercalate_ne_nil separator List.mem_cons_self hf.piece_ne_nil
      rwa [declarations_eq_of_trimsTo htrim hjoin, splitDeclarations_eq_iff.mpr ⟨hne, rfl, hwhole⟩]

/-! ## Reading a line -/

/-- A line with one colon, and what stands before and behind it. -/
theorem colon_iff {line head tail : Text} : (line = head ++ ':' :: tail ∧ ':' ∉ head ∧ ':' ∉ tail) ↔
    line.count ':' = 1 ∧ head = line.takeWhile (· ≠ ':') ∧ tail = (line.dropWhile (· ≠ ':')).tail := by
  constructor
  · rintro ⟨rfl, hhead, htail⟩
    have hne : ∀ c ∈ head, decide (c ≠ ':') = true := fun c hc => decide_eq_true fun e => hhead (e ▸ hc)
    refine ⟨?_, ?_, ?_⟩
    · rw [List.count_append, List.count_cons_self, List.count_eq_zero_of_not_mem hhead,
        List.count_eq_zero_of_not_mem htail]
    · rw [List.takeWhile_append_of_pos hne]
      simp
    · rw [List.dropWhile_append_of_pos hne]
      simp
  · rintro ⟨hcount, rfl, rfl⟩
    have hsplit : line.takeWhile (· ≠ ':') ++ line.dropWhile (· ≠ ':') = line := List.takeWhile_append_dropWhile
    have hfront : ':' ∉ line.takeWhile (· ≠ ':') := fun hm => by
      simpa using List.all_eq_true.mp List.all_takeWhile ':' hm
    rw [← hsplit, List.count_append, List.count_eq_zero_of_not_mem hfront, Nat.zero_add] at hcount
    obtain ⟨c, rest, hback⟩ := List.exists_cons_of_ne_nil (l := line.dropWhile (· ≠ ':')) fun hnil => by
      rw [hnil] at hcount
      cases hcount
    have hc : decide (c ≠ ':') = false := Text.head?_dropWhile (t := line) (by rw [hback]; rfl)
    obtain rfl : c = ':' := by simpa using hc
    rw [hback, List.count_cons_self] at hcount
    rw [hback] at hsplit ⊢
    exact ⟨hsplit.symm, hfront, List.not_mem_of_count_eq_zero (Nat.succ.inj hcount)⟩

/-- A line is read as a variant exactly if it denotes it. -/
theorem Variant.parse_eq_ok_iff {line : Text} {v : Variant} : Variant.parse line = .ok v ↔ v.DenotedBy line := by
  constructor
  · intro h
    unfold Variant.parse at h
    split at h
    · cases h
    · rename_i hcount
      simp only at h
      split at h
      · rename_i hname
        simp only [bind, Except.bind] at h
        split at h
        · cases h
        · rename_i fields hfields
          cases h
          obtain ⟨hline, hhead, htail⟩ := colon_iff.mpr ⟨Decidable.not_not.mp hcount, rfl, rfl⟩
          exact ⟨hname, _, _, hline, hhead, htail, Text.trimsTo_trim _, Field.parseAll_declarations_iff.mp hfields⟩
      · cases h
  · rintro ⟨hname, head, tail, hline, hhead, htail, htrim, hfields⟩
    obtain ⟨hcount, rfl, rfl⟩ := colon_iff.mp ⟨hline, hhead, htail⟩
    unfold Variant.parse
    rw [if_neg (not_not.mpr hcount)]
    simp only [Text.trim_eq_iff.mpr htrim, if_pos hname, Field.parseAll_declarations_iff.mpr hfields, bind,
      Except.bind]
    rfl

/-- Every refusal of a line names the line. -/
theorem Variant.parse_error {line : Text} {fault : Fault} (h : Variant.parse line = .error fault) :
    ∃ flaw, fault = Flaw.inLine flaw line := by
  unfold Variant.parse at h
  split at h
  · cases h
    exact ⟨_, rfl⟩
  · simp only at h
    split at h
    · simp only [bind, Except.bind] at h
      split at h
      · rename_i e hfields
        cases h
        exact Field.parseAll_error hfields
      · cases h
    · cases h
      exact ⟨_, rfl⟩

theorem Variant.parse_eq_error_iff {line : Text} :
    (∃ flaw, Variant.parse line = .error (Flaw.inLine flaw line)) ↔ ∀ v : Variant, ¬ v.DenotedBy line := by
  constructor
  · rintro ⟨flaw, h⟩ v hv
    rw [Variant.parse_eq_ok_iff.mpr hv] at h
    cases h
  · intro h
    cases hparse : Variant.parse line with
    | ok v => exact absurd (Variant.parse_eq_ok_iff.mp hparse) (h v)
    | error fault =>
      obtain ⟨flaw, rfl⟩ := Variant.parse_error hparse
      exact ⟨flaw, rfl⟩

/-- A line is read as a variant exactly if it denotes it. It is refused, by a fault that carries the line
    as it stands, exactly if it denotes none. -/
theorem Variant.parse_iff_denoted (line : Text) :
    (∀ v : Variant, Variant.parse line = .ok v ↔ v.DenotedBy line) ∧
      ((∃ flaw, Variant.parse line = .error ⟨none, flaw, some line⟩) ↔ ∀ v : Variant, ¬ v.DenotedBy line) :=
  ⟨fun _ => Variant.parse_eq_ok_iff, Variant.parse_eq_error_iff⟩

/-- A comma separates declarations only if a space follows it. -/
example : Variant.parse "V : a,\tx, ,b\ty".toList =
    .ok ⟨['V'], [⟨"a,".toList, ['x']⟩, ⟨",b".toList, ['y']⟩]⟩ := by decide

end NodeGen
