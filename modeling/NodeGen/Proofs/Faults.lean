/-
  NodeGen.Proofs.Faults — what is wrong with a declaration, a line or a table that is refused, apart from the
  reader that refuses it.

  `Field.Faulty`, `Variant.Faulty` and `Descriptor.Faulty` have one rule for each thing that can be wrong, and
  the reader reports exactly that: `Field.parse_faulty_iff` for a declaration, `Variant.parse_faulty_iff` for a
  line, `Descriptor.parse_faulty_iff` for a table. A grammar is refused for the first of its tables that is
  (`Descriptor.parseGrammar_faulty_iff`).
-/

import NodeGen.Proofs.FirstFault

namespace NodeGen

/-! ## Declarations -/

namespace Field

inductive Faulty (piece : Text) : Flaw → Prop
  | shape {word : Text} : Text.TrimsTo piece word → Text.NoBlank word → Faulty piece (.fieldShape word)
  | name {tag gap name : Text} : Text.TrimsTo piece (tag ++ gap ++ name) → Text.NoBlank tag → gap ≠ [] →
      Text.AllBlank gap → (∀ c ∈ name.head?, Text.isBlank c = false) → Text.isIdentifier name = false →
      Faulty piece (.fieldName name)

inductive ListFaulty (variant : Text) : List Text → List Text → Flaw → Prop
  | here {seen rest : List Text} {piece : Text} {flaw : Flaw} : Faulty piece flaw →
      ListFaulty variant seen (piece :: rest) flaw
  | repeated {seen rest : List Text} {piece : Text} {f : Field} : f.DeclaredBy piece → f.name ∈ seen →
      ListFaulty variant seen (piece :: rest) (.repeatedField f.name variant)
  | later {seen rest : List Text} {piece : Text} {f : Field} {flaw : Flaw} : f.DeclaredBy piece → f.name ∉ seen →
      ListFaulty variant (f.name :: seen) rest flaw → ListFaulty variant seen (piece :: rest) flaw

structure Pieces (t : Text) (pieces : List Text) : Prop where
  trimmed : Text.TrimsTo t (separator.intercalate pieces)
  nonblank : separator.intercalate pieces ≠ []
  whole : ∀ piece ∈ pieces, ¬ separator <:+: piece

theorem parse_faulty_iff {piece line : Text} {fault : Fault} : parse piece line = .error fault ↔
    ∃ flaw, fault = Flaw.inLine flaw line ∧ Faulty piece flaw := by
  have htrim := Text.trimsTo_trim piece
  constructor
  · intro h
    unfold parse at h
    split at h
    · rename_i hcut
      cases h
      exact ⟨_, rfl, .shape htrim (Text.cutBlank_eq_none_iff.mp hcut)⟩
    · rename_i tag name hcut
      split at h
      · cases h
      · rename_i hname
        cases h
        obtain ⟨htag, hfirst, gap, hne, hgap, heq⟩ := Text.cutBlank_eq_some_iff.mp hcut
        exact ⟨_, rfl, .name (heq ▸ htrim) htag hne hgap hfirst (by simpa using hname)⟩
  · rintro ⟨flaw, rfl, hfaulty⟩
    cases hfaulty with
    | shape hword hnone =>
      unfold parse
      rw [Text.trim_eq_iff.mpr hword, Text.cutBlank_of_noBlank hnone]
    | name hwritten htag hne hgap hfirst hname =>
      unfold parse
      rw [Text.trim_eq_iff.mpr hwritten, Text.cutBlank_eq_some_iff.mpr ⟨htag, hfirst, _, hne, hgap, rfl⟩]
      simp [hname]

theorem parseAll_faulty_iff {variant line : Text} {seen pieces : List Text} {fault : Fault} :
    parseAll variant line seen pieces = .error fault ↔
      ∃ flaw, fault = Flaw.inLine flaw line ∧ ListFaulty variant seen pieces flaw := by
  induction pieces generalizing seen with
  | nil =>
    constructor
    · intro h
      cases h
    · rintro ⟨flaw, -, hfaulty⟩
      cases hfaulty
  | cons piece rest ih =>
    simp only [parseAll, bind, Except.bind]
    constructor
    · intro h
      split at h
      · rename_i hpiece
        cases h
        obtain ⟨flaw, rfl, hfaulty⟩ := parse_faulty_iff.mp hpiece
        exact ⟨flaw, rfl, .here hfaulty⟩
      · rename_i f hf
        have hdeclared := parse_eq_ok_iff.mp hf
        split at h
        · rename_i hseen
          cases h
          exact ⟨_, rfl, .repeated hdeclared hseen⟩
        · rename_i hseen
          split at h
          · rename_i hrest
            cases h
            obtain ⟨flaw, rfl, hfaulty⟩ := ih.mp hrest
            exact ⟨flaw, rfl, .later hdeclared hseen hfaulty⟩
          · cases h
    · rintro ⟨flaw, rfl, hfaulty⟩
      cases hfaulty with
      | here hpiece => simp only [parse_faulty_iff.mpr ⟨flaw, rfl, hpiece⟩]
      | repeated hf hseen => simp only [parse_eq_ok_iff.mpr hf, if_pos hseen]; rfl
      | later hf hseen hrest =>
        simp only [parse_eq_ok_iff.mpr hf, if_neg hseen, ih.mpr ⟨flaw, rfl, hrest⟩]

theorem pieces_iff {t : Text} {pieces : List Text} : Pieces t pieces ↔ declarations t = pieces ∧ pieces ≠ [] := by
  constructor
  · rintro ⟨htrim, hne, hwhole⟩
    have hpieces : pieces ≠ [] := by
      rintro rfl
      exact hne rfl
    rw [declarations_eq_of_trimsTo htrim hne]
    exact ⟨splitDeclarations_eq_iff.mpr ⟨hpieces, rfl, hwhole⟩, hpieces⟩
  · rintro ⟨rfl, hpieces⟩
    have htrim := Text.trimsTo_trim t
    have hne : Text.trim t ≠ [] := fun he => hpieces (declarations_eq_nil_iff.mpr (he ▸ htrim))
    rw [declarations_eq_of_trimsTo htrim hne]
    obtain ⟨-, hjoin, hwhole⟩ := splitDeclarations_eq_iff.mp (rfl : splitDeclarations (Text.trim t) = _)
    exact ⟨hjoin ▸ htrim, hjoin ▸ hne, hwhole⟩

end Field

/-! ## Lines -/

namespace Variant

inductive Faulty (line : Text) : Flaw → Prop
  | colons : line.count ':' ≠ 1 → Faulty line .colonCount
  | name {head tail name : Text} : line = head ++ ':' :: tail ∧ ':' ∉ head ∧ ':' ∉ tail →
      Text.TrimsTo head name → Text.isIdentifier name = false → Faulty line (.variantName name)
  | fields {head tail name : Text} {pieces : List Text} {flaw : Flaw} :
      line = head ++ ':' :: tail ∧ ':' ∉ head ∧ ':' ∉ tail → Text.TrimsTo head name →
      Text.isIdentifier name = true → Field.Pieces tail pieces → Field.ListFaulty name [] pieces flaw →
      Faulty line flaw

theorem parse_faulty_iff {line : Text} {fault : Fault} : parse line = .error fault ↔
    ∃ flaw, fault = Flaw.inLine flaw line ∧ Faulty line flaw := by
  constructor
  · intro h
    unfold parse at h
    split at h
    · rename_i hcount
      cases h
      exact ⟨_, rfl, .colons hcount⟩
    · rename_i hcount
      have hcolon := colon_iff.mpr ⟨Decidable.not_not.mp hcount, rfl, rfl⟩
      have hhead := Text.trimsTo_trim (line.takeWhile (· ≠ ':'))
      simp only at h
      split at h
      · rename_i hname
        simp only [bind, Except.bind] at h
        split at h
        · rename_i hfields
          cases h
          obtain ⟨flaw, rfl, hfaulty⟩ := Field.parseAll_faulty_iff.mp hfields
          have hpieces : declarations (line.dropWhile (· ≠ ':')).tail ≠ [] := by
            intro hnil
            rw [hnil] at hfaulty
            cases hfaulty
          exact ⟨flaw, rfl, .fields hcolon hhead hname (Field.pieces_iff.mpr ⟨rfl, hpieces⟩) hfaulty⟩
        · cases h
      · rename_i hname
        cases h
        exact ⟨_, rfl, .name hcolon hhead (by simpa using hname)⟩
  · rintro ⟨flaw, rfl, hfaulty⟩
    unfold parse
    cases hfaulty with
    | colons hcount => rw [if_pos hcount]
    | name hcolon hhead hname =>
      obtain ⟨hcount, rfl, rfl⟩ := colon_iff.mp hcolon
      rw [if_neg (not_not.mpr hcount)]
      simp only [Text.trim_eq_iff.mpr hhead, hname, Bool.false_eq_true, if_false]
    | fields hcolon hhead hname hpieces hfields =>
      obtain ⟨hcount, rfl, rfl⟩ := colon_iff.mp hcolon
      rw [if_neg (not_not.mpr hcount)]
      simp only [Text.trim_eq_iff.mpr hhead, if_pos hname, (Field.pieces_iff.mp hpieces).1, bind, Except.bind,
        Field.parseAll_faulty_iff.mpr ⟨flaw, rfl, hfields⟩]

end Variant

/-! ## Tables -/

structure Variant.Denote (lines : List Text) (variants : List Variant) : Prop where
  each : List.Forall₂ (fun line (v : Variant) => v.DenotedBy line) lines variants
  distinct : (variants.map Variant.name).Nodup

theorem Variant.parseAll_iff_denote {lines : List Text} {variants : List Variant} :
    Variant.parseAll [] lines = .ok variants ↔ Denote lines variants := by
  simp only [parseAll_eq_ok_iff, Variant.parse_eq_ok_iff]
  exact ⟨fun ⟨heach, hfresh⟩ => ⟨heach, hfresh.1⟩, fun ⟨heach, hdistinct⟩ => ⟨heach, hdistinct, by simp⟩⟩

namespace Descriptor

/-- What is wrong with a table: its name, that it has no lines, or the first line that denotes no variant or one
    whose name an earlier line gives. -/
inductive Faulty (base : Text) (lines : List Text) : Fault → Prop
  | name : Text.isIdentifier base = false → Faulty base lines ⟨none, .baseName base, none⟩
  | empty : Text.isIdentifier base = true → lines = [] → Faulty base lines ⟨some base, .emptyTable, none⟩
  | line {before after : List Text} {line : Text} {variants : List Variant} {flaw : Flaw} :
      Text.isIdentifier base = true → lines = before ++ line :: after → Variant.Denote before variants →
      Variant.Faulty line flaw → Faulty base lines ⟨some base, flaw, some line⟩
  | repeated {before after : List Text} {line : Text} {variants : List Variant} {v : Variant} :
      Text.isIdentifier base = true → lines = before ++ line :: after → Variant.Denote before variants →
      v.DenotedBy line → v.name ∈ variants.map Variant.name →
      Faulty base lines ⟨some base, .repeatedVariant v.name, some line⟩

variable {base : Text} {lines : List Text} {fault : Fault}

theorem parse_of_offending {before after : List Text} {line : Text} {variants : List Variant}
    (hbase : Text.isIdentifier base = true) (hbefore : Variant.Denote before variants)
    (h : Variant.Offending (variants.map Variant.name) line fault) :
    parse base (before ++ line :: after) = .error { fault with table := some base } := by
  refine parse_of_parseAll_error hbase (by simp) (Variant.parseAll_eq_error_iff.mpr ?_)
  exact ⟨before, line, after, variants, rfl, Variant.parseAll_iff_denote.mpr hbefore, by rwa [List.append_nil]⟩

theorem parse_faulty_iff : parse base lines = .error fault ↔ Faulty base lines fault := by
  constructor
  · intro h
    unfold parse at h
    split at h
    · rename_i hbase
      unfold Variant.parseTable at h
      by_cases hlines : lines = []
      · rw [if_pos hlines] at h
        cases h
        exact .empty hbase hlines
      · rw [if_neg hlines] at h
        split at h
        · cases h
        · rename_i hread
          cases h
          obtain ⟨before, line, after, variants, hsplit, hbefore, hline⟩ := Variant.parseAll_eq_error_iff.mp hread
          rw [List.append_nil] at hline
          have hbefore := Variant.parseAll_iff_denote.mp hbefore
          cases hline with
          | refused _ hparse =>
            obtain ⟨flaw, rfl, hfaulty⟩ := Variant.parse_faulty_iff.mp hparse
            exact .line hbase hsplit hbefore hfaulty
          | repeated v hv hmem => exact .repeated hbase hsplit hbefore (Variant.parse_eq_ok_iff.mp hv) hmem
    · rename_i hbase
      cases h
      exact .name (by simpa using hbase)
  · intro h
    cases h with
    | name hbase => simp [parse, hbase]
    | empty hbase hlines => simp [parse, hbase, Variant.parseTable, hlines]
    | line hbase hsplit hbefore hfaulty =>
      rw [hsplit]
      exact parse_of_offending hbase hbefore (.refused _ (Variant.parse_faulty_iff.mpr ⟨_, rfl, hfaulty⟩))
    | repeated hbase hsplit hbefore hv hmem =>
      rw [hsplit]
      exact parse_of_offending hbase hbefore (.repeated _ (Variant.parse_eq_ok_iff.mpr hv) hmem)

/-- A grammar is refused for the first of its tables that is. -/
theorem parseGrammar_faulty_iff {g : Grammar} : parseGrammar g = .error fault ↔
    ∃ before base lines after, g = before ++ (base, lines) :: after ∧
      (∀ table ∈ before, ∃ d, Accepted table.1 table.2 d) ∧ Faulty base lines fault := by
  simp only [← parse_eq_ok_iff, ← parse_faulty_iff]
  constructor
  · intro h
    induction g with
    | nil => cases h
    | cons table g ih =>
      simp only [parseGrammar, List.mapM_cons, bind, Except.bind] at h
      split at h
      · rename_i hfirst
        cases h
        exact ⟨[], table.1, table.2, g, rfl, by simp, hfirst⟩
      · rename_i d hd
        split at h
        · rename_i hrest
          cases h
          obtain ⟨before, base, lines, after, rfl, hbefore, hfault⟩ := ih hrest
          exact ⟨table :: before, base, lines, after, rfl, List.forall_mem_cons.mpr ⟨⟨d, hd⟩, hbefore⟩, hfault⟩
        · cases h
  · rintro ⟨before, base, lines, after, rfl, hbefore, hfault⟩
    induction before with
    | nil => simp only [parseGrammar, List.nil_append, List.mapM_cons, hfault, bind, Except.bind]
    | cons table before ih =>
      obtain ⟨⟨d, hd⟩, hbefore⟩ := List.forall_mem_cons.mp hbefore
      have hrest := ih hbefore
      unfold parseGrammar at hrest ⊢
      simp only [List.cons_append, List.mapM_cons, hd, hrest, bind, Except.bind]

end Descriptor

end NodeGen
