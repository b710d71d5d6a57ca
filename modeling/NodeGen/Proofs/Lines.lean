/-
  NodeGen.Proofs.Lines — what comes of a descriptor line, and of a table of lines, that is accepted.

  A line gives a well-formed variant (`Variant.parse_wellFormed`): its names are identifiers, no two
  fields share one, and its tags are neither empty nor hold a blank or a colon. A table is accepted if its
  base name is an identifier and it has lines, each of them is read, and no two give the same name
  (`Descriptor.parse_eq_ok_iff`); so it gives at least one variant, and no two of one name
  (`Descriptor.parse_wellFormed`).
-/

import NodeGen.Proofs.Derivation
import NodeGen.Proofs.Tables

namespace NodeGen

/-! ## Variants -/

theorem Field.exists_piece {fields : List Field} {pieces : List Text} (h : List.Forall₂ DeclaredBy fields pieces)
    {f : Field} (hf : f ∈ fields) : ∃ piece ∈ pieces, f.DeclaredBy piece := by
  obtain ⟨i, hi, rfl⟩ := List.getElem_of_mem hf
  have hi' : i < pieces.length := h.length_eq ▸ hi
  exact ⟨pieces[i], List.getElem_mem hi', h.get hi hi'⟩

/-- The tag of a declared field is made of the characters of its piece. -/
theorem Field.DeclaredBy.fits {f : Field} {piece : Text} (h : f.DeclaredBy piece) (hcolon : ':' ∉ piece) :
    f.TagFits := by
  obtain ⟨gap, -, -, hwritten⟩ := h.written
  refine ⟨h.tag.1, fun c hc => ⟨h.tag.2 c hc, ?_⟩⟩
  rintro rfl
  exact hcolon (hwritten.mem (List.mem_append_left _ (List.mem_append_left _ hc)))

theorem Variant.DenotedBy.wellFormed {v : Variant} {line : Text} (h : v.DenotedBy line) : v.WellFormed := by
  obtain ⟨hname, head, tail, -, -, htail, -, hfields⟩ := h
  obtain ⟨name, fields⟩ := v
  cases hfields with
  | blank => exact ⟨hname, by simp, List.nodup_nil, by simp⟩
  | pieces hne htrim hwhole hdeclared hnodup =>
    refine ⟨hname, fun f hf => ?_, hnodup, fun f hf => ?_⟩
    · obtain ⟨piece, -, hpiece⟩ := Field.exists_piece hdeclared hf
      exact hpiece.name
    · obtain ⟨piece, hmem, hpiece⟩ := Field.exists_piece hdeclared hf
      exact hpiece.fits fun hc => htail (htrim.mem (Text.mem_intercalate_of_mem hmem hc))

theorem Variant.parse_wellFormed {line : Text} {v : Variant} (h : Variant.parse line = .ok v) : v.WellFormed :=
  (Variant.parse_eq_ok_iff.mp h).wellFormed

/-- Lines are read as the variants that they give one by one, unless one of these bears a name that is
    taken. -/
theorem Variant.parseAll_eq_ok_iff {seen lines : List Text} {variants : List Variant} :
    Variant.parseAll seen lines = .ok variants ↔
      List.Forall₂ (fun line v => Variant.parse line = .ok v) lines variants ∧
        Text.Fresh seen (variants.map Variant.name) := by
  induction lines generalizing seen variants with
  | nil =>
    constructor
    · intro h
      cases h
      exact ⟨.nil, Text.fresh_nil seen⟩
    · rintro ⟨h, -⟩
      cases h
      rfl
  | cons line rest ih =>
    simp only [Variant.parseAll, bind, Except.bind]
    constructor
    · intro h
      split at h
      · cases h
      · rename_i v hv
        split at h
        · cases h
        · rename_i hseen
          split at h
          · cases h
          · rename_i more hmore
            cases h
            obtain ⟨hrest, hfresh⟩ := ih.mp hmore
            exact ⟨.cons hv hrest, Text.fresh_cons.mpr ⟨hseen, hfresh⟩⟩
    · rintro ⟨h, hfresh⟩
      cases h with
      | cons hv hrest =>
        obtain ⟨hseen, hfresh⟩ := Text.fresh_cons.mp hfresh
        simp only [hv, if_neg hseen, ih.mpr ⟨hrest, hfresh⟩]
        rfl

theorem Variant.wellFormed_of_lines {lines : List Text} {variants : List Variant}
    (h : List.Forall₂ (fun line v => Variant.parse line = .ok v) lines variants) : ∀ v ∈ variants, v.WellFormed := by
  induction h with
  | nil => simp
  | cons hv _ ih => exact List.forall_mem_cons.mpr ⟨Variant.parse_wellFormed hv, ih⟩

/-! ## Tables -/

structure Descriptor.Named (d : Descriptor) : Prop where
  base : Text.isIdentifier d.base = true
  variants : ∀ v ∈ d.variants, Text.isIdentifier v.name = true
  fields : ∀ v ∈ d.variants, ∀ f ∈ v.fields, Text.isIdentifier f.name = true

structure Descriptor.WellFormed (d : Descriptor) : Prop where
  base : Text.isIdentifier d.base = true
  nonempty : d.variants ≠ []
  variants : ∀ v ∈ d.variants, v.WellFormed
  distinct : (d.variants.map Variant.name).Nodup

theorem Descriptor.WellFormed.named {d : Descriptor} (h : d.WellFormed) : d.Named :=
  ⟨h.base, fun v hv => (h.variants v hv).name, fun v hv => (h.variants v hv).fieldNames⟩

structure Descriptor.Accepted (base : Text) (lines : List Text) (d : Descriptor) : Prop where
  identifier : Text.isIdentifier base = true
  nonempty : lines ≠ []
  named : d.base = base
  variants : List.Forall₂ (fun line v => Variant.parse line = .ok v) lines d.variants
  distinct : (d.variants.map Variant.name).Nodup

theorem Descriptor.parse_eq_ok_iff {base : Text} {lines : List Text} {d : Descriptor} :
    Descriptor.parse base lines = .ok d ↔ Accepted base lines d := by
  constructor
  · intro h
    obtain ⟨hnamed, hbase⟩ := parse_base h
    unfold Descriptor.parse Variant.parseTable at h
    rw [if_pos hbase] at h
    by_cases hlines : lines = []
    · rw [if_pos hlines] at h
      cases h
    · rw [if_neg hlines] at h
      split at h
      · rename_i variants hvariants
        cases h
        obtain ⟨hall, hnodup, -⟩ := Variant.parseAll_eq_ok_iff.mp hvariants
        exact ⟨hbase, hlines, hnamed, hall, hnodup⟩
      · cases h
  · rintro ⟨hbase, hlines, hnamed, hall, hnodup⟩
    have hvariants : Variant.parseAll [] lines = .ok d.variants :=
      Variant.parseAll_eq_ok_iff.mpr ⟨hall, hnodup, by simp⟩
    unfold Descriptor.parse Variant.parseTable
    rw [if_pos hbase, if_neg hlines, hvariants]
    cases hnamed
    rfl

theorem Descriptor.Accepted.wellFormed {base : Text} {lines : List Text} {d : Descriptor}
    (h : Accepted base lines d) : d.WellFormed where
  base := h.named ▸ h.identifier
  nonempty := by
    intro hnil
    have hlength := h.variants.length_eq
    rw [hnil] at hlength
    exact h.nonempty (List.eq_nil_of_length_eq_zero hlength)
  variants := Variant.wellFormed_of_lines h.variants
  distinct := h.distinct

theorem Descriptor.parse_wellFormed {base : Text} {lines : List Text} {d : Descriptor}
    (h : Descriptor.parse base lines = .ok d) : d.WellFormed :=
  (Descriptor.parse_eq_ok_iff.mp h).wellFormed

theorem Descriptor.parseGrammar_wellFormed {g : List (Text × List Text)} {ds : List Descriptor}
    (h : Descriptor.parseGrammar g = .ok ds) : ∀ d ∈ ds, d.WellFormed := by
  induction g generalizing ds with
  | nil => cases h; simp
  | cons table g ih =>
    obtain ⟨base, lines⟩ := table
    obtain ⟨d, rest, rfl, hd, hrest⟩ := parseGrammar_cons h
    exact List.forall_mem_cons.mpr ⟨parse_wellFormed hd, ih hrest⟩

def Descriptor.oneField (tag : Text) : Descriptor := ⟨['E'], [⟨['V'], [⟨tag, ['x']⟩]⟩]⟩

theorem Descriptor.oneField_named (tag : Text) : (oneField tag).Named := by
  have hbase : Text.isIdentifier ['E'] = true := by decide
  have hvariant : Text.isIdentifier ['V'] = true := by decide
  have hfield : Text.isIdentifier ['x'] = true := by decide
  exact ⟨hbase, by simpa [oneField] using hvariant, by simpa [oneField] using hfield⟩

end NodeGen
