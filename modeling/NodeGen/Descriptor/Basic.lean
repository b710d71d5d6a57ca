/-
  NodeGen.Descriptor.Basic — what a grammar table says: a base type and its variants, each with
  typed fields.
-/

import NodeGen.Text.Blank
import NodeGen.Text.Word

namespace NodeGen

/-- A field. Its type tag is copied into the output as it stands. -/
structure Field where
  tag : Text
  name : Text
  deriving DecidableEq, Repr

structure Variant where
  name : Text
  fields : List Field
  deriving DecidableEq, Repr

structure Descriptor where
  base : Text
  variants : List Variant
  deriving DecidableEq, Repr

def Variant.visitMethod (base : Text) (v : Variant) : Text := "visit".toList ++ v.name ++ base

/-- A tag that a descriptor line can hold. -/
def Field.TagFits (f : Field) : Prop := f.tag ≠ [] ∧ ∀ c ∈ f.tag, Text.isBlank c = false ∧ c ≠ ':'

instance (f : Field) : Decidable f.TagFits :=
  @instDecidableAnd _ _ inferInstance (List.decidableBAll _ f.tag)

structure Variant.WellFormed (v : Variant) : Prop where
  name : Text.isIdentifier v.name = true
  fieldNames : ∀ f ∈ v.fields, Text.isIdentifier f.name = true
  distinct : (v.fields.map Field.name).Nodup
  tags : ∀ f ∈ v.fields, f.TagFits

instance (v : Variant) : Decidable v.WellFormed :=
  decidable_of_iff (Text.isIdentifier v.name = true ∧ (∀ f ∈ v.fields, Text.isIdentifier f.name = true) ∧
      (v.fields.map Field.name).Nodup ∧ ∀ f ∈ v.fields, f.TagFits)
    ⟨fun ⟨hname, hfields, hdistinct, htags⟩ => ⟨hname, hfields, hdistinct, htags⟩,
      fun ⟨hname, hfields, hdistinct, htags⟩ => ⟨hname, hfields, hdistinct, htags⟩⟩

end NodeGen
