/-
  NodeGen.Descriptor.Fault — why a table is refused, and the words for it.
-/

import NodeGen.Descriptor.Basic

namespace NodeGen

inductive Flaw where
  | fieldShape (declaration : Text)
  | fieldName (name : Text)
  | repeatedField (field variant : Text)
  | colonCount
  | variantName (name : Text)
  | repeatedVariant (name : Text)
  | emptyTable
  | baseName (name : Text)
  deriving DecidableEq, Repr

def Flaw.message : Flaw → Text
  | .fieldShape d => "expected '<type> <name>' field declaration, got '".toList ++ d ++ ['\'']
  | .fieldName n => "invalid field name '".toList ++ n ++ ['\'']
  | .repeatedField f v => "duplicate field '".toList ++ f ++ "' in variant '".toList ++ v ++ ['\'']
  | .colonCount => "descriptor must contain exactly one ':'".toList
  | .variantName n => "invalid variant name '".toList ++ n ++ ['\'']
  | .repeatedVariant n => "duplicate variant '".toList ++ n ++ ['\'']
  | .emptyTable => "grammar table must contain at least one variant".toList
  | .baseName n => "invalid base type name '".toList ++ n ++ ['\'']

structure Fault where
  table : Option Text
  flaw : Flaw
  line : Option Text
  deriving DecidableEq, Repr

/-- The refusal of a line that is read on its own. -/
def Flaw.inLine (flaw : Flaw) (line : Text) : Fault := ⟨none, flaw, some line⟩

def Fault.message (f : Fault) : Text :=
  match f.table with
  | none => f.flaw.message
  | some base => base ++ ": ".toList ++ f.flaw.message

end NodeGen
