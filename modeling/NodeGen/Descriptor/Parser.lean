/-
  NodeGen.Descriptor.Parser — reading descriptor lines and tables.

  A line is `Name : Type field, Type field`. It holds one colon; both sides are trimmed; the fields
  are cut at every comma that a space follows; a declaration is cut at its first blank run. The first
  fault found from left to right is the one reported.
-/

import NodeGen.Descriptor.Fault

namespace NodeGen

def consFirst (c : Char) : List Text → List Text
  | [] => [[c]]
  | piece :: pieces => (c :: piece) :: pieces

/-- The pieces between the separators, a comma with a space behind it. -/
def splitDeclarations : Text → List Text
  | [] => [[]]
  | ',' :: ' ' :: rest => [] :: splitDeclarations rest
  | c :: rest => consFirst c (splitDeclarations rest)

def Field.parse (declaration line : Text) : Except Fault Field :=
  match Text.cutBlank (Text.trim declaration) with
  | none => .error (Flaw.inLine (.fieldShape (Text.trim declaration)) line)
  | some (tag, name) =>
    if Text.isIdentifier name then .ok ⟨tag, name⟩ else .error (Flaw.inLine (.fieldName name) line)

/-- The fields of a variant, none of them named like one of `seen` or like each other. -/
def Field.parseAll (variant line : Text) (seen : List Text) : List Text → Except Fault (List Field)
  | [] => .ok []
  | declaration :: rest => do
    let field ← Field.parse declaration line
    if field.name ∈ seen then throw (Flaw.inLine (.repeatedField field.name variant) line)
    let fields ← Field.parseAll variant line (field.name :: seen) rest
    return field :: fields

/-- The declarations of a field list; a blank list has none. -/
def declarations (fieldList : Text) : List Text :=
  match Text.trim fieldList with
  | [] => []
  | trimmed => splitDeclarations trimmed

def Variant.parse (line : Text) : Except Fault Variant :=
  if line.count ':' ≠ 1 then .error (Flaw.inLine .colonCount line)
  else
    let name := Text.trim (line.takeWhile (· ≠ ':'))
    if Text.isIdentifier name then do
      let fields ← Field.parseAll name line [] (declarations (line.dropWhile (· ≠ ':')).tail)
      return ⟨name, fields⟩
    else .error (Flaw.inLine (.variantName name) line)

def Variant.parseAll (seen : List Text) : List Text → Except Fault (List Variant)
  | [] => .ok []
  | line :: rest => do
    let variant ← Variant.parse line
    if variant.name ∈ seen then throw (Flaw.inLine (.repeatedVariant variant.name) line)
    let variants ← Variant.parseAll (variant.name :: seen) rest
    return variant :: variants

def Variant.parseTable (lines : List Text) : Except Fault (List Variant) :=
  if lines = [] then .error ⟨none, .emptyTable, none⟩ else Variant.parseAll [] lines

/-- Reads a table under its base name, which is judged before the lines. -/
def Descriptor.parse (base : Text) (lines : List Text) : Except Fault Descriptor :=
  if Text.isIdentifier base then
    match Variant.parseTable lines with
    | .ok variants => .ok ⟨base, variants⟩
    | .error fault => .error { fault with table := some base }
  else .error ⟨none, .baseName base, none⟩

def Descriptor.parseGrammar (tables : List (Text × List Text)) : Except Fault (List Descriptor) :=
  tables.mapM fun (base, lines) => Descriptor.parse base lines

end NodeGen
