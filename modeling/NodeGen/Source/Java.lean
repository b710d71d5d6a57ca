/-
  NodeGen.Source.Java — node classes in Java: one abstract class that holds a visitor interface and
  a static class for each variant. All parts are rows; a row may hold a line break only where a tag,
  a name or the package brings one.
-/

import NodeGen.Descriptor.Basic
import NodeGen.Text.Lowercase

namespace NodeGen.Java

def visitorMethodRow (base : Text) (v : Variant) : Text :=
  "    R ".toList ++ v.visitMethod base ++ ['('] ++ v.name ++ [' '] ++ Text.lower base ++ ");".toList

def visitorRows (base : Text) (variants : List Variant) : List Text :=
  "  interface Visitor<R> \x7b".toList :: (variants.map (visitorMethodRow base) ++ ["  \x7d".toList])

def parameters (fields : List Field) : Text :=
  ", ".toList.intercalate (fields.map fun f => f.tag ++ [' '] ++ f.name)

def assignmentRow (f : Field) : Text :=
  "      this.".toList ++ f.name ++ " = ".toList ++ f.name ++ [';']

def fieldRow (f : Field) : Text := "    final ".toList ++ f.tag ++ [' '] ++ f.name ++ [';']

def dispatchRow (base : Text) (v : Variant) : Text :=
  "      return visitor.".toList ++ v.visitMethod base ++ "(this);".toList

def classRow (base : Text) (v : Variant) : Text :=
  "  static class ".toList ++ v.name ++ " extends ".toList ++ base ++ " \x7b".toList

def constructorRow (v : Variant) : Text :=
  "    ".toList ++ v.name ++ ['('] ++ parameters v.fields ++ ") \x7b".toList

/-- The field declarations, set off by an empty row; nothing at all where there is no field. -/
def fieldRows (fields : List Field) : List Text :=
  match fields with
  | [] => []
  | _ => [] :: fields.map fieldRow

def variantRows (base : Text) (v : Variant) : List Text :=
  [classRow base v, constructorRow v] ++ v.fields.map assignmentRow ++
    ["    \x7d".toList, [], "    @Override".toList, "    <R> R accept(Visitor<R> visitor) \x7b".toList,
      dispatchRow base v, "    \x7d".toList] ++
    fieldRows v.fields ++ ["  \x7d".toList]

def fileRows (package : Text) (d : Descriptor) : List Text :=
  ["package ".toList ++ package ++ [';'], [], "import java.util.List;".toList, [], [],
    "abstract class ".toList ++ d.base ++ " \x7b".toList, []] ++
    visitorRows d.base d.variants ++ [[], []] ++
    d.variants.flatMap (fun v => variantRows d.base v ++ [[], []]) ++
    ["  abstract <R> R accept(Visitor<R> visitor);".toList, "\x7d".toList]

def file (package : Text) (d : Descriptor) : Text := Text.rows (fileRows package d) ++ ['\n']

end NodeGen.Java
