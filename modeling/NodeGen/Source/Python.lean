/-
  NodeGen.Source.Python — node classes in Python: an abstract base class that holds the visitor, and
  a frozen dataclass for each variant. Type tags are written as quoted literals, so a tag of any
  other language stays inert.
-/

import NodeGen.Descriptor.Basic
import NodeGen.Text.Lowercase
import NodeGen.Text.Quoted

namespace NodeGen.Python

def visitorMethodRow (base : Text) (v : Variant) : Text :=
  "        def ".toList ++ v.visitMethod base ++ "(self, ".toList ++ Text.lower base ++ ": ".toList ++
    v.name ++ ") -> R:".toList

def visitorMethodRows (base : Text) (v : Variant) : List Text :=
  ["        @abc.abstractmethod".toList, visitorMethodRow base v, "            ...".toList]

/-- The visitor; an empty row stands between two methods. -/
def visitorRows (base : Text) (variants : List Variant) : List Text :=
  "    class Visitor(abc.ABC, Generic[R]):".toList ::
    [[]].intercalate (variants.map (visitorMethodRows base))

def classRow (base : Text) (v : Variant) : Text :=
  "class ".toList ++ v.name ++ ['('] ++ base ++ "):".toList

def fieldRow (f : Field) : Text :=
  "    ".toList ++ f.name ++ ": ".toList ++ Text.Quoted.encode f.tag

def fieldRows (fields : List Field) : List Text :=
  match fields with
  | [] => []
  | _ => fields.map fieldRow ++ [[]]

def acceptRow (base : Text) : Text :=
  "    def accept(self, visitor: ".toList ++ base ++ ".Visitor[R]) -> R:".toList

def dispatchRow (base : Text) (v : Variant) : Text :=
  "        return visitor.".toList ++ v.visitMethod base ++ "(self)".toList

def variantRows (base : Text) (v : Variant) : List Text :=
  ["@dataclass(frozen=True)".toList, classRow base v] ++ fieldRows v.fields ++
    [acceptRow base, dispatchRow base v]

def fileRows (d : Descriptor) : List Text :=
  ["# Generated by ast_gen 0.1.0 from the ".toList ++ d.base ++ " grammar. Do not edit.".toList, [],
    "from __future__ import annotations".toList, [], "import abc".toList,
    "from dataclasses import dataclass".toList, "from typing import Generic, TypeVar".toList, [],
    "R = TypeVar(\"R\")".toList, [], [], "class ".toList ++ d.base ++ "(abc.ABC):".toList] ++
    visitorRows d.base d.variants ++
    [[], "    @abc.abstractmethod".toList, acceptRow d.base, "        ...".toList] ++
    d.variants.flatMap (fun v => [[], []] ++ variantRows d.base v)

/-- The whole file. No package is named in it. -/
def file (d : Descriptor) : Text := Text.rows (fileRows d) ++ ['\n']

end NodeGen.Python
