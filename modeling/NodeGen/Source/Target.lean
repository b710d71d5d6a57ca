/-
  NodeGen.Source.Target — the languages that node classes are written in.
-/

import NodeGen.Source.Java
import NodeGen.Source.Python

namespace NodeGen

inductive Target where
  | java
  | python
  deriving DecidableEq, Repr

namespace Target

def name : Target → Text
  | .java => "java".toList
  | .python => "python".toList

def all : List Target := [.java, .python]

def ofName? (t : Text) : Option Target := all.find? fun target => target.name = t

def extension : Target → Text
  | .java => "java".toList
  | .python => "py".toList

def fileName (target : Target) (base : Text) : Text := base ++ ['.'] ++ target.extension

/-- The text of the file that holds a descriptor's classes. Only Java names the package. -/
def render (target : Target) (package : Text) (d : Descriptor) : Text :=
  match target with
  | .java => Java.file package d
  | .python => Python.file d

theorem ofName?_name (target : Target) : ofName? target.name = some target := by
  cases target <;> decide

end Target

end NodeGen
