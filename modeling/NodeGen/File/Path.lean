/-
  NodeGen.File.Path — paths in normal form, and where the files of a grammar go.

  A path keeps its `..` parts: only the file system knows what they lead to. It drops empty parts and
  `.` parts. Two slashes at the start, and no other number above one, are kept as two.
-/

import NodeGen.Source.Target

namespace NodeGen

inductive Anchor where
  | here
  | root
  /-- The root written with two slashes. -/
  | doubleRoot
  deriving DecidableEq, Repr

namespace Anchor

def text : Anchor → Text
  | .here => []
  | .root => ['/']
  | .doubleRoot => ['/', '/']

def ofText : Text → Anchor
  | '/' :: '/' :: '/' :: _ => .root
  | '/' :: '/' :: _ => .doubleRoot
  | '/' :: _ => .root
  | _ => .here

end Anchor

structure Path where
  anchor : Anchor
  parts : List Text
  deriving DecidableEq, Repr

namespace Path

/-- The parts of a text that name something, in order; `.` names nothing. -/
def partsOf (t : Text) : List Text := (t.splitOn '/').filter fun part => part ≠ [] ∧ part ≠ ['.']

def ofText (t : Text) : Path := ⟨Anchor.ofText t, partsOf t⟩

/-- The path in normal form; the path with nothing in it is `.`. -/
def toText (p : Path) : Text :=
  match p.anchor, p.parts with
  | .here, [] => ['.']
  | anchor, parts => anchor.text ++ ['/'].intercalate parts

/-- The last part; nothing for a root or the current directory. -/
def name (p : Path) : Text := p.parts.getLast?.getD []

def parent (p : Path) : Path := { p with parts := p.parts.dropLast }

/-- `q` seen from `p`: an anchored path replaces `p`. -/
def join (p q : Path) : Path :=
  match q.anchor with
  | .here => { p with parts := p.parts ++ q.parts }
  | _ => q

def child (p : Path) (name : Text) : Path := { p with parts := p.parts ++ [name] }

/-- Drops `.`, and lets each `..` take back the part before it, by the names alone. What has no part
    before it stays at the root. -/
def collapse (parts : List Text) : List Text :=
  parts.foldl (fun kept part => if part = ['.', '.'] then kept.dropLast else kept ++ [part]) []

/-- The anchored path that `p` denotes from the directory `cwd`, its `..` parts taken back by name. -/
def absolute (cwd : List Text) (p : Path) : Path :=
  match p.anchor with
  | .here => ⟨.root, collapse (cwd ++ p.parts)⟩
  | anchor => ⟨anchor, collapse p.parts⟩

def output (directory : Path) (target : Target) (base : Text) : Path :=
  directory.join (ofText (target.fileName base))

end Path

end NodeGen
