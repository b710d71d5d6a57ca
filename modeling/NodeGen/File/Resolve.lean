/-
  NodeGen.File.Resolve — from a path, as the system is given it, to the place in the tree that it
  denotes.

  The walk takes one name after the other. Before each name the place reached must be a directory;
  `.` stays, `..` goes up (from the root nowhere), a link is replaced by the names of its target. The
  last name may be vacant. Forty links are followed on one way, the next one is refused.
-/

import NodeGen.File.Errno
import NodeGen.File.Path
import NodeGen.File.Tree

namespace NodeGen

/-- A path as the system reads it: its text, where it starts, its names in order (`.` and `..` among
    them), and whether a slash ends it. -/
structure Route where
  text : Text
  absolute : Bool
  names : List Text
  slash : Bool
  deriving DecidableEq, Repr

namespace Route

def ofText (t : Text) : Route :=
  ⟨t, t.head? = some '/', (t.splitOn '/').filter (· ≠ []), t.getLast? = some '/'⟩

def ofPath (p : Path) : Route := ⟨p.toText, p.anchor ≠ .here, p.parts, false⟩

/-- The names, with a `.` behind them where a slash asks for a directory. -/
def allNames (r : Route) : List Text := if r.slash then r.names ++ [['.']] else r.names

end Route

/-- What a path denotes: a node of the tree, or a name in a directory that has no such name yet. -/
inductive Spot where
  | node (l : Location)
  | vacant (directory : Location) (name : Text)
  deriving DecidableEq, Repr

/-- The longest name of a directory entry, in bytes. -/
def maxName : Nat := 255

/-- A path of this many bytes is refused as a whole. -/
def maxPath : Nat := 4096

def maxLinks : Nat := 40

namespace Tree

def isDirectory (t : Tree) (l : Location) : Bool := (t.get? l).any Node.isDirectory

/-- The walk along names from a place, up to the first link, which `follow` is asked about: it gets
    the place where the target of the link starts, and all names that remain. -/
def walkNames (t : Tree) (follow : Location → List Text → Except Errno Spot) :
    Location → List Text → Except Errno Spot
  | at_, [] => .ok (.node at_)
  | at_, name :: rest =>
    if t.isDirectory at_ then
      if name = ['.'] then walkNames t follow at_ rest
      else if name = ['.', '.'] then walkNames t follow at_.dropLast rest
      else if maxName < Text.Utf8.size name then .error .nameTooLong
      else
        match t.get? (at_ ++ [name]) with
        | none => if rest = [] then .ok (.vacant at_ name) else .error .noEntry
        | some (.link target) =>
          let route := Route.ofText target
          follow (if route.absolute then [] else at_) (route.allNames ++ rest)
        | some _ => walkNames t follow (at_ ++ [name]) rest
    else .error .notDirectory

def walk (t : Tree) : Nat → Location → List Text → Except Errno Spot
  | 0 => t.walkNames fun _ _ => .error .linkLoop
  | links + 1 => t.walkNames (walk t links)

def walkDirectory (t : Tree) (start : Location) (names : List Text) : Except Errno Location :=
  match t.walk maxLinks start names with
  | .ok (.node l) => if t.isDirectory l then .ok l else .error .notDirectory
  | .ok (.vacant ..) => .error .noEntry
  | .error e => .error e

end Tree

end NodeGen
