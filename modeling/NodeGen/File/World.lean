/-
  NodeGen.File.World — the state that file calls act on, and what each call does to it.

  A call either is refused, and then changes nothing, or yields the next state. The calls here follow
  links, those that act on an entry of a directory (`create`, `rename`, `unlink`) do not follow the
  last name.
-/

import NodeGen.File.Resolve
import NodeGen.File.Suffix

namespace NodeGen

open Text (Bytes)

structure World where
  tree : Tree
  /-- The current directory. -/
  cwd : Location
  /-- The permission bits that new files go without. -/
  umask : Nat
  /-- The source of random suffixes, and how many were drawn from it. -/
  suffixes : Nat → Suffix
  drawn : Nat

/-- Whether a path may reach the system, and there be looked at at all. -/
def Route.admit (r : Route) : Except Refusal Unit :=
  if '\x00' ∈ r.text then .error .nulInPath
  else if r.text = [] then .error (.errno .noEntry)
  else if maxPath ≤ Text.Utf8.size r.text then .error (.errno .nameTooLong)
  else .ok ()

def unmasked (mode umask : Nat) : Nat := mode &&& (0o7777 ^^^ (umask &&& 0o777))

namespace World

def start (w : World) (r : Route) : Location := if r.absolute then [] else w.cwd

def lift {α : Type} : Except Errno α → Except Refusal α
  | .ok a => .ok a
  | .error e => .error (.errno e)

def locate (w : World) (r : Route) : Except Refusal Spot := do
  r.admit
  lift (w.tree.walk maxLinks (w.start r) r.allNames)

def locateNode (w : World) (r : Route) : Except Refusal Location := do
  match ← w.locate r with
  | .node l => return l
  | .vacant .. => throw (.errno .noEntry)

/-- The directory in which the last name of a path is an entry, and that name; no name where the
    path ends in `.`, in `..` or at the root. -/
def entry (w : World) (r : Route) : Except Refusal (Location × Option Text) := do
  r.admit
  let directory ← lift (w.tree.walkDirectory (w.start r) r.names.dropLast)
  return (directory, r.names.getLast?.filter fun name => name ≠ ['.'] ∧ name ≠ ['.', '.'])

def entryLocation (directory : Location) (name : Text) : Except Refusal Location :=
  if maxName < Text.Utf8.size name then .error (.errno .nameTooLong) else .ok (directory ++ [name])

def stat (w : World) (r : Route) : Except Refusal Nat := do
  let l ← w.locateNode r
  match w.tree.get? l with
  | some node => return node.mode
  | none => throw (.errno .noEntry)

def read (w : World) (r : Route) : Except Refusal Bytes := do
  let l ← w.locateNode r
  match w.tree.get? l with
  | some (.file _ content) => return content
  | some (.directory _) => throw (.errno .isDirectory)
  | _ => throw (.errno .noEntry)

/-- Makes a new, empty file; whatever stands at the name already, a link too, is in the way. -/
def create (w : World) (r : Route) (mode : Nat) : Except Refusal World := do
  match ← w.entry r with
  | (_, none) => throw (.errno .alreadyExists)
  | (directory, some name) =>
    let l ← entryLocation directory name
    if (w.tree.get? l).isSome then throw (.errno .alreadyExists)
    return { w with tree := w.tree.insert l (.file (unmasked mode w.umask) []) }

def write (w : World) (r : Route) (content : Bytes) : Except Refusal World := do
  let l ← w.locateNode r
  match w.tree.get? l with
  | some (.file mode _) => return { w with tree := w.tree.insert l (.file mode content) }
  | some (.directory _) => throw (.errno .isDirectory)
  | _ => throw (.errno .noEntry)

def chmod (w : World) (r : Route) (mode : Nat) : Except Refusal World := do
  let l ← w.locateNode r
  match w.tree.get? l with
  | some node => return { w with tree := w.tree.insert l (node.withMode (mode &&& 0o7777)) }
  | none => throw (.errno .noEntry)

/-- Moves a file to a name, in place of a file or link that has the name. A directory is not
    replaced, neither one that the file lies below nor any other. -/
def rename (w : World) (old new : Route) : Except Refusal World := do
  if '\x00' ∈ new.text then throw .nulInPath
  let source ← w.entry old
  let target ← w.entry new
  match source, target with
  | (fromDirectory, some fromName), (toDirectory, some toName) =>
    let source ← entryLocation fromDirectory fromName
    match w.tree.get? source with
    | none => throw (.errno .noEntry)
    | some node =>
      let target ← entryLocation toDirectory toName
      if target.isPrefixOf fromDirectory then throw (.errno .notEmpty)
      if w.tree.isDirectory target then throw (.errno .isDirectory)
      if target = source then return w
      return { w with tree := (w.tree.erase source).insert target node }
  | _, _ => throw (.errno .busy)

def unlink (w : World) (r : Route) : Except Refusal World := do
  match ← w.entry r with
  | (_, none) => throw (.errno .isDirectory)
  | (directory, some name) =>
    let l ← entryLocation directory name
    match w.tree.get? l with
    | none => throw (.errno .noEntry)
    | some (.directory _) => throw (.errno .isDirectory)
    | some _ => return { w with tree := w.tree.erase l }

end World

end NodeGen
