/-
  NodeGen.File.Edit — the calls by which a user prepares and changes a tree: files, directories,
  links, and their removal. Paths come as texts, so a slash may end them.
-/

import NodeGen.File.World

namespace NodeGen.World

open Text (Bytes)

/-- A new world: the current directory `cwd` with the directories that lead to it, and no file. -/
def fresh (cwd : List (Text × Nat)) (umask : Nat) : World where
  tree := ⟨([], .directory 0o755) :: cwd.mapIdx fun i entry =>
    ((cwd.take (i + 1)).map Prod.fst, .directory entry.2)⟩
  cwd := cwd.map Prod.fst
  umask := umask
  suffixes := Suffix.ofNat
  drawn := 0

/-- Where a path, or a link that it leads to by its last name, ends in a slash: the directory of that
    last name. At most the given number of links are looked at. -/
def slashedEnd (w : World) : Nat → Location → Route → Option (Except Errno Location)
  | 0, _, _ => none
  | links + 1, start, r =>
    let directory := w.tree.walkDirectory start r.names.dropLast
    if r.slash then some directory
    else
      match directory, r.names.getLast? with
      | .ok l, some name =>
        match w.tree.get? (l ++ [name]) with
        | some (.link target) =>
          let next := Route.ofText target
          slashedEnd w links (if next.absolute then [] else l) next
        | _ => none
      | _, _ => none

/-- Gives a file a content; a name that is vacant becomes a new file. A name with a slash behind it
    cannot be that of a file. -/
def store (w : World) (path : Text) (content : Bytes) : Except Refusal World := do
  let r := Route.ofText path
  r.admit
  match w.slashedEnd maxLinks (w.start r) r with
  | some (.error e) => throw (.errno e)
  | some (.ok _) => throw (.errno .isDirectory)
  | none =>
    match ← w.locate r with
    | .vacant directory name =>
      let node := Node.file (unmasked 0o666 w.umask) content
      return { w with tree := w.tree.insert (directory ++ [name]) node }
    | .node l =>
      match w.tree.get? l with
      | some (.file mode _) => return { w with tree := w.tree.insert l (.file mode content) }
      | _ => throw (.errno .isDirectory)

/-- The bit of a directory that new directories in it get too. -/
def groupBit : Nat := 0o2000

def makeDirectory (w : World) (r : Route) : Except Refusal World := do
  match ← w.entry r with
  | (_, none) => throw (.errno .alreadyExists)
  | (directory, some name) =>
    let l ← entryLocation directory name
    if (w.tree.get? l).isSome then throw (.errno .alreadyExists)
    let inherited := match w.tree.get? directory with
      | some (.directory mode) => mode &&& groupBit
      | _ => 0
    return { w with tree := w.tree.insert l (.directory (unmasked 0o777 w.umask ||| inherited)) }

def leadsSomewhere (w : World) (r : Route) : Bool := (w.stat r).isOk

/-- Makes a directory and those that lead to it, the last name first in the list. Those made before
    a failure stay. -/
def makeDirectoriesTo (w : World) (absolute : Bool) : List Text → Except Refusal Unit × World
  | [] => (.error (.errno (if absolute then .alreadyExists else .noEntry)), w)
  | name :: above =>
    let route (names : List Text) : Route :=
      ⟨(if absolute then ['/'] else []) ++ ['/'].intercalate names, absolute, names, false⟩
    let here := route (name :: above).reverse
    let make (w : World) : Except Refusal Unit × World :=
      match w.makeDirectory here with
      | .ok w' => (.ok (), w')
      | .error r => (.error r, w)
    if above = [] ∨ w.leadsSomewhere (route above.reverse) then make w
    else
      match makeDirectoriesTo w absolute above with
      | (.ok (), w') => if name = ['.'] then (.ok (), w') else make w'
      | (.error (.errno .alreadyExists), w') =>
        if name = ['.'] then (.ok (), w') else make w'
      | (.error r, w') => (.error r, w')

def makeDirectories (w : World) (path : Text) : Except Refusal Unit × World :=
  let r := Route.ofText path
  makeDirectoriesTo w r.absolute r.names.reverse

def symlink (w : World) (target path : Text) : Except Refusal World := do
  let r := Route.ofText path
  if '\x00' ∈ target then throw .nulInPath
  if '\x00' ∈ path then throw .nulInPath
  if target = [] then throw (.errno .noEntry)
  if maxPath ≤ Text.Utf8.size target then throw (.errno .nameTooLong)
  match ← w.entry r with
  | (_, none) => throw (.errno .alreadyExists)
  | (directory, some name) =>
    let l ← entryLocation directory name
    if (w.tree.get? l).isSome then throw (.errno .alreadyExists)
    if r.slash then throw (.errno .noEntry)
    return { w with tree := w.tree.insert l (.link target) }

/-- Removes a directory with all that is in it, or anything else by itself. A directory named by `.`
    is emptied, but stays and is complained of. -/
def remove (w : World) (path : Text) : Except Refusal Unit × World :=
  let r := Route.ofText path
  match w.entry r with
  | .error refusal => (.error refusal, w)
  | .ok (directory, none) =>
    let emptied := if r.names.getLast? = some ['.'] then w.tree.eraseBelow directory else w.tree
    (.error (.errno .invalid), { w with tree := emptied })
  | .ok (directory, some name) =>
    match entryLocation directory name with
    | .error refusal => (.error refusal, w)
    | .ok l =>
      match w.tree.get? l with
      | none => (.error (.errno .noEntry), w)
      | some (.directory _) => (.ok (), { w with tree := (w.tree.eraseBelow l).erase l })
      | some _ =>
        if r.slash then (.error (.errno .notDirectory), w)
        else (.ok (), { w with tree := w.tree.erase l })

def changeMode (w : World) (path : Text) (mode : Nat) : Except Refusal World :=
  w.chmod (Route.ofText path) mode

def setUmask (w : World) (umask : Nat) : World := { w with umask := umask &&& 0o777 }

end NodeGen.World
