/-
  NodeGen.Output.Stage — writing files so that each appears whole or not at all.

  `stage` writes a text to a temporary file beside its destination and gives it the mode it will
  keep; `commit` renames it into place. Each removes the temporary file if it fails. `writeAll`
  stages every output before it commits the first one, and removes what it staged and could not
  commit.
-/

import NodeGen.File.Script
import NodeGen.Output.Report

namespace NodeGen

structure Output where
  path : Path
  text : Text
  deriving DecidableEq, Repr

structure Staged where
  temporary : Path
  path : Path
  deriving DecidableEq, Repr

namespace Stage

def temporaryName (name suffix : Text) : Text :=
  ['.'] ++ name ++ ['.'] ++ suffix ++ ".tmp".toList

def maxAttempts : Nat := 238328

/-- A new empty file in a directory. A name that is taken is passed over for another one. -/
def createTemporary (directory : Path) (name : Text) : Nat → Script (Except Refusal Path)
  | 0 => return .error (.errno .alreadyExists)
  | attempts + 1 => do
    let suffix ← Script.ask .draw
    let temporary := directory.child (temporaryName name suffix.text)
    match ← Script.ask (.create temporary) with
    | .ok () => return .ok temporary
    | .error (.errno .alreadyExists) => createTemporary directory name attempts
    | .error r => return .error r

/-- Removes a temporary file; one that is gone already is no failure. -/
def discard (temporary : Path) : Script (Except Refusal Unit) := do
  match ← Script.ask (.unlink temporary) with
  | .error (.errno .noEntry) => return .ok ()
  | answer => return answer

/-- A failure after the removal of the temporary file; if even that fails, its failure. -/
def failAfterDiscard {α : Type} (temporary : Path) (r : Refusal) : Script (Except Refusal α) := do
  match ← discard temporary with
  | .ok () => return .error r
  | .error r' => return .error r'

/-- The mode of a file that is written anew: that of the old file, or that of a new one. -/
def outputMode (p : Path) : Script (Except Refusal Nat) := do
  match ← Script.ask (.stat p) with
  | .error (.errno .noEntry) => return .ok (unmasked 0o666 (← Script.ask .umask))
  | answer => return answer

def fill (temporary : Path) (o : Output) : Script (Except Refusal Unit) := do
  match ← Script.ask (.write temporary (Text.Utf8.encode o.text)) with
  | .error r => return .error r
  | .ok () =>
    match ← outputMode o.path with
    | .error r => return .error r
    | .ok mode => Script.ask (.chmod temporary mode)

def stageWithin (attempts : Nat) (o : Output) : Script (Except Refusal Path) := do
  let cwd ← Script.ask .workingDirectory
  match ← createTemporary (o.path.parent.absolute cwd) o.path.name attempts with
  | .error r => return .error r
  | .ok temporary =>
    match ← fill temporary o with
    | .ok () => return .ok temporary
    | .error r => failAfterDiscard temporary r

/-- Writes a text to a temporary file beside its destination. -/
def stage (o : Output) : Script (Except Refusal Path) := stageWithin maxAttempts o

def commit (s : Staged) : Script (Except Refusal Unit) := do
  match ← Script.ask (.rename s.temporary s.path) with
  | .ok () => return .ok ()
  | .error r => failAfterDiscard s.temporary r

def write (o : Output) : Script (Except Refusal Unit) := do
  match ← stage o with
  | .error r => return .error r
  | .ok temporary => commit ⟨temporary, o.path⟩

structure Stop where
  path : Path
  refusal : Refusal
  deriving DecidableEq, Repr

def stageAll : List Output → Script (List Staged × Option Stop)
  | [] => return ([], none)
  | o :: rest => do
    match ← stage o with
    | .error r => return ([], some ⟨o.path, r⟩)
    | .ok temporary => do
      let (staged, stop) ← stageAll rest
      return (⟨temporary, o.path⟩ :: staged, stop)

/-- Commits in order, up to the first failure: the paths that were replaced, what is left staged,
    and the failure. -/
def commitAll : List Staged → Script (List Path × List Staged × Option Stop)
  | [] => return ([], [], none)
  | s :: rest => do
    match ← commit s with
    | .error r => return ([], rest, some ⟨s.path, r⟩)
    | .ok () => do
      let (done, left, stop) ← commitAll rest
      return (s.path :: done, left, stop)

/-- Removes what was staged, up to the first failure. -/
def discardAll : List Staged → Script (Except Refusal Unit)
  | [] => return .ok ()
  | s :: rest => do
    match ← discard s.temporary with
    | .ok () => discardAll rest
    | .error r => return .error r

def stopped (reports : List Report) (stop : Stop) : Outcome :=
  match stop.refusal with
  | .errno e => ⟨reports ++ [.unwritable stop.path e], .exit 1⟩
  | .nulInPath => ⟨reports, .abort (.refused .nulInPath)⟩

/-- Ends work that a failure stopped by removing what is still staged. -/
def cleanUp (o : Outcome) (staged : List Staged) : Script Outcome := do
  match ← discardAll staged with
  | .ok () => return o
  | .error r => return { o with ending := .abort (.refused r) }

/-- Writes all outputs: every one is staged before the first is committed. -/
def writeAll (outputs : List Output) : Script Outcome := do
  match ← stageAll outputs with
  | (staged, some stop) => cleanUp (stopped [] stop) staged
  | (staged, none) =>
    match ← commitAll staged with
    | (done, left, some stop) => cleanUp (stopped (done.map .generated) stop) left
    | (done, _, none) => return ⟨done.map .generated, .exit 0⟩

end Stage

end NodeGen
