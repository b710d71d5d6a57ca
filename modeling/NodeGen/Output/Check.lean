/-
  NodeGen.Output.Check — comparing outputs with the files that stand in their places. Nothing is
  written.

  A file is read as text, line ends of all kinds as line feeds; the expected text is taken as it is.
  A path that leads nowhere is missing; a path that the system will not even look at stops the check.
-/

import NodeGen.Output.Stage
import NodeGen.Text.Newline

namespace NodeGen.Check

/-- Whether a refused look at a path means that nothing is there. -/
def meansAbsent : Refusal → Bool
  | .errno .noEntry => true
  | .errno .notDirectory => true
  | .errno .linkLoop => true
  | .nulInPath => true
  | _ => false

def verdict (o : Output) (content : Text.Bytes) : Report :=
  match Text.Utf8.decode content with
  | .error fault => .unreadable o.path (.notUtf8 fault)
  | .ok t => if Text.unifyNewlines t = o.text then .upToDate o.path else .outOfDate o.path

def checkOne (o : Output) : Script (Except Refusal Report) := do
  match ← Script.ask (.stat o.path) with
  | .error r => return if meansAbsent r then .ok (.missing o.path) else .error r
  | .ok _ =>
    match ← Script.ask (.read o.path) with
    | .ok content => return .ok (verdict o content)
    | .error (.errno e) => return .ok (.unreadable o.path (.refused e))
    | .error .nulInPath => return .error .nulInPath

def exitCode (reports : List Report) : Nat := if reports.all (·.stream = .output) then 0 else 1

/-- Checks outputs in order, after the reports made so far. -/
def checkFrom (reports : List Report) : List Output → Script Outcome
  | [] => return ⟨reports, .exit (exitCode reports)⟩
  | o :: rest => do
    match ← checkOne o with
    | .ok report => checkFrom (reports ++ [report]) rest
    | .error r => return ⟨reports, .abort (.refused r)⟩

def checkAll (outputs : List Output) : Script Outcome := checkFrom [] outputs

end NodeGen.Check
