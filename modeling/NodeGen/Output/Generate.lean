/-
  NodeGen.Output.Generate — one table to one file, for callers that have the lines at hand.
-/

import NodeGen.Descriptor.Parser
import NodeGen.Output.Stage

namespace NodeGen

inductive GenerateError where
  | rejected (fault : Fault)
  | unknownTarget (name : Text)
  | refused (r : Refusal)
  deriving DecidableEq, Repr

/-- The output that a table asks for: its lines are judged before the name of the target. -/
def Output.ofTable (directory : Path) (base : Text) (lines : List Text) (target package : Text) :
    Except GenerateError Output := do
  let d ← (Descriptor.parse base lines).mapError .rejected
  match Target.ofName? target with
  | none => throw (.unknownTarget target)
  | some target => return ⟨Path.output directory target d.base, target.render package d⟩

def generate (directory : Path) (base : Text) (lines : List Text) (target package : Text) :
    Script (Except GenerateError Path) := do
  match Output.ofTable directory base lines target package with
  | .error e => return .error e
  | .ok o =>
    match ← Stage.write o with
    | .ok () => return .ok o.path
    | .error r => return .error (.refused r)

end NodeGen
