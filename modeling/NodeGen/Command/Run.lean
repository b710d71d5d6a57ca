/-
  NodeGen.Command.Run — what the command does: it reads the grammar, judges every table, and writes
  or checks one output for each.
-/

import NodeGen.Command.Arguments
import NodeGen.Descriptor.Parser
import NodeGen.Output.Check

namespace NodeGen

inductive LoadError where
  | unreadable (r : Refusal)
  | flawed (p : Path) (flaw : Grammar.Flaw)
  | oversizedInteger (digits : Nat)
  deriving DecidableEq, Repr

def Grammar.load (p : Path) : Script (Except LoadError Grammar) := do
  match ← Script.ask (.read p) with
  | .error r => return .error (.unreadable r)
  | .ok bytes =>
    match Grammar.ofBytes bytes with
    | .ok g => return .ok g
    | .error (.flawed flaw) => return .error (.flawed p flaw)
    | .error (.oversizedInteger digits) => return .error (.oversizedInteger digits)

namespace Command

def loadFailed (name : Text) : LoadError → Outcome
  | .unreadable (.errno e) => ⟨[.noGrammar name e], .exit 1⟩
  | .unreadable .nulInPath => ⟨[], .abort (.refused .nulInPath)⟩
  | .flawed p flaw => ⟨[.rejected (flaw.message p) none], .exit 1⟩
  | .oversizedInteger digits => ⟨[], .abort (.oversizedInteger digits)⟩

def output (directory : Path) (target : Target) (package : Text) (d : Descriptor) : Output :=
  ⟨directory.output target d.base, target.render package d⟩

/-- Writes or checks the outputs of a grammar. Every table is judged before any file is touched. -/
def runGrammar (s : Settings) (g : Grammar) : Script Outcome :=
  match Descriptor.parseGrammar g with
  | .error fault => return ⟨[.rejected fault.message fault.line], .exit 1⟩
  | .ok descriptors =>
    match s.target with
    | none => return ⟨[], .abort .noTarget⟩
    | some target =>
      let outputs := descriptors.map (output (Path.ofText s.directory) target s.package)
      if s.check then Check.checkAll outputs else Stage.writeAll outputs

def run (s : Settings) : Script Outcome :=
  if s.grammar = [] then runGrammar s Grammar.builtin
  else do
    match ← Grammar.load (Path.ofText s.grammar) with
    | .ok g => runGrammar s g
    | .error e => return loadFailed s.grammar e

def misuseCode : Nat := 64

/-- The whole command, from its arguments on. -/
def invoke (arguments : List Text) : Script Outcome :=
  match parse arguments with
  | .ok s => run s
  | .error .help => return ⟨[.help helpText], .exit 0⟩
  | .error (.misuse m) => return ⟨[.usage m.text], .exit misuseCode⟩

end Command

end NodeGen
