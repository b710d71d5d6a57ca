/-
  NodeGen.Output.Report — what a run tells its user, and how it ends.
-/

import NodeGen.Descriptor.Fault
import NodeGen.File.Errno
import NodeGen.Grammar.File
import NodeGen.Text.Quoted

namespace NodeGen

inductive ReadProblem where
  | refused (e : Errno)
  | notUtf8 (fault : Text.Utf8.Fault)
  deriving DecidableEq, Repr

def ReadProblem.message : ReadProblem → Text
  | .refused e => e.message
  | .notUtf8 fault => fault.message

inductive Stream where
  | output
  | error
  deriving DecidableEq, Repr

inductive Report where
  | generated (p : Path)
  | upToDate (p : Path)
  | missing (p : Path)
  | outOfDate (p : Path)
  | unreadable (p : Path) (problem : ReadProblem)
  | unwritable (p : Path) (e : Errno)
  /-- The grammar file, named as on the command line, could not be read. -/
  | noGrammar (name : Text) (e : Errno)
  /-- A grammar that is refused: the reason, and the line at fault if there is one. -/
  | rejected (reason : Text) (line : Option Text)
  | help (t : Text)
  | usage (t : Text)
  deriving DecidableEq, Repr

namespace Report

def stream : Report → Stream
  | .generated _ => .output
  | .upToDate _ => .output
  | .help _ => .output
  | _ => .error

/-- The text of a report, with the line feed that ends it. A line at fault is shown as a literal, so
    that nothing in it can break the report's line. -/
def text : Report → Text
  | .generated p => "generated: ".toList ++ p.toText ++ ['\n']
  | .upToDate p => "up-to-date: ".toList ++ p.toText ++ ['\n']
  | .missing p => p.toText ++ " is missing (run generator)\n".toList
  | .outOfDate p => p.toText ++ " is out of date (run generator)\n".toList
  | .unreadable p problem =>
    "error: cannot read ".toList ++ p.toText ++ ": ".toList ++ problem.message ++ ['\n']
  | .unwritable p e =>
    "error: cannot write ".toList ++ p.toText ++ ": ".toList ++ e.message ++ ['\n']
  | .noGrammar name e =>
    "error: cannot read grammar file ".toList ++ name ++ ": ".toList ++ e.message ++ ['\n']
  | .rejected reason none => "error: ".toList ++ reason ++ ['\n']
  | .rejected reason (some line) =>
    "error: ".toList ++ reason ++ " in ".toList ++ Text.Quoted.encode line ++ ['\n']
  | .help t => t
  | .usage t => t

end Report

/-- A cause that no report is made of: it ends the run where it arises. -/
inductive Abort where
  | refused (r : Refusal)
  | oversizedInteger (digits : Nat)
  /-- The value given for the target was the separator `--`, which is no value. -/
  | noTarget
  deriving DecidableEq, Repr

def Abort.message : Abort → Text
  | .refused r => r.message
  | .oversizedInteger digits => Grammar.oversizedMessage digits
  | .noTarget => "unhashable type: 'list'".toList

inductive Ending where
  | exit (code : Nat)
  | abort (cause : Abort)
  deriving DecidableEq, Repr

structure Outcome where
  reports : List Report
  ending : Ending
  deriving DecidableEq, Repr

def Outcome.on (o : Outcome) (s : Stream) : Text :=
  (o.reports.filter (·.stream = s)).flatMap Report.text

end NodeGen
