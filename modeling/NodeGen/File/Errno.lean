/-
  NodeGen.File.Errno — why the file system refuses a call.
-/

import NodeGen.Text.Basic

namespace NodeGen

inductive Errno where
  | noEntry
  | notDirectory
  | isDirectory
  | alreadyExists
  | linkLoop
  | nameTooLong
  | notEmpty
  | busy
  | invalid
  /-- Any other cause, by the number that the system gives it and its words. -/
  | other (code : Nat) (words : Text)
  deriving DecidableEq, Repr

def Errno.message : Errno → Text
  | .noEntry => "No such file or directory".toList
  | .notDirectory => "Not a directory".toList
  | .isDirectory => "Is a directory".toList
  | .alreadyExists => "File exists".toList
  | .linkLoop => "Too many levels of symbolic links".toList
  | .nameTooLong => "File name too long".toList
  | .notEmpty => "Directory not empty".toList
  | .busy => "Device or resource busy".toList
  | .invalid => "Invalid argument".toList
  | .other _ words => words

/-- A call that did not happen: the system refused it, or its path holds a NUL and never reached
    the system. -/
inductive Refusal where
  | errno (e : Errno)
  | nulInPath
  deriving DecidableEq, Repr

def Refusal.message : Refusal → Text
  | .errno e => e.message
  | .nulInPath => "embedded null byte".toList

end NodeGen
