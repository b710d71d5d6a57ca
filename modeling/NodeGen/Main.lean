/-
  NodeGen.Main — the program: plays the command's script on the real file system.

  The runtime tells no permission bits: a file that exists is taken to have those of a new one.
-/

import NodeGen.Command.Run

namespace NodeGen.Main

/-- The cause of a failed call, by the number that the system gives it; some calls answer with the
    number's opposite. -/
def errnoOf (code : UInt32) (words : String) : Errno :=
  match code.toInt32.toInt.natAbs with
  | 2 => .noEntry
  | 16 => .busy
  | 17 => .alreadyExists
  | 20 => .notDirectory
  | 21 => .isDirectory
  | 22 => .invalid
  | 36 => .nameTooLong
  | 39 => .notEmpty
  | 40 => .linkLoop
  | n => .other n words.toList

def refusalOf : IO.Error → Refusal
  | .alreadyExists _ code words => .errno (errnoOf code words)
  | .otherError code words => .errno (errnoOf code words)
  | .resourceBusy code words => .errno (errnoOf code words)
  | .resourceVanished code words => .errno (errnoOf code words)
  | .unsupportedOperation code words => .errno (errnoOf code words)
  | .hardwareFault code words => .errno (errnoOf code words)
  | .unsatisfiedConstraints code words => .errno (errnoOf code words)
  | .illegalOperation code words => .errno (errnoOf code words)
  | .protocolError code words => .errno (errnoOf code words)
  | .timeExpired code words => .errno (errnoOf code words)
  | .interrupted _ code words => .errno (errnoOf code words)
  | .noFileOrDirectory _ code words => .errno (errnoOf code words)
  | .invalidArgument _ code words => .errno (errnoOf code words)
  | .permissionDenied _ code words => .errno (errnoOf code words)
  | .resourceExhausted _ code words => .errno (errnoOf code words)
  | .inappropriateType _ code words => .errno (errnoOf code words)
  | .noSuchThing _ code words => .errno (errnoOf code words)
  | .unexpectedEof => .errno (.other 0 "end of file".toList)
  | .userError words => .errno (.other 0 words.toList)

/-- Makes a call with the text of a path, unless a NUL in it forbids that. -/
def withPath {α : Type} (p : Path) (act : String → IO α) : IO (Except Refusal α) := do
  if '\x00' ∈ p.toText then return .error .nulInPath
  match ← (act (String.ofList p.toText)).toBaseIO with
  | .ok a => return .ok a
  | .error e => return .error (refusalOf e)

def accessOf (bits : Nat) : IO.AccessRight :=
  ⟨bits &&& 4 ≠ 0, bits &&& 2 ≠ 0, bits &&& 1 ≠ 0⟩

def rightsOf (mode : Nat) : IO.FileRight :=
  ⟨accessOf (mode / 64), accessOf (mode / 8), accessOf mode⟩

/-- The umask, as the process's status tells it. -/
def readUmask : IO Nat := do
  let status ← IO.FS.readFile "/proc/self/status"
  match (status.toList.splitOn '\n').find? fun row => "Umask:".toList.isPrefixOf row with
  | some row => return (row.filter Char.isDigit).foldl (fun n c => 8 * n + (c.toNat - 48)) 0
  | none => return 0o022

def perform : {α : Type} → Call α → IO α
  | _, .draw => do
    let bytes ← IO.getRandomBytes 8
    return Suffix.ofNat (bytes.toList.foldl (fun n b => 256 * n + b.toNat) 0)
  | _, .workingDirectory => do
    let cwd ← IO.currentDir
    return (cwd.toString.toList.splitOn '/').filter (· ≠ [])
  | _, .umask => readUmask
  | _, .stat p => withPath p fun path => do
    let file := (← IO.currentDir) / path
    let _ ← file.metadata
    return unmasked 0o666 (← readUmask)
  | _, .read p => withPath p fun path => do return (← IO.FS.readBinFile path).toList
  | _, .create p => withPath p fun path => do
    let _ ← IO.FS.Handle.mk path .writeNew
    IO.setAccessRights path (rightsOf privateMode)
  | _, .write p content => withPath p fun path =>
    IO.FS.writeBinFile path (ByteArray.mk content.toArray)
  | _, .chmod p mode => withPath p fun path => IO.setAccessRights path (rightsOf mode)
  | _, .rename old new => do
    if '\x00' ∈ new.toText then return .error .nulInPath
    withPath old fun path => IO.FS.rename path (String.ofList new.toText)
  | _, .unlink p => withPath p fun path => IO.FS.removeFile path

def play {α : Type} : Script α → IO α
  | .done a => return a
  | .call c next => do play (next (← perform c))

end NodeGen.Main

open NodeGen in
def main (arguments : List String) : IO UInt32 := do
  let outcome ← Main.play (Command.invoke (arguments.map String.toList))
  (← IO.getStdout).putStr (String.ofList (outcome.on .output))
  (← IO.getStderr).putStr (String.ofList (outcome.on .error))
  match outcome.ending with
  | .exit code => return UInt32.ofNat code
  | .abort cause => do
    IO.eprintln (String.ofList cause.message)
    return 1
