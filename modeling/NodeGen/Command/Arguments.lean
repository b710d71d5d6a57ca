/-
  NodeGen.Command.Arguments — from the arguments of the command line to settings.

  First every argument is classified by itself, up to a separator; then the arguments are consumed
  from left to right. Options and the directory may come in any order, a later value replaces an
  earlier one, and an option may be shortened as long as it stays the only one so spelled.

  Releases of the library that reads command lines differ in two corners: a separator that an equals
  sign attaches to an option (`--package=--`), and letters attached to `-h` (`-hx`, `-h=h`, `-hh=`).
  `assign` and `haltAtLetters` follow the earlier releases, in which the first is no value and the
  second ask for help as long as all of them are `h`.
-/

import NodeGen.Command.Usage
import NodeGen.Text.Decimal

namespace NodeGen.Command

structure Settings where
  directory : Text
  /-- The grammar file; none is named by an empty name, and the builtin grammar is meant then. -/
  grammar : Text
  /-- Nothing if the separator was attached to the option in place of a target. -/
  target : Option Target
  package : Text
  check : Bool
  deriving DecidableEq, Repr

inductive Halt where
  | help
  | misuse (m : Misuse)
  deriving DecidableEq, Repr

/-! ## Classification -/

inductive Token where
  | operand (t : Text)
  | separator
  | option (flag : Flag) (value : Option Text)
  /-- Letters attached to the short form of an option. -/
  | letters (rest : Text)
  /-- An argument that looks like an option, but is none. -/
  | unknown (t : Text)
  deriving DecidableEq, Repr

/-- An integer or a decimal fraction behind a minus sign; one line feed may follow it. -/
def isNegativeNumber : Text → Bool
  | '-' :: t =>
    let body := if t.getLast? = some '\n' then t.dropLast else t
    match body.dropWhile Text.isDecimal with
    | [] => body ≠ []
    | '.' :: fraction => fraction ≠ [] && fraction.all Text.isDecimal
    | _ => false
  | _ => false

def cutValue (t : Text) : Text × Option Text :=
  match t.dropWhile (· ≠ '=') with
  | [] => (t, none)
  | _ :: value => (t.takeWhile (· ≠ '='), some value)

def classifyRest (t : Text) : Token :=
  if isNegativeNumber t || ' ' ∈ t then .operand t else .unknown t

def classifyDashed (t : Text) : Except Misuse Token :=
  let (name, value) := cutValue t
  match Flag.all.find? fun flag => flag.long = name with
  | some flag => .ok (.option flag value)
  | none =>
    if t = shortHelp then .ok (.option .help none)
    else if name = shortHelp then .ok (.letters (value.getD []))
    else if separator.isPrefixOf t then
      match Flag.all.filter fun flag => name.isPrefixOf flag.long with
      | [] => .ok (classifyRest t)
      | [flag] => .ok (.option flag value)
      | flags => .error (.ambiguous t flags)
    else if shortHelp.isPrefixOf t then .ok (.letters (t.drop shortHelp.length))
    else .ok (classifyRest t)

def classify (t : Text) : Except Misuse Token :=
  if t.head? = some '-' ∧ t ≠ ['-'] then classifyDashed t else .ok (.operand t)

def tokens : List Text → Except Misuse (List Token)
  | [] => .ok []
  | t :: rest =>
    if t = separator then .ok (.separator :: rest.map .operand)
    else do
      let token ← classify t
      let more ← tokens rest
      return token :: more

/-! ## Consumption -/

structure Progress where
  directory : Option Text
  grammar : Text
  target : Option Target
  package : Text
  check : Bool
  /-- Arguments that no one asked for. -/
  extras : List Text

def Progress.initial : Progress := ⟨none, [], some .java, "lox".toList, false, []⟩

/-- Gives an option its value. The separator, which only an equals sign can attach, is no value: it
    leaves the option blank, and a blank package is written as an empty pair of brackets. -/
def assign (p : Progress) (flag : Flag) (value : Text) : Except Halt Progress :=
  match flag with
  | .grammar => .ok { p with grammar := if value = separator then [] else value }
  | .package => .ok { p with package := if value = separator then ['[', ']'] else value }
  | .lang =>
    if value = separator then .ok { p with target := none }
    else
      match Target.ofName? value with
      | some target => .ok { p with target := some target }
      | none => .error (.misuse (.unknownTarget value))
  | flag => .error (.misuse (.ignoredValue flag value))

/-- Letters behind the short form of help: as long as they repeat it they ask for help. -/
def haltAtLetters : Text → Halt
  | ['h'] => .help
  | 'h' :: c :: rest => haltAtLetters (c :: rest)
  | rest => .misuse (.ignoredValue .help rest)

/-- Consumes tokens from left to right. The first operand is the directory, and takes a separator
    with it on either side. -/
def consume (p : Progress) : List Token → Except Halt Progress
  | [] => .ok p
  | .operand t :: rest =>
    match p.directory with
    | some _ => consume { p with extras := p.extras ++ [t] } rest
    | none =>
      match rest with
      | .separator :: rest => consume { p with directory := some t } rest
      | rest => consume { p with directory := some t } rest
  | .separator :: rest =>
    match p.directory, rest with
    | none, .operand t :: rest => consume { p with directory := some t } rest
    | _, rest => consume { p with extras := p.extras ++ [Command.separator] } rest
  | .unknown t :: rest => consume { p with extras := p.extras ++ [t] } rest
  | .letters letters :: _ => .error (haltAtLetters letters)
  | .option flag (some value) :: rest => do consume (← assign p flag value) rest
  | .option .help none :: _ => .error .help
  | .option .check none :: rest => consume { p with check := true } rest
  | .option flag none :: rest =>
    match rest with
    | .operand value :: rest => do consume (← assign p flag value) rest
    | _ => .error (.misuse (.missingValue flag))

def finish (p : Progress) : Except Halt Settings :=
  match p.directory, p.extras with
  | none, _ => .error (.misuse .missingDirectory)
  | some directory, [] => .ok ⟨directory, p.grammar, p.target, p.package, p.check⟩
  | some _, extras => .error (.misuse (.unrecognized extras))

def parse (arguments : List Text) : Except Halt Settings :=
  match tokens arguments with
  | .error m => .error (.misuse m)
  | .ok ts => consume .initial ts >>= finish

end NodeGen.Command
