/-
  NodeGen.Grammar.File — a grammar: tables of descriptor lines, each under the name of its base type;
  and the JSON file that holds one.

  The names and lines of a grammar are texts. The strings of a file need not be, for an escape may
  stand for a surrogate outside of a pair. A program that goes on with such strings has letters that no
  file can be written with; here a file that is a grammar but for such a string is turned down
  (`Flaw.notTexts`), after all that a file is refused for.
-/

import NodeGen.File.Path
import NodeGen.Json.Reader
import NodeGen.Text.Utf8

namespace NodeGen

open Text (Bytes)

abbrev Grammar := List (Text × List Text)

namespace Grammar

def builtin : Grammar :=
  [("Expr".toList,
    ["Binary   : Expr left, Token operator, Expr right".toList,
      "Grouping : Expr expression".toList,
      "Literal  : Object value".toList,
      "Unary    : Token operator, Expr right".toList])]

inductive Flaw where
  | notUtf8 (fault : Text.Utf8.Fault)
  | notJson (place : Json.Place) (problem : Json.Problem)
  | repeatedBase (name : Json.Letters)
  | notAnObject
  | notLines (base : Json.Letters)
  /-- A surrogate stands outside of a pair. -/
  | notTexts
  deriving DecidableEq, Repr

def repeatedBaseMessage (name : Text) : Text := "duplicate base name '".toList ++ name ++ ['\'']

/-- A flaw in words, in front of them the file's path and, for broken syntax, the place in it. -/
def Flaw.message (path : Path) : Flaw → Text
  | .notUtf8 fault => path.toText ++ ": not valid UTF-8: ".toList ++ fault.message
  | .notJson place problem =>
    path.toText ++ [':'] ++ Text.ofNat place.line ++ [':'] ++ Text.ofNat place.column ++
      ": invalid JSON: ".toList ++ problem.message
  | .repeatedBase name => path.toText ++ ": ".toList ++ repeatedBaseMessage (Json.Letters.shown name)
  | .notAnObject =>
    path.toText ++ ": expected an object mapping base names to descriptor lists".toList
  | .notLines base =>
    path.toText ++ ": '".toList ++ Json.Letters.shown base ++ "' must map to a list of descriptor strings".toList
  | .notTexts => path.toText ++ ": surrogates not allowed".toList

/-- A file that yields no grammar. An integer too long to be read is not reported as a flaw of the
    file: it stops the program. -/
inductive Failure where
  | flawed (flaw : Flaw)
  | oversizedInteger (digits : Nat)
  deriving DecidableEq, Repr

def maxDigits : Nat := 4300

def rules : Json.Rules := ⟨some maxDigits, true⟩

def oversizedMessage (digits : Nat) : Text :=
  "Exceeds the limit (".toList ++ Text.ofNat maxDigits ++
    " digits) for integer string conversion: value has ".toList ++ Text.ofNat digits ++
    " digits; use sys.set_int_max_str_digits() to increase the limit".toList

def tables : List (Json.Letters × Json) → Except Flaw (List (Json.Letters × List Json.Letters))
  | [] => .ok []
  | (base, value) :: rest =>
    match value.strings? with
    | none => .error (.notLines base)
    | some lines => ((base, lines) :: ·) <$> tables rest

def ofTables? (tables : List (Json.Letters × List Json.Letters)) : Option Grammar :=
  tables.mapM fun (base, lines) => do
    return (← Json.Letters.text? base, ← lines.mapM Json.Letters.text?)

def ofJson : Json → Except Flaw Grammar
  | .object (m :: members) => do
    match ofTables? (← tables (m :: members)) with
    | some g => .ok g
    | none => .error .notTexts
  | _ => .error .notAnObject

def ofText (t : Text) : Except Failure Grammar :=
  match Json.read rules t with
  | .ok value => (ofJson value).mapError .flawed
  | .error (.malformed problem rest) => .error (.flawed (.notJson (.of t rest) problem))
  | .error (.repeatedKey key) => .error (.flawed (.repeatedBase key))
  | .error (.oversizedInteger digits) => .error (.oversizedInteger digits)

def ofBytes (bytes : Bytes) : Except Failure Grammar :=
  match Text.Utf8.decode bytes with
  | .ok t => ofText t
  | .error fault => .error (.flawed (.notUtf8 fault))

end Grammar

end NodeGen
