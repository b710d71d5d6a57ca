/-
  NodeGen.Json.Fault — why a text is no JSON, and where in the text that shows.
-/

import NodeGen.Json.Letters

namespace NodeGen.Json

inductive Problem where
  | value
  | propertyName
  | colon
  | comma
  | controlCharacter
  | unterminatedString
  | escape
  | unicodeEscape
  | extraData
  | byteOrderMark
  deriving DecidableEq, Repr

def Problem.message : Problem → Text
  | .value => "Expecting value".toList
  | .propertyName => "Expecting property name enclosed in double quotes".toList
  | .colon => "Expecting ':' delimiter".toList
  | .comma => "Expecting ',' delimiter".toList
  | .controlCharacter => "Invalid control character at".toList
  | .unterminatedString => "Unterminated string starting at".toList
  | .escape => "Invalid \\escape".toList
  | .unicodeEscape => "Invalid \\uXXXX escape".toList
  | .extraData => "Extra data".toList
  | .byteOrderMark => "Unexpected UTF-8 BOM (decode using utf-8-sig)".toList

/-- The place of a fault is given by the text from there on. -/
inductive Fault where
  | malformed (problem : Problem) (rest : Text)
  | repeatedKey (key : Letters)
  | oversizedInteger (digits : Nat)
  deriving DecidableEq, Repr

/-- A place in a text: line and column, both counted from one. Only a line feed ends a line. -/
structure Place where
  line : Nat
  column : Nat
  deriving DecidableEq, Repr

def Place.after (before : Text) : Place :=
  ⟨before.count '\n' + 1, (before.reverse.takeWhile (· ≠ '\n')).length + 1⟩

/-- The place in a text at which `rest` is what is left of it. -/
def Place.of (whole rest : Text) : Place := .after (whole.take (whole.length - rest.length))

end NodeGen.Json
