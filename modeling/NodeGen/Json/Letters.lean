/-
  NodeGen.Json.Letters — the strings of JSON values.

  An escape stands for a code unit of UTF-16, so a string may hold a surrogate that is no half of a
  pair. Such a string is no text: no text has a letter for it, and UTF-8 has no bytes for it.
-/

import NodeGen.Text.Basic

namespace NodeGen.Json

def isHighSurrogate (n : Nat) : Bool := 0xD800 ≤ n ∧ n ≤ 0xDBFF

def isLowSurrogate (n : Nat) : Bool := 0xDC00 ≤ n ∧ n ≤ 0xDFFF

structure Surrogate where
  unit : Nat
  half : isHighSurrogate unit = true ∨ isLowSurrogate unit = true
  deriving DecidableEq, Repr

inductive Letter where
  | char (c : Char)
  /-- Outside of a pair. -/
  | lone (half : Surrogate)
  deriving DecidableEq, Repr

abbrev Letters := List Letter

def Letter.char? : Letter → Option Char
  | .char c => some c
  | .lone _ => none

/-- A letter as it is shown to a user, a surrogate by its escape. -/
def Letter.shown : Letter → Text
  | .char c => [c]
  | .lone half => '\\' :: 'u' :: Text.hex 4 half.unit

namespace Letters

def ofText (t : Text) : Letters := t.map .char

def text? (s : Letters) : Option Text := s.mapM Letter.char?

def shown (s : Letters) : Text := s.flatMap Letter.shown

end Letters

end NodeGen.Json
