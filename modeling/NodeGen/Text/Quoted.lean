/-
  NodeGen.Text.Quoted — a text as a quoted literal on one line, and the reading of such a literal.

  `encode` picks the single quote unless the text holds a single quote and no double quote. The quote
  and the backslash are escaped by a backslash, the three common controls by a letter, and every
  other character that is not printable by its code in two, four or eight hexadecimal digits.
  `decode` is the reader: it accepts any escape of these forms, needed or not.
-/

import NodeGen.Text.Printable

namespace NodeGen.Text.Quoted

def mark (t : Text) : Char := if '\'' ∈ t ∧ '"' ∉ t then '"' else '\''

def escape (q c : Char) : Text :=
  if c = q ∨ c = '\\' then ['\\', c]
  else if c = '\n' then ['\\', 'n']
  else if c = '\r' then ['\\', 'r']
  else if c = '\t' then ['\\', 't']
  else if isPrintable c then [c]
  else if c.toNat < 0x100 then '\\' :: 'x' :: hex 2 c.toNat
  else if c.toNat < 0x10000 then '\\' :: 'u' :: hex 4 c.toNat
  else '\\' :: 'U' :: hex 8 c.toNat

def encode (t : Text) : Text := mark t :: (t.flatMap (escape (mark t)) ++ [mark t])

def hexNumber (digits : Text) : Option Nat :=
  digits.foldl (fun acc c => acc.bind fun n => (hexValue c).map (16 * n + ·)) (some 0)

def hexChar (width : Nat) (t : Text) : Option (Char × Text) :=
  if width ≤ t.length then (hexNumber (t.take width)).map fun n => (Char.ofNat n, t.drop width)
  else none

/-- One character of a literal's inside, with the text after it. A bare quote mark, a bare line
    break and a backslash before an unknown letter are refused. -/
def unescape (q : Char) : Text → Option (Char × Text)
  | [] => none
  | '\\' :: [] => none
  | '\\' :: 'n' :: rest => some ('\n', rest)
  | '\\' :: 'r' :: rest => some ('\r', rest)
  | '\\' :: 't' :: rest => some ('\t', rest)
  | '\\' :: 'x' :: rest => hexChar 2 rest
  | '\\' :: 'u' :: rest => hexChar 4 rest
  | '\\' :: 'U' :: rest => hexChar 8 rest
  | '\\' :: c :: rest => if c = '\\' ∨ c = '\'' ∨ c = '"' then some (c, rest) else none
  | c :: rest => if c = q ∨ c = '\n' ∨ c = '\r' then none else some (c, rest)

def decodeInside (q : Char) : Nat → Text → Option Text
  | 0, _ => none
  | fuel + 1, t =>
    if t = [q] then some []
    else do
      let (c, rest) ← unescape q t
      let cs ← decodeInside q fuel rest
      return c :: cs

def decode : Text → Option Text
  | [] => none
  | q :: rest => if q = '\'' ∨ q = '"' then decodeInside q (rest.length + 1) rest else none

end NodeGen.Text.Quoted
