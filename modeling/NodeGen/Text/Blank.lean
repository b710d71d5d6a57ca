/-
  NodeGen.Text.Blank — the blank characters, trimming, and cutting a text at its first blank run.
  A blank is a character of the White_Space property, or one of the four separators U+001C to U+001F.
-/

import NodeGen.Text.Ranges

namespace NodeGen.Text

/-- The blanks: White_Space of Unicode 14 and the separators U+001C to U+001F. -/
def blanks : Ranges :=
  [(0x9, 0xD), (0x1C, 0x20), (0x85, 0x85), (0xA0, 0xA0), (0x1680, 0x1680), (0x2000, 0x200A),
   (0x2028, 0x2029), (0x202F, 0x202F), (0x205F, 0x205F), (0x3000, 0x3000)]

def isBlank (c : Char) : Bool := blanks.has c.toNat

def trimLeft (t : Text) : Text := t.dropWhile isBlank

def trimRight : Text → Text
  | [] => []
  | c :: rest =>
    match trimRight rest with
    | [] => if isBlank c then [] else [c]
    | kept => c :: kept

def trim (t : Text) : Text := trimRight (trimLeft t)

/-- The text before its first blank run and the text after that run; nothing if it holds no blank. -/
def cutBlank (t : Text) : Option (Text × Text) :=
  match t.dropWhile (!isBlank ·) with
  | [] => none
  | after => some (t.takeWhile (!isBlank ·), trimLeft after)

end NodeGen.Text
