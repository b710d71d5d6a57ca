/-
  NodeGen.Json.Reader — reading one JSON text.

  Every reader takes the text that is left and gives what it read and the text left after it. The
  numbers `NaN`, `Infinity` and `-Infinity` are read too. A rule set may forbid long integers and
  repeated keys; both are noticed in the order of reading, a repeated key where its object closes.
-/

import NodeGen.Json.Fault
import NodeGen.Json.Value

namespace NodeGen.Json

structure Rules where
  /-- The most digits of an integer. -/
  maxDigits : Option Nat
  distinctKeys : Bool

namespace Reader

def fail {α : Type} (problem : Problem) (rest : Text) : Except Fault α :=
  .error (.malformed problem rest)

def isSpace (c : Char) : Bool := c = ' ' ∨ c = '\t' ∨ c = '\n' ∨ c = '\r'

def skip (t : Text) : Text := t.dropWhile isSpace

/-! ## Strings -/

def simpleEscape : Char → Option Char
  | '"' => some '"'
  | '\\' => some '\\'
  | '/' => some '/'
  | 'b' => some '\x08'
  | 'f' => some '\x0c'
  | 'n' => some '\n'
  | 'r' => some '\r'
  | 't' => some '\t'
  | _ => none

def hexFour (a b c d : Char) : Option Nat := do
  let a ← Text.hexValue a
  let b ← Text.hexValue b
  let c ← Text.hexValue c
  let d ← Text.hexValue d
  return 4096 * a + 256 * b + 16 * c + d

def joinSurrogates (high low : Nat) : Char :=
  Char.ofNat (0x10000 + 1024 * (high - 0xD800) + (low - 0xDC00))

def unitLetter (n : Nat) : Letter :=
  if half : isHighSurrogate n = true ∨ isLowSurrogate n = true then .lone ⟨n, half⟩ else .char (Char.ofNat n)

/-- What follows the code unit `n`, a high surrogate: the escape of a low surrogate makes a pair with
    it, and anything else is left to be read by itself. -/
def secondUnit (n : Nat) (t : Text) : Except Fault (Letter × Text) :=
  match t with
  | '\\' :: 'u' :: a :: b :: c :: d :: e :: rest =>
    match hexFour a b c d with
    | none => fail .unicodeEscape t.tail
    | some m => if isLowSurrogate m then .ok (.char (joinSurrogates n m), e :: rest) else .ok (unitLetter n, t)
  | _ => .ok (unitLetter n, t)

/-- The escape whose digits start the text. The four digits need a character after them. -/
def unicodeEscape (t : Text) : Except Fault (Letter × Text) :=
  match t with
  | a :: b :: c :: d :: e :: rest =>
    match hexFour a b c d with
    | none => fail .unicodeEscape ('u' :: t)
    | some n => if isHighSurrogate n then secondUnit n (e :: rest) else .ok (unitLetter n, e :: rest)
  | _ => fail .unicodeEscape ('u' :: t)

inductive Piece where
  | letter (letter : Letter) (rest : Text)
  | close (rest : Text)

/-- The next piece of a string; `opening` is the text from its opening quote on. -/
def piece (opening t : Text) : Except Fault Piece :=
  match t with
  | [] => fail .unterminatedString opening
  | '"' :: rest => .ok (.close rest)
  | '\\' :: [] => fail .unterminatedString opening
  | '\\' :: 'u' :: rest => (unicodeEscape rest).map fun (letter, rest) => .letter letter rest
  | '\\' :: letter :: rest =>
    match simpleEscape letter with
    | none => fail .escape t
    | some c => .ok (.letter (.char c) rest)
  | c :: rest => if c.toNat < 0x20 then fail .controlCharacter t else .ok (.letter (.char c) rest)

def pieces (opening : Text) : Nat → Text → Except Fault (Letters × Text)
  | 0, _ => fail .unterminatedString opening
  | fuel + 1, t => do
    match ← piece opening t with
    | .close rest => return ([], rest)
    | .letter letter rest => do
      let (s, rest) ← pieces opening fuel rest
      return (letter :: s, rest)

/-- A string whose opening quote is in front of the text. -/
def string (inside : Text) : Except Fault (Letters × Text) :=
  pieces ('"' :: inside) (inside.length + 1) inside

/-! ## Numbers -/

/-- The digits before a point: a single zero, or digits that do not start with one. -/
def wholePart : Text → Option (Text × Text)
  | [] => none
  | c :: rest =>
    if c = '0' then some (['0'], rest)
    else if c.isDigit then some (c :: rest.takeWhile Char.isDigit, rest.dropWhile Char.isDigit)
    else none

def fraction : Text → Text × Text
  | '.' :: rest =>
    if rest.takeWhile Char.isDigit = [] then ([], '.' :: rest)
    else ('.' :: rest.takeWhile Char.isDigit, rest.dropWhile Char.isDigit)
  | t => ([], t)

def sign : Text → Text × Text
  | '+' :: rest => (['+'], rest)
  | '-' :: rest => (['-'], rest)
  | t => ([], t)

def exponent : Text → Text × Text
  | [] => ([], [])
  | c :: rest =>
    let (s, after) := sign rest
    if (c = 'e' ∨ c = 'E') ∧ after.takeWhile Char.isDigit ≠ [] then
      (c :: s ++ after.takeWhile Char.isDigit, after.dropWhile Char.isDigit)
    else ([], c :: rest)

/-- A number as it is written, as far as it goes. -/
def number (rules : Rules) (t : Text) : Except Fault (Json × Text) :=
  let (minus, unsigned) := match t with
    | '-' :: rest => (['-'], rest)
    | t => ([], t)
  match wholePart unsigned with
  | none => fail .value t
  | some (whole, rest) =>
    let (frac, rest) := fraction rest
    let (exp, rest) := exponent rest
    if frac = [] ∧ exp = [] ∧ rules.maxDigits.any (· < whole.length) then
      .error (.oversizedInteger whole.length)
    else .ok (.number (minus ++ whole ++ frac ++ exp), rest)

/-! ## Values -/

def words : List (Text × Json) :=
  [("null".toList, .null), ("true".toList, .bool true), ("false".toList, .bool false),
    ("NaN".toList, .number "NaN".toList), ("Infinity".toList, .number "Infinity".toList),
    ("-Infinity".toList, .number "-Infinity".toList)]

def scalar (rules : Rules) (t : Text) : Except Fault (Json × Text) :=
  match words.find? fun w => w.1.isPrefixOf t with
  | some (word, value) => .ok (value, t.drop word.length)
  | none => number rules t

/-- One item or more, with commas between them, up to the closing character. The text is at the
    start of an item. -/
def items {α : Type} (close : Char) (item : Text → Except Fault (α × Text)) :
    Nat → Text → Except Fault (List α × Text)
  | 0, t => fail .value t
  | fuel + 1, t => do
    let (a, rest) ← item t
    match skip rest with
    | [] => fail .comma []
    | c :: rest =>
      if c = close then return ([a], rest)
      else if c = ',' then do
        let (as, rest) ← items close item fuel (skip rest)
        return (a :: as, rest)
      else fail .comma (c :: rest)

def enclosed {α : Type} (close : Char) (item : Text → Except Fault (α × Text)) (t : Text) :
    Except Fault (List α × Text) :=
  match skip t with
  | [] => items close item 1 []
  | c :: rest =>
    if c = close then .ok ([], rest) else items close item (rest.length + 1) (c :: rest)

def member (value : Text → Except Fault (Json × Text)) :
    Text → Except Fault ((Letters × Json) × Text)
  | '"' :: inside => do
    let (key, rest) ← string inside
    match skip rest with
    | ':' :: rest => do
      let (v, rest) ← value (skip rest)
      return ((key, v), rest)
    | rest => fail .colon rest
  | t => fail .propertyName t

/-- An object of the members read, unless the rules forbid that a key comes twice. -/
def closeObject (rules : Rules) (members : List (Letters × Json)) : Except Fault Json :=
  match if rules.distinctKeys then repeatedKey [] members else none with
  | none => .ok (.object members)
  | some key => .error (.repeatedKey key)

/-- A value at the start of the text, at most `depth` arrays and objects deep. -/
def value (rules : Rules) : Nat → Text → Except Fault (Json × Text)
  | 0, t => fail .value t
  | depth + 1, t =>
    match t with
    | '"' :: inside => do
      let (s, rest) ← string inside
      return (.string s, rest)
    | '[' :: inside => do
      let (vs, rest) ← enclosed ']' (value rules depth) inside
      return (.array vs, rest)
    | '\x7b' :: inside => do
      let (ms, rest) ← enclosed '\x7d' (member (value rules depth)) inside
      return (← closeObject rules ms, rest)
    | t => scalar rules t

end Reader

open Reader in
def read (rules : Rules) (t : Text) : Except Fault Json :=
  if t.head? = some '\uFEFF' then fail .byteOrderMark t
  else do
    let (v, rest) ← value rules (t.length + 1) (skip t)
    match skip rest with
    | [] => return v
    | rest => fail .extraData rest

end NodeGen.Json
