/-
  NodeGen.Text.Utf8 — text as bytes, and the strict reading of bytes with a diagnosis.

  `encode` writes each character in its shortest form. `decode` reads exactly such bytes. Where it
  refuses, the fault names the offset at which the broken sequence starts, how far the sequence was
  sound, and what is wrong: a byte that starts no sequence, a byte that cannot continue one, or the
  end of the bytes inside one.
-/

import NodeGen.Text.Basic

namespace NodeGen.Text

abbrev Bytes := List UInt8

namespace Utf8

def encode (t : Text) : Bytes := t.flatMap String.utf8EncodeChar

def size (t : Text) : Nat := (encode t).length

inductive Problem
  | startByte
  | continuationByte
  | endOfData
  deriving DecidableEq, Repr

/-- A sequence that is no character: the offset of its first byte, that byte, the offset after the
    last byte that belongs to it, and the problem found there. -/
structure Fault where
  start : Nat
  first : UInt8
  stop : Nat
  problem : Problem
  deriving DecidableEq, Repr

def Problem.message : Problem → Text
  | .startByte => "invalid start byte".toList
  | .continuationByte => "invalid continuation byte".toList
  | .endOfData => "unexpected end of data".toList

/-- One byte is named by its value, several by the offsets of the first and the last. -/
def Fault.message (f : Fault) : Text :=
  "'utf-8' codec can't decode ".toList ++
    (if f.stop = f.start + 1 then
      "byte 0x".toList ++ hex 2 f.first.toNat ++ " in position ".toList ++ ofNat f.start
    else
      "bytes in position ".toList ++ ofNat f.start ++ ['-'] ++ ofNat (f.stop - 1)) ++
    ": ".toList ++ f.problem.message

def tail : Nat × Nat := (0x80, 0xBF)

/-- What a first byte announces: its share of the code point, and the bounds of each byte that must
    follow. The bounds of the second byte leave out overlong forms, surrogates and code points past
    the last one. -/
def announce (b : UInt8) : Option (Nat × List (Nat × Nat)) :=
  let n := b.toNat
  if n < 0x80 then some (n, [])
  else if n < 0xC2 then none
  else if n < 0xE0 then some (n - 0xC0, [tail])
  else if n < 0xF0 then
    some (n - 0xE0, [(if n = 0xE0 then 0xA0 else 0x80, if n = 0xED then 0x9F else 0xBF), tail])
  else if n < 0xF5 then
    some (n - 0xF0, [(if n = 0xF0 then 0x90 else 0x80, if n = 0xF4 then 0x8F else 0xBF), tail, tail])
  else none

structure Pending where
  start : Nat
  first : UInt8
  code : Nat
  /-- The bounds of the bytes still to come. -/
  due : List (Nat × Nat)

/-- Reads the bytes from offset `pos` on, inside the sequence `o` while bytes of it are due. -/
def decodeFrom (pos : Nat) (o : Pending) : Bytes → Except Fault Text
  | [] => if o.due = [] then .ok [] else .error ⟨o.start, o.first, pos, .endOfData⟩
  | b :: rest =>
    match o.due with
    | [] =>
      match announce b with
      | none => .error ⟨pos, b, pos + 1, .startByte⟩
      | some (bits, []) => (Char.ofNat bits :: ·) <$> decodeFrom (pos + 1) ⟨pos, b, 0, []⟩ rest
      | some (bits, due) => decodeFrom (pos + 1) ⟨pos, b, bits, due⟩ rest
    | (lo, hi) :: due =>
      if lo ≤ b.toNat ∧ b.toNat ≤ hi then
        let code := 64 * o.code + (b.toNat - 0x80)
        if due = [] then (Char.ofNat code :: ·) <$> decodeFrom (pos + 1) { o with due := [] } rest
        else decodeFrom (pos + 1) { o with code := code, due := due } rest
      else .error ⟨o.start, o.first, pos, .continuationByte⟩

def decode (bytes : Bytes) : Except Fault Text := decodeFrom 0 ⟨0, 0, 0, []⟩ bytes

end Utf8

end NodeGen.Text
