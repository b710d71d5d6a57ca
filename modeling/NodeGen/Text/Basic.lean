/-
  NodeGen.Text.Basic — text as a list of characters, rows of a file, decimal and hexadecimal digits.
-/

namespace NodeGen

/-- Text is read and written one character at a time; a `String` is only its outer form. -/
abbrev Text := List Char

instance : LawfulBEq Text := inferInstance

namespace Text

/-- Rows put under each other: a line break between two rows, none after the last. -/
def rows (rs : List Text) : Text := ['\n'].intercalate rs

def ofNat (n : Nat) : Text := Nat.toDigits 10 n

def hexDigit (n : Nat) : Char := Nat.digitChar (n % 16)

/-- The low `width` hexadecimal digits of a number, leading zeros kept. -/
def hex : Nat → Nat → Text
  | 0, _ => []
  | width + 1, n => hex width (n / 16) ++ [hexDigit n]

@[simp] theorem hex_length (width n : Nat) : (hex width n).length = width := by
  induction width generalizing n with
  | zero => rfl
  | succ w ih => simp [hex, ih]

def hexValue (c : Char) : Option Nat :=
  if '0' ≤ c ∧ c ≤ '9' then some (c.toNat - '0'.toNat)
  else if 'a' ≤ c ∧ c ≤ 'f' then some (c.toNat - 'a'.toNat + 10)
  else if 'A' ≤ c ∧ c ≤ 'F' then some (c.toNat - 'A'.toNat + 10)
  else none

theorem hexValue_hexDigit (n : Nat) : hexValue (hexDigit n) = some (n % 16) := by
  have h : ∀ k < 16, hexValue (Nat.digitChar k) = some k := by decide
  exact h _ (Nat.mod_lt _ (by decide))

end Text

end NodeGen
