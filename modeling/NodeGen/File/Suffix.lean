/-
  NodeGen.File.Suffix — the random part of a temporary file's name: eight letters, digits and low
  lines.
-/

import NodeGen.Text.Basic

namespace NodeGen

def suffixAlphabet : Text := "abcdefghijklmnopqrstuvwxyz0123456789_".toList

structure Suffix where
  text : Text
  length : text.length = 8
  letters : ∀ c ∈ text, c ∈ suffixAlphabet

namespace Suffix

def letter (n : Nat) : Char :=
  suffixAlphabet.get ⟨n % 37, Nat.lt_of_lt_of_eq (Nat.mod_lt n (by decide)) (by decide)⟩

def digits : Nat → Nat → Text
  | 0, _ => []
  | k + 1, n => letter n :: digits k (n / 37)

def ofNat (n : Nat) : Suffix where
  text := digits 8 n
  length := rfl
  letters := by
    intro c hc
    have h : ∀ k n, ∀ c ∈ digits k n, c ∈ suffixAlphabet := by
      intro k
      induction k with
      | zero => intro n c hc; simp [digits] at hc
      | succ k ih =>
        intro n c hc
        rcases List.mem_cons.mp hc with rfl | hc
        · exact List.get_mem _ _
        · exact ih _ c hc
    exact h 8 n c hc

end Suffix

end NodeGen
