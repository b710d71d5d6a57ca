/-
  NodeGen.Proofs.Quoting — what a quoted literal stands for.

  `Literal` says it without regard to how the literal was made: the same mark stands at both ends, and
  the inside is made of characters written one by one (`Written`). None of them is the bare mark or a
  bare line end, and a backslash never stands without what it escapes. A quoted text is a literal that
  stands for the text (`literal_encode`) and for nothing else (`Literal.decode_eq`), so quoting loses
  nothing (`encode_injective`). All its characters are printable (`isPrintable_encode`), so it is one line.
-/

import Mathlib.Algebra.Group.Nat.Defs
import NodeGen.Text.Quoted

namespace NodeGen.Text.Quoted

variable {q c : Char} {width : Nat} {piece digits s t lit : Text}

/-! ## Hexadecimal digits -/

theorem hexNumber_hex (width n : Nat) : hexNumber (hex width n) = some (n % 16 ^ width) := by
  unfold hexNumber
  induction width generalizing n with
  | zero => simp [hex, Nat.mod_one]
  | succ width ih =>
    rw [hex, List.foldl_append, ih]
    simp only [List.foldl_cons, List.foldl_nil, Option.bind_some, hexValue_hexDigit, Option.map_some]
    rw [Nat.pow_succ', Nat.mod_mul]
    congr 1
    omega

/-- Digits that give the number of a character are read as the character. -/
theorem hexChar_append (hlength : digits.length = width) (hnumber : hexNumber digits = some c.toNat) (rest : Text) :
    hexChar width (digits ++ rest) = some (c, rest) := by
  subst hlength
  unfold hexChar
  rw [if_pos (by rw [List.length_append]; omega), List.take_left, List.drop_left, hnumber]
  simp

/-! ## One character -/

def letters : List (Char × Char) := [('n', '\n'), ('r', '\r'), ('t', '\t')]

/-- The escapes by the number of a character, with how many digits follow the letter. -/
def codes : List (Char × Nat) := [('x', 2), ('u', 4), ('U', 8)]

/-- The ways to write a character between two quote marks. A literal may be written in other ways as well;
    those that have no rule here are not used. -/
inductive Written (q : Char) : Text → Char → Prop
  | bare {c : Char} : c ≠ q → c ≠ '\\' → c ≠ '\n' → c ≠ '\r' → Written q [c] c
  | itself {c : Char} : c = '\\' ∨ c = '\'' ∨ c = '"' → Written q ['\\', c] c
  | letter {x c : Char} : (x, c) ∈ letters → Written q ['\\', x] c
  | code {x c : Char} {width : Nat} {digits : Text} : (x, width) ∈ codes → digits.length = width →
      hexNumber digits = some c.toNat → Written q ('\\' :: x :: digits) c

theorem written_escape (hq : q = '\'' ∨ q = '"') (c : Char) : Written q (escape q c) c := by
  have hvalid : c.toNat < 0xD800 ∨ (0xDFFF < c.toNat ∧ c.toNat < 0x110000) := c.valid
  have hnumber : ∀ width, c.toNat < 16 ^ width → hexNumber (hex width c.toNat) = some c.toNat := by
    intro width hlt
    rw [hexNumber_hex, Nat.mod_eq_of_lt hlt]
  unfold escape
  by_cases hmark : c = q ∨ c = '\\'
  · rw [if_pos hmark]
    refine .itself ?_
    rcases hmark with rfl | rfl
    · exact Or.inr hq
    · exact Or.inl rfl
  rw [if_neg hmark]
  obtain ⟨hcq, hslash⟩ := not_or.mp hmark
  by_cases hn : c = '\n'
  · rw [if_pos hn, hn]
    exact .letter (by decide)
  by_cases hr : c = '\r'
  · rw [if_neg hn, if_pos hr, hr]
    exact .letter (by decide)
  by_cases ht : c = '\t'
  · rw [if_neg hn, if_neg hr, if_pos ht, ht]
    exact .letter (by decide)
  rw [if_neg hn, if_neg hr, if_neg ht]
  by_cases hp : isPrintable c = true
  · rw [if_pos hp]
    exact .bare hcq hslash hn hr
  rw [if_neg hp]
  by_cases h2 : c.toNat < 0x100
  · rw [if_pos h2]
    exact .code (by decide) (hex_length 2 _) (hnumber 2 (by omega))
  rw [if_neg h2]
  by_cases h4 : c.toNat < 0x10000
  · rw [if_pos h4]
    exact .code (by decide) (hex_length 4 _) (hnumber 4 (by omega))
  · rw [if_neg h4]
    exact .code (by decide) (hex_length 8 _) (hnumber 8 (by omega))

theorem unescape_bare (hq : c ≠ q) (hs : c ≠ '\\') (hn : c ≠ '\n') (hr : c ≠ '\r') (rest : Text) :
    unescape q (c :: rest) = some (c, rest) := by
  unfold unescape
  split <;> simp_all

/-- However a character is written, it is read back. -/
theorem Written.unescape_append (h : Written q piece c) (rest : Text) : unescape q (piece ++ rest) = some (c, rest) := by
  cases h with
  | bare hq hs hn hr => exact unescape_bare hq hs hn hr rest
  | itself hc => rcases hc with rfl | rfl | rfl <;> rfl
  | @letter x c hx =>
    have hcases : (x = 'n' ∧ c = '\n') ∨ (x = 'r' ∧ c = '\r') ∨ (x = 't' ∧ c = '\t') := by
      simpa [letters] using hx
    rcases hcases with ⟨rfl, rfl⟩ | ⟨rfl, rfl⟩ | ⟨rfl, rfl⟩ <;> rfl
  | @code x c width digits hx hlength hnumber =>
    have hcases : (x = 'x' ∧ width = 2) ∨ (x = 'u' ∧ width = 4) ∨ (x = 'U' ∧ width = 8) := by
      simpa [codes] using hx
    rcases hcases with ⟨rfl, rfl⟩ | ⟨rfl, rfl⟩ | ⟨rfl, rfl⟩ <;> exact hexChar_append hlength hnumber rest

/-- No character starts with the bare mark, so none is taken for the end of the literal. -/
theorem Written.append_ne (h : Written q piece c) (hq : q = '\'' ∨ q = '"') (rest : Text) : piece ++ rest ≠ [q] := by
  have hslash : '\\' ≠ q := by rcases hq with rfl | rfl <;> decide
  intro he
  cases h with
  | bare hc => exact hc (List.cons.inj he).1
  | itself => exact hslash (List.cons.inj he).1
  | letter => exact hslash (List.cons.inj he).1
  | code => exact hslash (List.cons.inj he).1

theorem Written.length_pos (h : Written q piece c) : 0 < piece.length := by
  cases h <;> simp

/-! ## A whole literal -/

inductive Inside (q : Char) : Text → Text → Prop
  | nil : Inside q [] []
  | cons {piece s t : Text} {c : Char} : Written q piece c → Inside q s t → Inside q (piece ++ s) (c :: t)

def Literal (lit t : Text) : Prop :=
  ∃ q inside, (q = '\'' ∨ q = '"') ∧ lit = q :: (inside ++ [q]) ∧ Inside q inside t

theorem inside_escaped (hq : q = '\'' ∨ q = '"') (t : Text) : Inside q (t.flatMap (escape q)) t := by
  induction t with
  | nil => exact .nil
  | cons c t ih =>
    rw [List.flatMap_cons]
    exact .cons (written_escape hq c) ih

theorem mark_eq (t : Text) : mark t = '\'' ∨ mark t = '"' := by
  unfold mark
  split
  · exact Or.inr rfl
  · exact Or.inl rfl

/-- A quoted text is a literal that stands for the text. -/
theorem literal_encode (t : Text) : Literal (encode t) t :=
  ⟨mark t, _, mark_eq t, rfl, inside_escaped (mark_eq t) t⟩

theorem Inside.length_le (h : Inside q s t) : t.length ≤ s.length := by
  induction h with
  | nil => exact Nat.le_refl 0
  | cons hc _ ih =>
    have hpos := hc.length_pos
    rw [List.length_append, List.length_cons]
    omega

theorem Inside.decode_eq (h : Inside q s t) (hq : q = '\'' ∨ q = '"') {fuel : Nat} (hfuel : t.length < fuel) :
    decodeInside q fuel (s ++ [q]) = some t := by
  induction h generalizing fuel with
  | nil =>
    cases fuel with
    | zero => cases hfuel
    | succ fuel => simp [decodeInside]
  | cons hc _ ih =>
    cases fuel with
    | zero => cases hfuel
    | succ fuel =>
      have hrest := ih (by simpa using hfuel)
      rw [List.append_assoc, decodeInside, if_neg (hc.append_ne hq _), hc.unescape_append]
      simp [hrest]

/-- A literal stands for one text only, the one that it is read as. -/
theorem Literal.decode_eq (h : Literal lit t) : decode lit = some t := by
  obtain ⟨q, inside, hq, rfl, hinside⟩ := h
  have hlength := hinside.length_le
  rw [decode, if_pos hq]
  exact hinside.decode_eq hq (by rw [List.length_append]; omega)

theorem decode_encode (t : Text) : decode (encode t) = some t := (literal_encode t).decode_eq

theorem literal_encode_iff {a : Text} : Literal (encode a) t ↔ t = a := by
  constructor
  · intro h
    have hd := h.decode_eq
    rw [decode_encode] at hd
    exact (Option.some.inj hd).symm
  · intro h
    rw [h]
    exact literal_encode a

theorem encode_injective {a b : Text} (h : encode a = encode b) : a = b :=
  literal_encode_iff.mp (h ▸ literal_encode a)

/-! ## Printable characters -/

theorem isPrintable_hexDigit (n : Nat) : isPrintable (hexDigit n) = true := by
  have h : ∀ k < 16, isPrintable (Nat.digitChar k) = true := by decide
  exact h _ (Nat.mod_lt _ (by decide))

theorem isPrintable_hex (n : Nat) (hc : c ∈ hex width n) : isPrintable c = true := by
  induction width generalizing n with
  | zero => cases hc
  | succ width ih =>
    rcases List.mem_append.mp hc with hc | hc
    · exact ih _ hc
    · rw [List.mem_singleton.mp hc]
      exact isPrintable_hexDigit n

theorem isPrintable_escape (hq : q = '\'' ∨ q = '"') {d : Char} (hd : d ∈ escape q c) : isPrintable d = true := by
  have hcode : ∀ letter width, isPrintable letter = true → d ∈ '\\' :: letter :: hex width c.toNat →
      isPrintable d = true := by
    intro letter width hletter hd
    rcases List.mem_cons.mp hd with rfl | hd
    · decide
    rcases List.mem_cons.mp hd with rfl | hd
    · exact hletter
    · exact isPrintable_hex _ hd
  have hshort : ∀ letter, isPrintable letter = true → d ∈ ['\\', letter] → isPrintable d = true :=
    fun letter hletter hd => hcode letter 0 hletter hd
  unfold escape at hd
  split at hd
  · rename_i hmark
    refine hshort c ?_ hd
    rcases hmark with rfl | rfl
    · rcases hq with rfl | rfl <;> decide
    · decide
  split at hd
  · exact hshort 'n' (by decide) hd
  split at hd
  · exact hshort 'r' (by decide) hd
  split at hd
  · exact hshort 't' (by decide) hd
  split at hd
  · rename_i hp
    exact List.mem_singleton.mp hd ▸ hp
  split at hd
  · exact hcode 'x' 2 (by decide) hd
  split at hd
  · exact hcode 'u' 4 (by decide) hd
  · exact hcode 'U' 8 (by decide) hd

/-- All characters of a quoted text are printable, whatever the text holds. -/
theorem isPrintable_encode (hc : c ∈ encode t) : isPrintable c = true := by
  have hmark : isPrintable (mark t) = true := by rcases mark_eq t with h | h <;> (rw [h]; decide)
  rcases List.mem_cons.mp hc with rfl | hc
  · exact hmark
  rcases List.mem_append.mp hc with hc | hc
  · obtain ⟨d, -, hc⟩ := List.mem_flatMap.mp hc
    exact isPrintable_escape (mark_eq t) hc
  · exact List.mem_singleton.mp hc ▸ hmark

/-- A quoted text is one line. -/
theorem not_mem_encode (t : Text) : '\n' ∉ encode t ∧ '\r' ∉ encode t :=
  ⟨fun h => absurd (isPrintable_encode h) (by decide), fun h => absurd (isPrintable_encode h) (by decide)⟩

end NodeGen.Text.Quoted
