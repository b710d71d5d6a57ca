/-
  NodeGen.Proofs.Encoding — a text written as bytes is read back as that text, and no other bytes are
  read as it.

  The reader takes the bytes of one character at a time (`decodeFrom_char`): the first byte announces
  as many more as the writer puts behind it, and each of them lies within the bounds that are due.
  Back from a text to its bytes (`exists_char_of_decodeFrom`), the same bounds leave the writer's form
  as the only one.
-/

import NodeGen.Text.Utf8

namespace NodeGen.Text.Utf8

variable {b b₁ b₂ b₃ : UInt8} {o : Pending} {pos n bits lo hi : Nat} {d : Nat × Nat} {due : List (Nat × Nat)}
  {bytes rest : Bytes} {t : Text}

/-! ## First bytes -/

theorem toNat_ofNat (h : n < 256) : (UInt8.ofNat n).toNat = n := by
  simp [UInt8.toNat_ofNat', Nat.mod_eq_of_lt h]

theorem announce_one (h : n < 0x80) : announce (UInt8.ofNat n) = some (n, []) := by
  simp only [announce, toNat_ofNat (show n < 256 by omega), if_pos h]

theorem announce_two (h : 0xC2 ≤ n) (h' : n < 0xE0) : announce (UInt8.ofNat n) = some (n - 0xC0, [tail]) := by
  simp only [announce, toNat_ofNat (show n < 256 by omega), if_neg (show ¬ n < 0x80 by omega),
    if_neg (show ¬ n < 0xC2 by omega), if_pos h']

theorem announce_three (h : 0xE0 ≤ n) (h' : n < 0xF0) :
    announce (UInt8.ofNat n) =
      some (n - 0xE0, [(if n = 0xE0 then 0xA0 else 0x80, if n = 0xED then 0x9F else 0xBF), tail]) := by
  simp only [announce, toNat_ofNat (show n < 256 by omega), if_neg (show ¬ n < 0x80 by omega),
    if_neg (show ¬ n < 0xC2 by omega), if_neg (show ¬ n < 0xE0 by omega), if_pos h']

theorem announce_four (h : 0xF0 ≤ n) (h' : n < 0xF5) :
    announce (UInt8.ofNat n) =
      some (n - 0xF0, [(if n = 0xF0 then 0x90 else 0x80, if n = 0xF4 then 0x8F else 0xBF), tail, tail]) := by
  simp only [announce, toNat_ofNat (show n < 256 by omega), if_neg (show ¬ n < 0x80 by omega),
    if_neg (show ¬ n < 0xC2 by omega), if_neg (show ¬ n < 0xE0 by omega),
    if_neg (show ¬ n < 0xF0 by omega), if_pos h']

/-! ## One byte -/

theorem decodeFrom_single (pos : Nat) (ho : o.due = []) (ha : announce b = some (bits, [])) (rest : Bytes) :
    decodeFrom pos o (b :: rest) = (Char.ofNat bits :: ·) <$> decodeFrom (pos + 1) ⟨pos, b, 0, []⟩ rest := by
  simp only [decodeFrom, ho, ha]

theorem decodeFrom_first (pos : Nat) (ho : o.due = []) (ha : announce b = some (bits, d :: due)) (rest : Bytes) :
    decodeFrom pos o (b :: rest) = decodeFrom (pos + 1) ⟨pos, b, bits, d :: due⟩ rest := by
  simp only [decodeFrom, ho, ha]

theorem decodeFrom_next (k : Nat) (ho : o.due = (lo, hi) :: d :: due) (hlo : lo ≤ k % 64 + 128)
    (hhi : k % 64 + 128 ≤ hi) (rest : Bytes) :
    decodeFrom pos o (UInt8.ofNat (k % 64 + 128) :: rest) =
      decodeFrom (pos + 1) { o with code := 64 * o.code + k % 64, due := d :: due } rest := by
  simp only [decodeFrom, ho, toNat_ofNat (show k % 64 + 128 < 256 by omega), if_pos (And.intro hlo hhi),
    Nat.add_sub_cancel]
  rfl

theorem decodeFrom_last (k : Nat) (ho : o.due = [(lo, hi)]) (hlo : lo ≤ k % 64 + 128)
    (hhi : k % 64 + 128 ≤ hi) (rest : Bytes) :
    decodeFrom pos o (UInt8.ofNat (k % 64 + 128) :: rest) =
      (Char.ofNat (64 * o.code + k % 64) :: ·) <$> decodeFrom (pos + 1) { o with due := [] } rest := by
  simp only [decodeFrom, ho, toNat_ofNat (show k % 64 + 128 < 256 by omega), if_pos (And.intro hlo hhi),
    Nat.add_sub_cancel]
  rfl

/-! ## One character, and a whole text -/

/-- Between two characters, the bytes of a character are read as that character. -/
theorem decodeFrom_char (pos : Nat) (c : Char) (ho : o.due = []) (rest : Bytes) :
    ∃ pos' o', o'.due = [] ∧
      decodeFrom pos o (String.utf8EncodeChar c ++ rest) = (c :: ·) <$> decodeFrom pos' o' rest := by
  have hvalid : c.val.toNat < 0xD800 ∨ (0xDFFF < c.val.toNat ∧ c.val.toNat < 0x110000) := c.valid
  have hself : ∀ v, v = c.val.toNat → Char.ofNat v = c := fun v h => by rw [h]; exact Char.ofNat_toNat c
  unfold String.utf8EncodeChar
  generalize c.val.toNat = v at hvalid hself
  simp only
  split
  · have h := decodeFrom_single pos ho (announce_one (n := v) (by omega)) rest
    rw [hself v rfl] at h
    exact ⟨_, _, by rfl, h⟩
  · split
    · have hfirst := announce_two (n := v / 64 % 32 + 192) (by omega) (by omega)
      have h := (decodeFrom_first pos ho hfirst _).trans
        (decodeFrom_last v rfl (by omega) (by omega) rest)
      rw [hself _ (by simp only; omega)] at h
      exact ⟨_, _, by rfl, h⟩
    · split
      · have hfirst := announce_three (n := v / 4096 % 16 + 224) (by omega) (by omega)
        have h := (decodeFrom_first pos ho hfirst _).trans
          ((decodeFrom_next (v / 64) rfl (by split <;> omega) (by split <;> omega) _).trans
            (decodeFrom_last v rfl (by omega) (by omega) rest))
        rw [hself _ (by simp only; omega)] at h
        exact ⟨_, _, by rfl, h⟩
      · have hfirst := announce_four (n := v / 262144 % 8 + 240) (by omega) (by omega)
        have h := (decodeFrom_first pos ho hfirst _).trans
          ((decodeFrom_next (v / 4096) rfl (by split <;> omega) (by split <;> omega) _).trans
            ((decodeFrom_next (v / 64) rfl (by omega) (by omega) _).trans
              (decodeFrom_last v rfl (by omega) (by omega) rest)))
        rw [hself _ (by simp only; omega)] at h
        exact ⟨_, _, by rfl, h⟩

theorem decodeFrom_encode (t : Text) (ho : o.due = []) : decodeFrom pos o (encode t) = .ok t := by
  induction t generalizing pos o with
  | nil => simp [encode, decodeFrom, ho]
  | cons c t ih =>
    obtain ⟨pos', o', ho', h⟩ := decodeFrom_char pos c ho (encode t)
    have hsplit : encode (c :: t) = String.utf8EncodeChar c ++ encode t := List.flatMap_cons
    rw [hsplit, h, ih ho']
    rfl

/-- Writing loses nothing. -/
theorem decode_encode (t : Text) : decode (encode t) = .ok t := decodeFrom_encode t rfl

/-! ## The bytes of a code point -/

theorem ofNat_eq (h : n = b.toNat) : UInt8.ofNat n = b := by
  rw [h]
  exact UInt8.ofNat_toNat

theorem toNat_char (h : n < 0xD800 ∨ (0xDFFF < n ∧ n < 0x110000)) : (Char.ofNat n).val.toNat = n := by
  have hvalid : n.isValidChar := h
  rw [Char.ofNat, dif_pos hvalid]
  rfl

theorem encodeChar_one (h : b.toNat < 0x80) : String.utf8EncodeChar (Char.ofNat b.toNat) = [b] := by
  simp only [String.utf8EncodeChar, toNat_char (show b.toNat < 0xD800 ∨ _ from Or.inl (by omega))]
  rw [if_pos (by omega), ofNat_eq rfl]

theorem encodeChar_two (h : 0xC2 ≤ b.toNat) (h' : b.toNat < 0xE0) (h₁ : 0x80 ≤ b₁.toNat) (h₁' : b₁.toNat ≤ 0xBF)
    (hn : n = 64 * (b.toNat - 0xC0) + (b₁.toNat - 0x80)) : String.utf8EncodeChar (Char.ofNat n) = [b, b₁] := by
  simp only [String.utf8EncodeChar, toNat_char (show n < 0xD800 ∨ _ from Or.inl (by omega))]
  rw [if_neg (by omega), if_pos (by omega), ofNat_eq (b := b) (by omega), ofNat_eq (b := b₁) (by omega)]

theorem encodeChar_three (h : 0xE0 ≤ b.toNat) (h' : b.toNat < 0xF0)
    (h₁ : (if b.toNat = 0xE0 then 0xA0 else 0x80) ≤ b₁.toNat)
    (h₁' : b₁.toNat ≤ if b.toNat = 0xED then 0x9F else 0xBF) (h₂ : 0x80 ≤ b₂.toNat) (h₂' : b₂.toNat ≤ 0xBF)
    (hn : n = 64 * (64 * (b.toNat - 0xE0) + (b₁.toNat - 0x80)) + (b₂.toNat - 0x80)) :
    String.utf8EncodeChar (Char.ofNat n) = [b, b₁, b₂] := by
  have hlo : 0x80 ≤ b₁.toNat ∧ (b.toNat = 0xE0 → 0xA0 ≤ b₁.toNat) := by split at h₁ <;> omega
  have hhi : b₁.toNat ≤ 0xBF ∧ (b.toNat = 0xED → b₁.toNat ≤ 0x9F) := by split at h₁' <;> omega
  clear h₁ h₁'
  simp only [String.utf8EncodeChar, toNat_char (show n < 0xD800 ∨ (0xDFFF < n ∧ n < 0x110000) by omega)]
  rw [if_neg (by omega), if_neg (by omega), if_pos (by omega), ofNat_eq (b := b) (by omega),
    ofNat_eq (b := b₁) (by omega), ofNat_eq (b := b₂) (by omega)]

theorem encodeChar_four (h : 0xF0 ≤ b.toNat) (h' : b.toNat < 0xF5)
    (h₁ : (if b.toNat = 0xF0 then 0x90 else 0x80) ≤ b₁.toNat)
    (h₁' : b₁.toNat ≤ if b.toNat = 0xF4 then 0x8F else 0xBF) (h₂ : 0x80 ≤ b₂.toNat) (h₂' : b₂.toNat ≤ 0xBF)
    (h₃ : 0x80 ≤ b₃.toNat) (h₃' : b₃.toNat ≤ 0xBF)
    (hn : n = 64 * (64 * (64 * (b.toNat - 0xF0) + (b₁.toNat - 0x80)) + (b₂.toNat - 0x80)) + (b₃.toNat - 0x80)) :
    String.utf8EncodeChar (Char.ofNat n) = [b, b₁, b₂, b₃] := by
  have hlo : 0x80 ≤ b₁.toNat ∧ (b.toNat = 0xF0 → 0x90 ≤ b₁.toNat) := by split at h₁ <;> omega
  have hhi : b₁.toNat ≤ 0xBF ∧ (b.toNat = 0xF4 → b₁.toNat ≤ 0x8F) := by split at h₁' <;> omega
  clear h₁ h₁'
  simp only [String.utf8EncodeChar, toNat_char (show n < 0xD800 ∨ (0xDFFF < n ∧ n < 0x110000) by omega)]
  rw [if_neg (by omega), if_neg (by omega), if_neg (by omega), ofNat_eq (b := b) (by omega),
    ofNat_eq (b := b₁) (by omega), ofNat_eq (b := b₂) (by omega), ofNat_eq (b := b₃) (by omega)]

/-! ## Reading a text -/

/-- A first byte, with its share of the code point and the bounds of the bytes due behind it. -/
theorem announce_cases {share : Nat × List (Nat × Nat)} (h : announce b = some share) :
    (b.toNat < 0x80 ∧ share = (b.toNat, [])) ∨
    (0xC2 ≤ b.toNat ∧ b.toNat < 0xE0 ∧ share = (b.toNat - 0xC0, [tail])) ∨
    (0xE0 ≤ b.toNat ∧ b.toNat < 0xF0 ∧ share = (b.toNat - 0xE0,
      [(if b.toNat = 0xE0 then 0xA0 else 0x80, if b.toNat = 0xED then 0x9F else 0xBF), tail])) ∨
    (0xF0 ≤ b.toNat ∧ b.toNat < 0xF5 ∧ share = (b.toNat - 0xF0,
      [(if b.toNat = 0xF0 then 0x90 else 0x80, if b.toNat = 0xF4 then 0x8F else 0xBF), tail, tail])) := by
  simp only [announce] at h
  split at h
  · exact Or.inl ⟨‹_›, (Option.some.inj h).symm⟩
  split at h
  · cases h
  split at h
  · exact Or.inr (Or.inl ⟨by omega, ‹_›, (Option.some.inj h).symm⟩)
  split at h
  · exact Or.inr (Or.inr (Or.inl ⟨by omega, ‹_›, (Option.some.inj h).symm⟩))
  split at h
  · exact Or.inr (Or.inr (Or.inr ⟨by omega, ‹_›, (Option.some.inj h).symm⟩))
  · cases h

/-- A text read from some bytes on: a character, and then what is read between two characters. -/
def ReadsOn (c : Char) (rest : Bytes) (t : Text) : Prop :=
  ∃ t' pos o, t = c :: t' ∧ o.due = [] ∧ decodeFrom pos o rest = .ok t'

theorem readsOn_of_map {c : Char} (ho : o.due = [])
    (h : (c :: ·) <$> decodeFrom pos o rest = .ok t) : ReadsOn c rest t := by
  cases hrest : decodeFrom pos o rest with
  | error fault => rw [hrest] at h; cases h
  | ok t' => rw [hrest] at h; exact ⟨t', pos, o, (Except.ok.inj h).symm, ho, hrest⟩

/-- A byte that is due comes, within its bounds. -/
theorem exists_of_due (ho : o.due = (lo, hi) :: due) (h : decodeFrom pos o bytes = .ok t) :
    ∃ b rest, bytes = b :: rest ∧ lo ≤ b.toNat ∧ b.toNat ≤ hi ∧
      if due = [] then ReadsOn (Char.ofNat (64 * o.code + (b.toNat - 0x80))) rest t
      else decodeFrom (pos + 1) { o with code := 64 * o.code + (b.toNat - 0x80), due := due } rest = .ok t := by
  cases bytes with
  | nil => simp [decodeFrom, ho] at h
  | cons b rest =>
    by_cases hb : lo ≤ b.toNat ∧ b.toNat ≤ hi
    · refine ⟨b, rest, rfl, hb.1, hb.2, ?_⟩
      simp only [decodeFrom, ho, if_pos hb] at h
      split
      · rename_i hdue
        rw [if_pos hdue] at h
        exact readsOn_of_map rfl h
      · rename_i hdue
        rwa [if_neg hdue] at h
    · simp only [decodeFrom, ho, if_neg hb] at h
      cases h

/-- Bytes that are read as a text start with those of its first character. -/
theorem exists_char_of_decodeFrom (ho : o.due = []) (h : decodeFrom pos o (b :: bytes) = .ok t) :
    ∃ c rest, b :: bytes = String.utf8EncodeChar c ++ rest ∧ ReadsOn c rest t := by
  cases ha : announce b with
  | none => simp [decodeFrom, ho, ha] at h
  | some share =>
    rcases announce_cases ha with ⟨hb, rfl⟩ | ⟨hlo, hhi, rfl⟩ | ⟨hlo, hhi, rfl⟩ | ⟨hlo, hhi, rfl⟩
    · rw [decodeFrom_single pos ho ha] at h
      exact ⟨_, bytes, by rw [encodeChar_one hb]; rfl, readsOn_of_map rfl h⟩
    · rw [decodeFrom_first pos ho ha] at h
      obtain ⟨b₁, rest, rfl, hlo₁, hhi₁, h⟩ := exists_of_due rfl h
      exact ⟨_, rest, by rw [encodeChar_two hlo hhi hlo₁ hhi₁ rfl]; rfl, h⟩
    · rw [decodeFrom_first pos ho ha] at h
      obtain ⟨b₁, rest, rfl, hlo₁, hhi₁, h⟩ := exists_of_due rfl h
      obtain ⟨b₂, rest, rfl, hlo₂, hhi₂, h⟩ := exists_of_due rfl h
      exact ⟨_, rest, by rw [encodeChar_three hlo hhi hlo₁ hhi₁ hlo₂ hhi₂ rfl]; rfl, h⟩
    · rw [decodeFrom_first pos ho ha] at h
      obtain ⟨b₁, rest, rfl, hlo₁, hhi₁, h⟩ := exists_of_due rfl h
      obtain ⟨b₂, rest, rfl, hlo₂, hhi₂, h⟩ := exists_of_due rfl h
      obtain ⟨b₃, rest, rfl, hlo₃, hhi₃, h⟩ := exists_of_due rfl h
      exact ⟨_, rest, by rw [encodeChar_four hlo hhi hlo₁ hhi₁ hlo₂ hhi₂ hlo₃ hhi₃ rfl]; rfl, h⟩

theorem eq_encode_of_decodeFrom (ho : o.due = []) (h : decodeFrom pos o bytes = .ok t) : bytes = encode t := by
  -- each character takes one byte at least, so what is left is shorter
  induction hn : bytes.length using Nat.strongRecOn generalizing bytes pos o t with
  | ind n ih =>
    cases bytes with
    | nil =>
      simp only [decodeFrom, ho, if_true] at h
      cases h
      rfl
    | cons b bytes =>
      obtain ⟨c, rest, hbytes, t', pos', o', rfl, ho', hrest⟩ := exists_char_of_decodeFrom ho h
      have hlength := congrArg List.length hbytes
      rw [List.length_append, hn] at hlength
      have hc := String.length_utf8EncodeChar c
      have hsize := c.utf8Size_pos
      rw [hbytes, ih rest.length (by omega) ho' hrest rfl]
      exact List.flatMap_cons.symm

/-- The bytes that are read as a text are those that it is written as. -/
theorem decode_eq_ok_iff : decode bytes = .ok t ↔ bytes = encode t := by
  constructor
  · intro h
    exact eq_encode_of_decodeFrom rfl h
  · rintro rfl
    exact decode_encode t

end NodeGen.Text.Utf8
