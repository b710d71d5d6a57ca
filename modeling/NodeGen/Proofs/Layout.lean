/-
  NodeGen.Proofs.Layout — how rows, and the words in a row, are found again in a text.

  A row is found because no row holds a line end (`OneLine`), a part of it because something follows that
  the part cannot hold (`append_cons_inj`). Lower case brings in no line end and no other character from
  before the small letters (`not_mem_lower`).
-/

import NodeGen.Proofs.Quoting
import NodeGen.Proofs.Texts
import NodeGen.Text.Lowercase
import NodeGen.Text.Newline

namespace NodeGen.Text

/-! ## Cutting -/

section Cutting

variable {α : Type} {a b : α} {x y u v : List α}

/-- The first element without a property cuts a list in one way. -/
theorem append_cons_inj {p : α → Prop} (hx : ∀ c ∈ x, p c) (hy : ∀ c ∈ y, p c) (ha : ¬ p a) (hb : ¬ p b)
    (h : x ++ a :: u = y ++ b :: v) : x = y ∧ a = b ∧ u = v := by
  induction x generalizing y with
  | nil =>
    cases y with
    | nil =>
      obtain ⟨hab, huv⟩ := List.cons.inj h
      exact ⟨rfl, hab, huv⟩
    | cons d y =>
      have had : a = d := (List.cons.inj h).1
      exact absurd (had ▸ hy d List.mem_cons_self) ha
  | cons c x ih =>
    cases y with
    | nil =>
      have hcb : c = b := (List.cons.inj h).1
      exact absurd (hcb ▸ hx c List.mem_cons_self) hb
    | cons d y =>
      obtain ⟨hcd, h⟩ := List.cons.inj h
      have hx' : ∀ c ∈ x, p c := fun e he => hx e (List.mem_cons_of_mem _ he)
      have hy' : ∀ c ∈ y, p c := fun e he => hy e (List.mem_cons_of_mem _ he)
      obtain ⟨hxy, hab, huv⟩ := ih hx' hy' h
      exact ⟨by rw [hcd, hxy], hab, huv⟩

/-- So does the first occurrence of an element, -/
theorem append_first_inj (hx : a ∉ x) (hy : a ∉ y) (h : x ++ a :: u = y ++ a :: v) : x = y ∧ u = v := by
  have hx' : ∀ c ∈ x, c ≠ a := fun c hc e => hx (e ▸ hc)
  have hy' : ∀ c ∈ y, c ≠ a := fun c hc e => hy (e ▸ hc)
  obtain ⟨hxy, -, huv⟩ := append_cons_inj hx' hy' (fun h => h rfl) (fun h => h rfl) h
  exact ⟨hxy, huv⟩

/-- and the last one. -/
theorem append_last_inj (hu : a ∉ u) (hv : a ∉ v) (h : x ++ a :: u = y ++ a :: v) : x = y ∧ u = v := by
  have hr := congrArg List.reverse h
  simp only [List.reverse_append, List.reverse_cons, List.append_assoc, List.singleton_append] at hr
  obtain ⟨huv, hxy⟩ := append_first_inj (by simpa using hu) (by simpa using hv) hr
  exact ⟨List.reverse_inj.mp hxy, List.reverse_inj.mp huv⟩

theorem map_inj_of_mem {β : Type} {f : α → β} (hf : ∀ a ∈ x, ∀ b ∈ y, f a = f b → a = b)
    (h : x.map f = y.map f) : x = y := by
  induction x generalizing y with
  | nil => exact (List.map_eq_nil_iff.mp h.symm).symm
  | cons a x ih =>
    cases y with
    | nil => cases h
    | cons b y =>
      obtain ⟨hab, h⟩ := List.cons.inj h
      rw [hf a List.mem_cons_self b List.mem_cons_self hab,
        ih (fun c hc d hd => hf c (List.mem_cons_of_mem _ hc) d (List.mem_cons_of_mem _ hd)) h]

end Cutting

/-- Texts that differ at one index are different. -/
theorem ne_of_getElem? {s t : Text} (k : Nat) (h : s[k]? ≠ t[k]?) : s ≠ t := by
  intro he
  rw [he] at h
  exact h rfl

/-- An identifier ends at the first character that is no word character. -/
theorem identifier_append_inj {s t u v : Text} {a b : Char} (hs : isIdentifier s = true)
    (ht : isIdentifier t = true) (ha : isWord a = false) (hb : isWord b = false)
    (h : s ++ a :: u = t ++ b :: v) : s = t ∧ a = b ∧ u = v := by
  have hs' : ∀ c ∈ s, isWord c = true := fun c hc => isWord_of_mem hs hc
  have ht' : ∀ c ∈ t, isWord c = true := fun c hc => isWord_of_mem ht hc
  exact append_cons_inj hs' ht' (by simp [ha]) (by simp [hb]) h

/-! ## Texts of one line -/

structure OneLine (t : Text) : Prop where
  noFeed : '\n' ∉ t
  noReturn : '\r' ∉ t

instance (t : Text) : Decidable (OneLine t) :=
  decidable_of_iff ('\n' ∉ t ∧ '\r' ∉ t) ⟨fun h => ⟨h.1, h.2⟩, fun h => ⟨h.1, h.2⟩⟩

theorem oneLine_append {s t : Text} : OneLine (s ++ t) ↔ OneLine s ∧ OneLine t := by
  constructor
  · rintro ⟨hn, hr⟩
    exact ⟨⟨fun h => hn (List.mem_append_left t h), fun h => hr (List.mem_append_left t h)⟩,
      fun h => hn (List.mem_append_right s h), fun h => hr (List.mem_append_right s h)⟩
  · rintro ⟨hs, ht⟩
    exact ⟨fun h => (List.mem_append.mp h).elim hs.noFeed ht.noFeed,
      fun h => (List.mem_append.mp h).elim hs.noReturn ht.noReturn⟩

namespace OneLine

theorem intercalate {sep : Text} {pieces : List Text} (hsep : OneLine sep) (h : ∀ piece ∈ pieces, OneLine piece) :
    OneLine (sep.intercalate pieces) := by
  constructor
  · intro hm
    rcases mem_intercalate hm with hm | ⟨piece, hp, hm⟩
    · exact hsep.1 hm
    · exact (h piece hp).1 hm
  · intro hm
    rcases mem_intercalate hm with hm | ⟨piece, hp, hm⟩
    · exact hsep.2 hm
    · exact (h piece hp).2 hm

theorem of_identifier {t : Text} (h : isIdentifier t = true) : OneLine t :=
  ⟨not_mem_identifier h (by decide), not_mem_identifier h (by decide)⟩

theorem quoted (t : Text) : OneLine (Quoted.encode t) :=
  ⟨(Quoted.not_mem_encode t).1, (Quoted.not_mem_encode t).2⟩

end OneLine

/-! ## Lower case -/

theorem ne_ofNat {c : Char} {n : Nat} (hc : c.toNat < n) (hzero : c ≠ '\x00') : c ≠ Char.ofNat n := by
  intro he
  by_cases hvalid : n.isValidChar
  · rw [Char.ofNat, dif_pos hvalid] at he
    have hn : c.toNat = n := congrArg Char.toNat he
    omega
  · rw [Char.ofNat, dif_neg hvalid] at he
    exact hzero he

/-- A code point is its own small letter, or that letter does not stand before `a`. -/
theorem lowerCode_cases (n : Nat) : lowerCode caseRuns n = n ∨ 97 ≤ lowerCode caseRuns n := by
  have hall : caseRuns.all (fun r => 97 ≤ (r.lo : Int) + r.shift) = true := by decide +kernel
  rw [List.all_eq_true] at hall
  generalize caseRuns = runs at hall
  induction runs with
  | nil => exact Or.inl rfl
  | cons r rest ih =>
    have hr : 97 ≤ (r.lo : Int) + r.shift := by simpa using hall r List.mem_cons_self
    unfold lowerCode
    split
    · exact Or.inl rfl
    · split
      · exact Or.inr (by omega)
      · exact ih fun q hq => hall q (List.mem_cons_of_mem _ hq)

section Below

variable {c : Char} (hlow : c.toNat < 97) (hzero : c ≠ '\x00')

include hlow hzero

theorem not_mem_lowerChar {before after : Text} {d : Char} (h : c ≠ d) : c ∉ lowerChar before d after := by
  have hne : ∀ e : Char, 97 ≤ e.toNat → c ≠ e := by
    rintro e he rfl
    omega
  unfold lowerChar
  split
  · split
    · simpa using hne 'ς' (by decide)
    · simpa using hne 'σ' (by decide)
  · split
    · simpa using ⟨hne 'i' (by decide), hne '\u0307' (by decide)⟩
    · rw [List.mem_singleton]
      rcases lowerCode_cases d.toNat with hself | hlarge
      · rw [hself, Char.ofNat_toNat]
        exact h
      · exact ne_ofNat (by omega) hzero

theorem not_mem_lowerFrom {before t : Text} (h : c ∉ t) : c ∉ lowerFrom before t := by
  induction t generalizing before with
  | nil => exact h
  | cons d t ih =>
    intro hm
    rcases List.mem_append.mp hm with hm | hm
    · exact not_mem_lowerChar hlow hzero (List.ne_of_not_mem_cons h) hm
    · exact ih (List.not_mem_of_not_mem_cons h) hm

/-- Lower case brings in no character from before the small letters. -/
theorem not_mem_lower {t : Text} (h : c ∉ t) : c ∉ lower t := not_mem_lowerFrom hlow hzero h

end Below

theorem oneLine_lower {t : Text} (h : OneLine t) : OneLine (lower t) :=
  ⟨not_mem_lower (by decide) (by decide) h.noFeed, not_mem_lower (by decide) (by decide) h.noReturn⟩

/-! ## Rows -/

theorem not_mem_rows {rs : List Text} (h : ∀ r ∈ rs, '\r' ∉ r) : '\r' ∉ rows rs ++ ['\n'] := by
  intro hm
  rcases List.mem_append.mp hm with hm | hm
  · rcases mem_intercalate hm with hm | ⟨r, hr, hm⟩
    · cases List.mem_singleton.mp hm
    · exact h r hr hm
  · cases List.mem_singleton.mp hm

end NodeGen.Text
