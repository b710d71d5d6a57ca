/-
  NodeGen.Proofs.Texts — which characters texts are made of: joined and split texts, identifiers. And
  names that are told apart while they are read one by one.
-/

import NodeGen.Text.Word

namespace NodeGen.Text

/-! ## Joining and splitting -/

theorem mem_intercalate {α : Type} {c : α} {sep : List α} {pieces : List (List α)}
    (h : c ∈ sep.intercalate pieces) : c ∈ sep ∨ ∃ piece ∈ pieces, c ∈ piece := by
  induction pieces with
  | nil => cases h
  | cons piece rest ih =>
    cases rest with
    | nil => rw [List.intercalate_singleton] at h; exact Or.inr ⟨piece, List.mem_cons_self, h⟩
    | cons next rest =>
      rw [List.intercalate_cons_cons] at h
      rcases List.mem_append.mp h with h | h
      · rcases List.mem_append.mp h with h | h
        · exact Or.inr ⟨piece, List.mem_cons_self, h⟩
        · exact Or.inl h
      · rcases ih h with h | ⟨x, hx, h⟩
        · exact Or.inl h
        · exact Or.inr ⟨x, List.mem_cons_of_mem _ hx, h⟩

theorem mem_intercalate_of_mem {c : Char} {sep piece : Text} {pieces : List Text} (hp : piece ∈ pieces)
    (hc : c ∈ piece) : c ∈ sep.intercalate pieces := by
  induction pieces with
  | nil => cases hp
  | cons first rest ih =>
    cases rest with
    | nil => rw [List.intercalate_singleton]; exact List.mem_singleton.mp hp ▸ hc
    | cons next rest =>
      rw [List.intercalate_cons_cons]
      rcases List.mem_cons.mp hp with rfl | hp
      · exact List.mem_append_left _ (List.mem_append_left _ hc)
      · exact List.mem_append_right _ (ih hp)

theorem intercalate_ne_nil (sep : Text) {piece : Text} {pieces : List Text} (hp : piece ∈ pieces) (hne : piece ≠ []) :
    sep.intercalate pieces ≠ [] := by
  obtain ⟨c, hc⟩ := List.exists_mem_of_ne_nil piece hne
  exact List.ne_nil_of_mem (mem_intercalate_of_mem hp hc)

/-- A piece of a split text is made of characters of the text, and not of the separator. -/
theorem mem_splitOn {c sep : Char} {t piece : Text} (h : piece ∈ t.splitOn sep) (hc : c ∈ piece) :
    c ∈ t ∧ c ≠ sep := by
  induction t generalizing piece with
  | nil =>
    rw [List.splitOn_nil] at h
    cases List.mem_singleton.mp h
    cases hc
  | cons a t ih =>
    rw [List.splitOn_cons_eq_if_modifyHead] at h
    by_cases ha : a = sep
    · simp only [ha, BEq.rfl, if_true] at h
      rcases List.mem_cons.mp h with rfl | h
      · cases hc
      · exact (ih h hc).imp (List.mem_cons_of_mem _) id
    · simp only [beq_iff_eq, ha, if_false] at h
      cases hsplit : t.splitOn sep with
      | nil => exact absurd hsplit (List.splitOn_ne_nil _ _)
      | cons first rest =>
        rw [hsplit] at h ih
        rcases List.mem_cons.mp h with rfl | h
        · rcases List.mem_cons.mp hc with rfl | hc
          · exact ⟨List.mem_cons_self, ha⟩
          · exact (ih List.mem_cons_self hc).imp (List.mem_cons_of_mem _) id
        · exact (ih (List.mem_cons_of_mem _ h) hc).imp (List.mem_cons_of_mem _) id

/-! ## Identifiers -/

theorem isWord_of_isWordStart {c : Char} (h : isWordStart c = true) : isWord c = true := by
  have hrange : ∀ n < 128, (65 ≤ n ∧ n ≤ 90) ∨ (97 ≤ n ∧ n ≤ 122) ∨ n = 95 → wordRanges.has n = true := by
    decide
  have hc : (65 ≤ c.toNat ∧ c.toNat ≤ 90) ∨ (97 ≤ c.toNat ∧ c.toNat ≤ 122) ∨ c.toNat = 95 := by
    simp only [isWordStart, Bool.or_eq_true, Bool.and_eq_true, decide_eq_true_eq, beq_iff_eq] at h
    rcases h with (⟨h1, h2⟩ | ⟨h1, h2⟩) | rfl
    · exact Or.inl ⟨h1, h2⟩
    · exact Or.inr (Or.inl ⟨h1, h2⟩)
    · exact Or.inr (Or.inr rfl)
  exact hrange c.toNat (by omega) hc

theorem isWord_of_mem {c : Char} {t : Text} (h : isIdentifier t = true) (hc : c ∈ t) : isWord c = true := by
  cases t with
  | nil => cases hc
  | cons a rest =>
    simp only [isIdentifier, Bool.and_eq_true, List.all_eq_true] at h
    rcases List.mem_cons.mp hc with rfl | hc
    · exact isWord_of_isWordStart h.1
    · exact h.2 c hc

/-- An identifier is free of a character that is no word character. -/
theorem not_mem_identifier {t : Text} (h : isIdentifier t = true) {c : Char} (hc : isWord c = false) :
    c ∉ t := by
  intro hm
  rw [isWord_of_mem h hm] at hc
  cases hc

theorem identifier_ne_nil {t : Text} (h : isIdentifier t = true) : t ≠ [] := by
  rintro rfl
  cases h

/-! ## Names read one by one -/

def Fresh {α : Type} (seen names : List α) : Prop := names.Nodup ∧ ∀ name ∈ names, name ∉ seen

theorem fresh_nil {α : Type} (seen : List α) : Fresh seen [] := ⟨List.nodup_nil, by simp⟩

/-- The first name is new, and the others are so once it has been seen. -/
theorem fresh_cons {α : Type} {seen names : List α} {name : α} :
    Fresh seen (name :: names) ↔ name ∉ seen ∧ Fresh (name :: seen) names := by
  unfold Fresh
  rw [List.nodup_cons, List.forall_mem_cons]
  constructor
  · rintro ⟨⟨hfirst, hnodup⟩, hseen, hnew⟩
    refine ⟨hseen, hnodup, fun n hn hm => ?_⟩
    rcases List.mem_cons.mp hm with rfl | hm
    · exact hfirst hn
    · exact hnew n hn hm
  · rintro ⟨hseen, hnodup, hnew⟩
    refine ⟨⟨fun hm => hnew name hm List.mem_cons_self, hnodup⟩, hseen, fun n hn hm => ?_⟩
    exact hnew n hn (List.mem_cons_of_mem _ hm)

end NodeGen.Text
