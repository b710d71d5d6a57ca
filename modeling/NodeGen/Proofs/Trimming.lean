/-
  NodeGen.Proofs.Trimming — what trimming and the cut at the first blank run do, said without the
  functions that do it.

  `trim_eq_iff`: a trimmed text is the one part of a text that stands between blanks and neither starts
  nor ends with one. `cutBlank_eq_some_iff`: a cut gives the part before the first blank run and the
  part behind it.
-/

import Mathlib.Data.List.Basic
import Mathlib.Data.List.TakeWhile
import NodeGen.Proofs.Texts
import NodeGen.Text.Blank

namespace NodeGen.Text

/-! ## Runs -/

def AllBlank (t : Text) : Prop := ∀ c ∈ t, isBlank c = true

def NoBlank (t : Text) : Prop := ∀ c ∈ t, isBlank c = false

instance (t : Text) : Decidable (AllBlank t) := List.decidableBAll _ t

def Ranges.codes (rs : Ranges) : List Nat := rs.flatMap fun r => List.range' r.1 (r.2 + 1 - r.1)

theorem Ranges.mem_codes {rs : Ranges} (hrs : rs.Rising) {n : Nat} (h : rs.has n = true) : n ∈ rs.codes := by
  obtain ⟨r, hr, hlo, hhi⟩ := (Ranges.has_iff hrs n).mp h
  exact List.mem_flatMap.mpr ⟨r, hr, List.mem_range'_1.mpr ⟨hlo, by omega⟩⟩

/-- No word character is a blank. -/
theorem isBlank_of_isWord {c : Char} (h : isWord c = true) : isBlank c = false := by
  have hall : ∀ n ∈ blanks.codes, wordRanges.has n = false := by decide +kernel
  cases hb : isBlank c with
  | false => rfl
  | true =>
    rw [isWord, hall _ (Ranges.mem_codes (by decide) hb)] at h
    cases h

theorem noBlank_identifier {t : Text} (h : isIdentifier t = true) : NoBlank t :=
  fun _ hc => isBlank_of_isWord (isWord_of_mem h hc)

theorem head?_dropWhile {p : Char → Bool} {t : Text} {c : Char} (h : c ∈ (t.dropWhile p).head?) : p c = false := by
  have hhead := List.head?_dropWhile_not p t
  rwa [Option.mem_def.mp h] at hhead

/-! ## Trimming -/

structure Trimmed (t : Text) : Prop where
  first : ∀ c ∈ t.head?, isBlank c = false
  last : ∀ c ∈ t.getLast?, isBlank c = false

structure TrimsTo (t core : Text) : Prop extends Trimmed core where
  around : ∃ front back, AllBlank front ∧ AllBlank back ∧ t = front ++ core ++ back

theorem Trimmed.of_noBlank {t : Text} (h : NoBlank t) : Trimmed t :=
  ⟨fun c hc => h c (List.mem_of_mem_head? hc), fun c hc => h c (List.mem_of_mem_getLast? hc)⟩

theorem Trimmed.append {s t : Text} (u : Text) (hs : Trimmed s) (ht : Trimmed t) (hs' : s ≠ []) (ht' : t ≠ []) :
    Trimmed (s ++ u ++ t) := by
  constructor
  · rw [List.append_assoc, List.head?_append_of_ne_nil _ hs']
    exact hs.first
  · rw [List.getLast?_append_of_ne_nil _ ht']
    exact ht.last

theorem Trimmed.intercalate {sep : Text} {pieces : List Text} (h : ∀ piece ∈ pieces, Trimmed piece ∧ piece ≠ []) :
    Trimmed (sep.intercalate pieces) := by
  induction pieces with
  | nil => exact ⟨by simp, by simp⟩
  | cons piece pieces ih =>
    obtain ⟨⟨hpiece, hne⟩, hpieces⟩ := List.forall_mem_cons.mp h
    cases pieces with
    | nil => rwa [List.intercalate_singleton]
    | cons next pieces =>
      rw [List.intercalate_cons_cons]
      exact hpiece.append sep (ih hpieces) hne
        (intercalate_ne_nil sep List.mem_cons_self (hpieces next List.mem_cons_self).2)

theorem trimRight_spec (t : Text) :
    (∃ back, AllBlank back ∧ t = trimRight t ++ back) ∧ ∀ c ∈ (trimRight t).getLast?, isBlank c = false := by
  induction t with
  | nil => exact ⟨⟨[], by decide, rfl⟩, by simp [trimRight]⟩
  | cons c t ih =>
    obtain ⟨⟨back, hback, ht⟩, hlast⟩ := ih
    unfold trimRight
    split
    · rename_i hnil
      rw [hnil, List.nil_append] at ht
      by_cases hc : isBlank c = true
      · rw [if_pos hc]
        exact ⟨⟨c :: t, List.forall_mem_cons.mpr ⟨hc, ht ▸ hback⟩, rfl⟩, by simp⟩
      · rw [if_neg hc]
        exact ⟨⟨t, ht ▸ hback, rfl⟩, by simpa using hc⟩
    · rename_i kept hne
      refine ⟨⟨back, hback, by rw [List.cons_append, ← ht]⟩, ?_⟩
      rwa [List.getLast?_cons_of_ne_nil hne]

theorem trimRight_of_allBlank {t : Text} (h : AllBlank t) : trimRight t = [] := by
  induction t with
  | nil => rfl
  | cons c t ih =>
    obtain ⟨hc, ht⟩ := List.forall_mem_cons.mp h
    rw [trimRight, ih ht, if_pos hc]

theorem trimRight_append {t back : Text} (hlast : ∀ c ∈ t.getLast?, isBlank c = false) (hback : AllBlank back) :
    trimRight (t ++ back) = t := by
  induction t with
  | nil => exact trimRight_of_allBlank hback
  | cons c t ih =>
    cases t with
    | nil =>
      have hc : isBlank c = false := hlast c rfl
      rw [List.singleton_append, trimRight, trimRight_of_allBlank hback]
      simp [hc]
    | cons d t =>
      have ih := ih (by rwa [List.getLast?_cons_cons] at hlast)
      rw [List.cons_append, trimRight, ih]

theorem trimLeft_append {front t : Text} (hfront : AllBlank front) (hfirst : ∀ c ∈ t.head?, isBlank c = false) :
    trimLeft (front ++ t) = t := by
  rw [trimLeft, List.dropWhile_append_of_pos hfront]
  cases t with
  | nil => rfl
  | cons c t => exact List.dropWhile_cons_of_neg (by simp [hfirst c rfl])

theorem trimsTo_trim (t : Text) : TrimsTo t (trim t) := by
  obtain ⟨⟨back, hback, hleft⟩, hlast⟩ := trimRight_spec (trimLeft t)
  have hfront : AllBlank (t.takeWhile isBlank) := fun c hc => List.all_eq_true.mp List.all_takeWhile c hc
  refine ⟨⟨fun c hc => ?_, hlast⟩, t.takeWhile isBlank, back, hfront, hback, ?_⟩
  · -- what is kept on the right starts as the text that was trimmed on the left
    refine head?_dropWhile (p := isBlank) (t := t) ?_
    rw [trim] at hc
    show c ∈ (trimLeft t).head?
    rw [hleft, List.head?_append, Option.mem_def.mp hc]
    rfl
  · rw [List.append_assoc, trim, ← hleft, trimLeft, List.takeWhile_append_dropWhile]

theorem trim_eq_iff {t core : Text} : trim t = core ↔ TrimsTo t core := by
  constructor
  · rintro rfl
    exact trimsTo_trim t
  · rintro ⟨⟨hfirst, hlast⟩, front, back, hfront, hback, rfl⟩
    rw [trim]
    cases core with
    | nil =>
      have hleft := trimLeft_append (t := []) (fun c hc => (List.mem_append.mp hc).elim (hfront c) (hback c)) hfirst
      rw [List.append_nil] at hleft
      rw [List.append_nil, hleft]
      rfl
    | cons c core =>
      have hleft := trimLeft_append (t := c :: core ++ back) hfront hfirst
      rw [List.append_assoc, hleft, trimRight_append hlast hback]

theorem TrimsTo.mem {t core : Text} (h : TrimsTo t core) {c : Char} (hc : c ∈ core) : c ∈ t := by
  obtain ⟨front, back, -, -, rfl⟩ := h.around
  exact List.mem_append_left _ (List.mem_append_right _ hc)

theorem Trimmed.trimsTo {front t back : Text} (h : Trimmed t) (hfront : AllBlank front) (hback : AllBlank back) :
    TrimsTo (front ++ t ++ back) t :=
  ⟨h, front, back, hfront, hback, rfl⟩

theorem Trimmed.trimsTo_self {t : Text} (h : Trimmed t) : TrimsTo t t :=
  ⟨h, [], [], by decide, by decide, by simp⟩

/-! ## Cutting -/

theorem cutBlank_eq_some_iff {t before after : Text} : cutBlank t = some (before, after) ↔
    NoBlank before ∧ (∀ c ∈ after.head?, isBlank c = false) ∧
      ∃ gap, gap ≠ [] ∧ AllBlank gap ∧ t = before ++ gap ++ after := by
  constructor
  · intro h
    unfold cutBlank at h
    split at h
    · cases h
    · rename_i hne
      obtain ⟨rfl, rfl⟩ := Prod.mk.inj (Option.some.inj h)
      refine ⟨fun c hc => ?_, fun c hc => head?_dropWhile hc, (t.dropWhile (!isBlank ·)).takeWhile isBlank, ?_,
        fun c hc => List.all_eq_true.mp List.all_takeWhile c hc, ?_⟩
      · simpa using List.all_eq_true.mp List.all_takeWhile c hc
      · obtain ⟨b, rest, hrest⟩ := List.exists_cons_of_ne_nil hne
        have hb : (!isBlank b) = false := head?_dropWhile (t := t) (by rw [hrest]; rfl)
        rw [hrest, List.takeWhile_cons_of_pos (by simpa using hb)]
        exact List.cons_ne_nil _ _
      · rw [List.append_assoc, trimLeft, List.takeWhile_append_dropWhile, List.takeWhile_append_dropWhile]
  · rintro ⟨hbefore, hafter, gap, hne, hgap, rfl⟩
    obtain ⟨b, gap, rfl⟩ := List.exists_cons_of_ne_nil hne
    have hb : ¬ (!isBlank b) = true := by simp [hgap b List.mem_cons_self]
    have hbefore' : ∀ c ∈ before, (!isBlank c) = true := fun c hc => by simp [hbefore c hc]
    have hdrop : (before ++ b :: gap ++ after).dropWhile (!isBlank ·) = b :: gap ++ after := by
      rw [List.append_assoc, List.dropWhile_append_of_pos hbefore']
      exact List.dropWhile_cons_of_neg hb
    have htake : (before ++ b :: gap ++ after).takeWhile (!isBlank ·) = before := by
      rw [List.append_assoc, List.takeWhile_append_of_pos hbefore', List.cons_append,
        List.takeWhile_cons_of_neg (p := (!isBlank ·)) hb, List.append_nil]
    unfold cutBlank
    rw [hdrop, htake]
    show some (before, trimLeft (b :: gap ++ after)) = _
    rw [trimLeft_append hgap hafter]

theorem cutBlank_of_noBlank {t : Text} (h : NoBlank t) : cutBlank t = none := by
  have hdrop : t.dropWhile (!isBlank ·) = [] := List.dropWhile_eq_nil_iff.mpr fun c hc => by simp [h c hc]
  unfold cutBlank
  rw [hdrop]

theorem cutBlank_eq_none_iff {t : Text} : cutBlank t = none ↔ NoBlank t := by
  refine ⟨fun h c hc => ?_, cutBlank_of_noBlank⟩
  unfold cutBlank at h
  split at h
  · rename_i hdrop
    simpa using List.dropWhile_eq_nil_iff.mp hdrop c hc
  · cases h

end NodeGen.Text
