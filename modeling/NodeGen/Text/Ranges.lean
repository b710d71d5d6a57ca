/-
  NodeGen.Text.Ranges — sets of code points given by intervals.
  `has_iff`: where the intervals rise, the search that stops early finds exactly the members.
-/

import NodeGen.Text.Basic

namespace NodeGen.Text

/-- Closed intervals of code points, smallest first. -/
abbrev Ranges := List (Nat × Nat)

namespace Ranges

/-- Membership. An interval past the code point ends the search. -/
def has : Ranges → Nat → Bool
  | [], _ => false
  | (lo, hi) :: rest, n => if n < lo then false else if n ≤ hi then true else has rest n

def Rising (rs : Ranges) : Prop :=
  (∀ r ∈ rs, r.1 ≤ r.2) ∧ rs.Pairwise (fun a b => a.2 < b.1)

instance (rs : Ranges) : Decidable (Rising rs) := by unfold Rising; infer_instance

theorem has_iff {rs : Ranges} (h : Rising rs) (n : Nat) :
    has rs n = true ↔ ∃ r ∈ rs, r.1 ≤ n ∧ n ≤ r.2 := by
  induction rs with
  | nil => simp [has]
  | cons r rest ih =>
    obtain ⟨lo, hi⟩ := r
    obtain ⟨hne, hp⟩ := h
    obtain ⟨hlt, hp'⟩ := List.pairwise_cons.mp hp
    have ih := ih ⟨fun q hq => hne q (List.mem_cons_of_mem _ hq), hp'⟩
    by_cases h1 : n < lo
    · have hlh : lo ≤ hi := hne (lo, hi) List.mem_cons_self
      simp only [has, h1, if_true, Bool.false_eq_true, false_iff, not_exists, not_and]
      intro q hq
      rcases List.mem_cons.mp hq with rfl | hq
      · simp only; omega
      · have := hlt q hq; simp only at this; omega
    · by_cases h2 : n ≤ hi
      · simp only [has, h1, h2, if_false, if_true, true_iff]
        exact ⟨(lo, hi), List.mem_cons_self, by simp only; omega⟩
      · simp only [has, h1, h2, if_false, ih]
        constructor
        · rintro ⟨q, hq, hb⟩; exact ⟨q, List.mem_cons_of_mem _ hq, hb⟩
        · rintro ⟨q, hq, hb⟩
          rcases List.mem_cons.mp hq with rfl | hq
          · simp only at hb; omega
          · exact ⟨q, hq, hb⟩

end Ranges

end NodeGen.Text
