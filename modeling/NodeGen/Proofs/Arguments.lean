/-
  NodeGen.Proofs.Arguments — where the settings of a run come from.

  `directory_mem`: the directory of the settings is one of the arguments, as it stands there.
-/

import NodeGen.Command.Arguments

namespace NodeGen.Command

/-! ## Tokens -/

/-- An argument that counts as an operand counts as it stands. -/
theorem classify_operand {t u : Text} (h : classify t = .ok (.operand u)) : u = t := by
  have hrest : ∀ {v}, classifyRest t = .operand v → v = t := by
    intro v h
    unfold classifyRest at h
    split at h
    · cases h; rfl
    · cases h
  unfold classify at h
  split at h
  · unfold classifyDashed at h
    simp only at h
    repeat' split at h
    all_goals first
      | cases h
      | exact hrest (Except.ok.inj h)
  · cases h; rfl

theorem tokens_operand {arguments : List Text} {ts : List Token} (h : tokens arguments = .ok ts) {t : Text}
    (ht : .operand t ∈ ts) : t ∈ arguments := by
  induction arguments generalizing ts with
  | nil => cases h; cases ht
  | cons a rest ih =>
    unfold tokens at h
    split at h
    · cases h
      rcases List.mem_cons.mp ht with ht | ht
      · cases ht
      · obtain ⟨u, hu, he⟩ := List.mem_map.mp ht
        cases he
        exact List.mem_cons_of_mem _ hu
    · simp only [bind, Except.bind] at h
      split at h
      · cases h
      · rename_i token htoken
        split at h
        · cases h
        · rename_i more hmore
          cases h
          rcases List.mem_cons.mp ht with rfl | ht
          · rw [classify_operand htoken]; exact List.mem_cons_self
          · exact List.mem_cons_of_mem _ (ih hmore ht)

/-! ## Settings -/

theorem assign_directory {p q : Progress} {flag : Flag} {value : Text} (h : assign p flag value = .ok q) :
    q.directory = p.directory := by
  unfold assign at h
  repeat' split at h
  all_goals first
    | cases h; rfl
    | cases h

/-- A directory was there before, or it is one of the operands. -/
theorem consume_directory {p q : Progress} {ts : List Token} (h : consume p ts = .ok q) {d : Text}
    (hd : q.directory = some d) : p.directory = some d ∨ .operand d ∈ ts := by
  -- every token but an operand leaves the directory as it is
  have skip : ∀ {old : Option Text} {token : Token} {rest : List Token},
      (old = some d ∨ .operand d ∈ rest) → old = some d ∨ .operand d ∈ token :: rest := fun h =>
    h.imp id (List.mem_cons_of_mem _)
  have take : ∀ {t : Text} {rest : List Token},
      (some t = some d ∨ .operand d ∈ rest) → .operand d ∈ Token.operand t :: rest := by
    rintro t rest (h | h)
    · cases h; exact List.mem_cons_self
    · exact List.mem_cons_of_mem _ h
  fun_induction consume p ts with
  | case1 => cases h; exact Or.inl hd
  | case2 _ _ _ _ _ ih => exact skip (ih h)
  | case3 _ _ _ _ ih => exact Or.inr (take (skip (ih h)))
  | case4 _ _ _ _ _ ih => exact Or.inr (take (ih h))
  | case5 _ _ _ _ ih => exact skip (Or.inr (take (ih h)))
  | case6 _ _ _ ih => exact skip (ih h)
  | case7 _ _ _ ih => exact skip (ih h)
  | case8 => cases h
  | case9 p flag value rest ih =>
    simp only [bind, Except.bind] at h
    split at h
    · cases h
    · rename_i p' hp'
      rw [← assign_directory hp']
      exact skip (ih p' h)
  | case10 => cases h
  | case11 _ _ ih => exact skip (ih h)
  | case12 p flag _ _ value rest ih =>
    simp only [bind, Except.bind] at h
    split at h
    · cases h
    · rename_i p' hp'
      rw [← assign_directory hp']
      exact skip (skip (ih p' h))
  | case13 => cases h

/-- The directory of the settings is an argument. -/
theorem directory_mem {arguments : List Text} {s : Settings} (h : parse arguments = .ok s) :
    s.directory ∈ arguments := by
  unfold parse at h
  split at h
  · cases h
  · rename_i ts hts
    simp only [bind, Except.bind] at h
    split at h
    · cases h
    · rename_i p hp
      unfold finish at h
      split at h
      · cases h
      · rename_i directory hd _
        cases h
        rcases consume_directory hp hd with h | h
        · cases h
        · exact tokens_operand hts h
      · cases h

end NodeGen.Command
