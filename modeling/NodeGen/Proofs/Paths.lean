/-
  NodeGen.Proofs.Paths — what paths are made of.

  A path made from a text has only characters of the text; an anchored path has the parts of the
  current directory and of the path it was made from; the text of a path has the characters of its
  parts, and no NUL unless one of them has it.
-/

import NodeGen.File.Resolve
import NodeGen.Proofs.Texts

namespace NodeGen

namespace Path

theorem partsOf_singleton {t : Text} (hslash : '/' ∉ t) (hne : t ≠ []) (hdot : t ≠ ['.']) : partsOf t = [t] := by
  simp [partsOf, List.splitOn_eq_singleton hslash, hne, hdot]

/-- A text without a slash is a path of one part. -/
theorem ofText_singleton {t : Text} (hslash : '/' ∉ t) (hne : t ≠ []) (hdot : t ≠ ['.']) :
    ofText t = ⟨.here, [t]⟩ := by
  rw [ofText, partsOf_singleton hslash hne hdot]
  congr 1
  unfold Anchor.ofText
  split
  · exact absurd List.mem_cons_self hslash
  · exact absurd List.mem_cons_self hslash
  · exact absurd List.mem_cons_self hslash
  · rfl

theorem mem_ofText {t part : Text} {c : Char} (h : part ∈ (ofText t).parts) (hc : c ∈ part) : c ∈ t :=
  (Text.mem_splitOn (List.mem_filter.mp h).1 hc).1

theorem mem_collapse {parts : List Text} {part : Text} (h : part ∈ collapse parts) : part ∈ parts := by
  have hkept : ∀ (parts kept : List Text), part ∈
      parts.foldl (fun kept part => if part = ['.', '.'] then kept.dropLast else kept ++ [part]) kept →
      part ∈ kept ∨ part ∈ parts := by
    intro parts
    induction parts with
    | nil => exact fun _ h => Or.inl h
    | cons next rest ih =>
      intro kept h
      rcases ih _ h with h | h
      · change part ∈ if next = ['.', '.'] then kept.dropLast else kept ++ [next] at h
        split at h
        · exact Or.inl (List.dropLast_subset _ h)
        · rcases List.mem_append.mp h with h | h
          · exact Or.inl h
          · exact Or.inr (List.mem_singleton.mp h ▸ List.mem_cons_self)
      · exact Or.inr (List.mem_cons_of_mem _ h)
  rcases hkept parts [] h with h | h
  · cases h
  · exact h

/-- Without `..` nothing is taken back. -/
theorem collapse_eq_self {parts : List Text} (h : ['.', '.'] ∉ parts) : collapse parts = parts := by
  have hkept : ∀ (parts kept : List Text), ['.', '.'] ∉ parts →
      parts.foldl (fun kept part => if part = ['.', '.'] then kept.dropLast else kept ++ [part]) kept =
        kept ++ parts := by
    intro parts
    induction parts with
    | nil => simp
    | cons next rest ih =>
      intro kept h
      have hnext : next ≠ ['.', '.'] := fun e => h (e ▸ List.mem_cons_self)
      rw [List.foldl_cons, if_neg hnext, ih _ fun hm => h (List.mem_cons_of_mem _ hm), List.append_assoc,
        List.singleton_append]
  exact hkept parts [] h

theorem mem_absolute {cwd : List Text} {p : Path} {part : Text} (h : part ∈ (p.absolute cwd).parts) :
    part ∈ cwd ∨ part ∈ p.parts := by
  unfold absolute at h
  split at h
  · exact List.mem_append.mp (mem_collapse h)
  · exact Or.inr (mem_collapse h)

/-- A path has only the characters of its parts, slashes and points. -/
theorem mem_toText {p : Path} {c : Char} (h : c ∈ p.toText) : c = '/' ∨ c = '.' ∨ ∃ part ∈ p.parts, c ∈ part := by
  have hanchor : ∀ {a : Anchor}, c ∈ a.text → c = '/' := by
    intro a hc
    cases a with
    | here => cases hc
    | root => exact List.mem_singleton.mp hc
    | doubleRoot => simpa [Anchor.text] using hc
  unfold toText at h
  split at h
  · exact Or.inr (Or.inl (by simpa using h))
  · rcases List.mem_append.mp h with h | h
    · exact Or.inl (hanchor h)
    · rcases Text.mem_intercalate h with h | h
      · exact Or.inl (by simpa using h)
      · exact Or.inr (Or.inr h)

theorem clean {p : Path} (h : ∀ part ∈ p.parts, '\x00' ∉ part) : '\x00' ∉ (Route.ofPath p).text := by
  intro hm
  rcases mem_toText hm with hc | hc | ⟨part, hpart, hc⟩
  · cases hc
  · cases hc
  · exact h part hpart hc

theorem mem_toText_of_mem {p : Path} {c : Char} {part : Text} (hp : part ∈ p.parts) (hc : c ∈ part) :
    c ∈ p.toText := by
  unfold toText
  split
  · rename_i hparts
    rw [hparts] at hp
    cases hp
  · exact List.mem_append_right _ (Text.mem_intercalate_of_mem hp hc)

/-- A part of a path without a NUL has none. -/
theorem parts_clean {p : Path} (h : '\x00' ∉ (Route.ofPath p).text) {part : Text} (hp : part ∈ p.parts) :
    '\x00' ∉ part := fun hm => h (mem_toText_of_mem hp hm)

/-! ## The last part -/

@[simp] theorem name_child (p : Path) (name : Text) : (p.child name).name = name := by
  simp [Path.name, child]

theorem dropLast_child (p : Path) (name : Text) : (p.child name).parts.dropLast = p.parts := List.dropLast_concat

theorem getLast?_child (p : Path) (name : Text) : (p.child name).parts.getLast? = some name := by
  simp [child]

theorem child_toText_ne_nil (p : Path) {name : Text} (h : name ≠ []) : (p.child name).toText ≠ [] := by
  obtain ⟨c, rest, rfl⟩ := List.exists_cons_of_ne_nil h
  exact List.ne_nil_of_mem (mem_toText_of_mem (List.mem_append_right _ List.mem_cons_self) List.mem_cons_self)

@[simp] theorem parent_child (p : Path) (name : Text) : (p.child name).parent = p := by
  simp [parent, child]

end Path

end NodeGen
