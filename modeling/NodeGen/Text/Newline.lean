/-
  NodeGen.Text.Newline — line ends of all three kinds read as line feeds.
-/

import NodeGen.Text.Basic

namespace NodeGen.Text

/-- A carriage return, alone or before a line feed, becomes a line feed. -/
def unifyNewlines : Text → Text
  | [] => []
  | '\r' :: '\n' :: rest => '\n' :: unifyNewlines rest
  | c :: rest => (if c = '\r' then '\n' else c) :: unifyNewlines rest

theorem unifyNewlines_eq_self {t : Text} (h : '\r' ∉ t) : unifyNewlines t = t := by
  induction t with
  | nil => rfl
  | cons c rest ih =>
    have hc : c ≠ '\r' := fun e => h (e ▸ List.mem_cons_self)
    have hr := ih fun hm => h (List.mem_cons_of_mem _ hm)
    simp [unifyNewlines, hc, hr]

end NodeGen.Text
