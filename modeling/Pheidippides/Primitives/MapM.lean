import Mathlib.Data.List.Basic

-- A partial function on all elements of a list.
namespace MapM

variable {α β : Type*} {f : α → Option β} {g : α → β} {l : List α}

theorem mapM_eq_some (h : ∀ a ∈ l, f a = some (g a)) : l.mapM f = some (l.map g) := by
  induction l
  case nil => rfl
  case cons a l ih =>
    have ⟨head, tail⟩ := List.forall_mem_cons.mp h
    rw [List.mapM_cons, head, ih tail]
    rfl

theorem mapM_eq_none_iff : l.mapM f = none ↔ ∃ a ∈ l, f a = none := by
  induction l
  case nil         => simp
  case cons a l ih =>
    rw [List.exists_mem_cons_iff, ← ih, List.mapM_cons]
    cases f a <;> cases l.mapM f <;> simp

end MapM
