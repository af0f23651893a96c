import Mathlib.Data.List.Basic

namespace List

variable {α : Type*}

-- What follows the first element of a list that satisfies `p`, nothing if there is none.
def skipPast (p : α → Bool) (l : List α) : List α :=
  (l.dropWhile (!p ·)).drop 1

variable {p q : α → Bool} {l l₁ l₂ : List α}

@[simp]
theorem skipPast_nil : skipPast p ([] : List α) = [] :=
  rfl

theorem skipPast_cons (x : α) (l : List α) :
    skipPast p (x :: l) = if p x then l else skipPast p l := by
  cases h : p x <;> simp [skipPast, h]

theorem skipPast_suffix (p : α → Bool) (l : List α) : skipPast p l <:+ l :=
  (List.drop_suffix ..).trans <| List.dropWhile_suffix _

theorem mem_of_mem_skipPast {x : α} (h : x ∈ skipPast p l) : x ∈ l :=
  (skipPast_suffix p l).subset h

theorem skipPast_of_forall_not (h : ∀ x ∈ l, ¬p x) : skipPast p l = [] := by
  induction l
  case nil => rfl
  case cons x l ih =>
    rw [skipPast_cons, if_neg <| h x mem_cons_self, ih fun y hy => h y <| mem_cons_of_mem _ hy]

theorem skipPast_append_of_exists (h : ∃ x ∈ l₁, p x) :
    skipPast p (l₁ ++ l₂) = skipPast p l₁ ++ l₂ := by
  induction l₁
  case nil => simp at h
  case cons x l ih =>
    rw [cons_append, skipPast_cons, skipPast_cons]
    split
    case isTrue => rfl
    case isFalse hx =>
      have ⟨y, hy, hp⟩ := h
      cases hy
      case head    => contradiction
      case tail hy => exact ih ⟨y, hy, hp⟩

theorem skipPast_append_of_forall_not (h : ∀ x ∈ l₁, ¬p x) :
    skipPast p (l₁ ++ l₂) = skipPast p l₂ := by
  induction l₁
  case nil => rfl
  case cons x l ih =>
    rw [cons_append, skipPast_cons, if_neg <| h x mem_cons_self]
    exact ih fun y hy => h y <| mem_cons_of_mem _ hy

-- An element comes after the first `p` of a list if and only if it does so in the part which it is in.
theorem mem_skipPast_append_iff {x : α} (hx : x ∉ l₂) :
    x ∈ skipPast p (l₁ ++ l₂) ↔ x ∈ skipPast p l₁ := by
  by_cases he : ∃ y ∈ l₁, p y
  · rw [skipPast_append_of_exists he]
    exact mem_append.trans <| or_iff_left hx
  · have hn : ∀ y ∈ l₁, ¬p y := fun y hy hp => he ⟨y, hy, hp⟩
    rw [skipPast_append_of_forall_not hn, skipPast_of_forall_not hn]
    exact iff_of_false (hx <| mem_of_mem_skipPast ·) not_mem_nil

-- Looking for the first `p` commutes with a filter that drops no `p`.
theorem filter_skipPast (h : ∀ x ∈ l, p x → q x) :
    (skipPast p l).filter q = skipPast p (l.filter q) := by
  induction l
  case nil => rfl
  case cons x l ih =>
    have ih := ih fun y hy => h y <| mem_cons_of_mem _ hy
    rw [skipPast_cons]
    cases hp : p x
    case true  => simp [h x mem_cons_self hp, skipPast_cons, hp]
    case false => cases hq : q x <;> simp [hq, ih, skipPast_cons, hp]

end List
