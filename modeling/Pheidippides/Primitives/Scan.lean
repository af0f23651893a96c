import Mathlib.Data.List.Basic
import Mathlib.Data.List.Infix
import Mathlib.Data.List.TakeWhile

-- What a list holds in front of an element, and behind it.
namespace Scan

variable {α : Type} {a : α} {l r p : List α}

-- What does not hold the element is on one side of it.
theorem infix_or_infix (ha : a ∉ p) (h : p <:+: l ++ a :: r) : p <:+: l ∨ p <:+: r := by
  obtain ⟨before, after, h⟩ := h
  obtain ⟨tail, hl, _⟩ | ⟨tail, hl, hr⟩ := List.append_eq_append_iff.mp h
  · exact .inl ⟨before, tail, hl.symm⟩
  cases tail
  case nil => exact .inl ⟨before, [], by simpa using hl⟩
  case cons b tail =>
    obtain ⟨rfl, rfl⟩ := List.cons.inj hr
    obtain ⟨part, _, hp⟩ | ⟨part, _, hp⟩ := List.append_eq_append_iff.mp hl
    · exact absurd (hp ▸ by simp) ha
    cases part
    case nil => exact absurd (List.nil_append p ▸ hp ▸ List.mem_cons_self) ha
    case cons =>
      obtain ⟨_, rfl⟩ := List.cons.inj hp
      exact .inr ⟨_, after, rfl⟩

-- Two places in a list.
theorem places {b : α} {r' l' : List α} (h : l ++ a :: r = l' ++ b :: r') :
    (l = l' ∧ a = b) ∨ (∃ mid, l' = l ++ a :: mid) ∨ ∃ mid, l = l' ++ b :: mid := by
  obtain ⟨mid, rfl, tail⟩ | ⟨mid, rfl, tail⟩ := List.append_eq_append_iff.mp h <;> cases mid
  case inl.nil        => exact .inl ⟨by simp, (List.cons.inj tail).left⟩
  case inl.cons c mid => exact .inr <| .inl ⟨mid, by rw [(List.cons.inj tail).left]⟩
  case inr.nil        => exact .inl ⟨by simp, (List.cons.inj tail).left.symm⟩
  case inr.cons c mid => exact .inr <| .inr ⟨mid, by rw [(List.cons.inj tail).left]⟩

variable [DecidableEq α]

theorem takeWhile_of_not_mem (h : a ∉ l) : l.takeWhile (· ≠ a) = l :=
  List.takeWhile_eq_self_iff.mpr fun _ hx => decide_eq_true <| ne_of_mem_of_not_mem hx h

theorem dropWhile_of_not_mem (h : a ∉ l) : l.dropWhile (· ≠ a) = [] :=
  List.dropWhile_eq_nil_iff.mpr fun _ hx => decide_eq_true <| ne_of_mem_of_not_mem hx h

theorem takeWhile_append (h : a ∉ l) : (l ++ a :: r).takeWhile (· ≠ a) = l := by
  have all : ∀ x ∈ l, decide (x ≠ a) := fun x hx => decide_eq_true <| ne_of_mem_of_not_mem hx h
  rw [List.takeWhile_append_of_pos all, List.takeWhile_cons_of_neg (by simp), List.append_nil]

theorem dropWhile_append (h : a ∉ l) : (l ++ a :: r).dropWhile (· ≠ a) = a :: r := by
  have all : ∀ x ∈ l, decide (x ≠ a) := fun x hx => decide_eq_true <| ne_of_mem_of_not_mem hx h
  rw [List.dropWhile_append_of_pos all, List.dropWhile_cons_of_neg (by simp)]

end Scan
