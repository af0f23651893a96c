import Mathlib.Data.List.Basic

-- A log read from its end, of which every element is kept where it comes first.
namespace Recency

variable {α : Type*} [DecidableEq α]

def keep (state : List α) (a : α) : List α :=
  if a ∈ state then state else state ++ [a]

def firsts (l : List α) : List α :=
  l.foldl keep []

theorem foldl_keep (state l : List α) : l.foldl keep state = state ++ (firsts l).filter (· ∉ state) := by
  induction l generalizing state
  case nil => simp [firsts]
  case cons a l ih =>
    have first : keep [] a = [a] := rfl
    rw [firsts, List.foldl_cons, List.foldl_cons, first, ih, ih [a], keep, List.filter_append,
      List.filter_filter]
    split
    case isTrue h =>
      rw [List.filter_cons_of_neg (by simpa using h), List.filter_nil, List.nil_append]
      refine congrArg _ <| List.filter_congr fun b _ => ?_
      have other : b ∉ state → b ≠ a := fun hb he => hb <| he ▸ h
      by_cases hb : b ∈ state <;> simp [hb]
      exact other hb
    case isFalse h =>
      rw [List.filter_cons_of_pos (by simpa using h), List.filter_nil, List.append_assoc]
      refine congrArg _ <| congrArg _ <| List.filter_congr fun b _ => ?_
      simp

theorem firsts_cons (a : α) (l : List α) : firsts (a :: l) = a :: (firsts l).filter (· ≠ a) := by
  rw [firsts, List.foldl_cons, foldl_keep, keep, if_neg List.not_mem_nil]
  simp

theorem mem_firsts {a : α} {l : List α} : a ∈ firsts l ↔ a ∈ l := by
  induction l
  case nil         => simp [firsts]
  case cons b l ih =>
    rw [firsts_cons, List.mem_cons, List.mem_cons, List.mem_filter, ih]
    by_cases h : a = b <;> simp [h]

theorem firsts_nodup (l : List α) : (firsts l).Nodup := by
  induction l
  case nil         => simp [firsts]
  case cons a l ih =>
    rw [firsts_cons]
    exact List.nodup_cons.mpr ⟨by simp, ih.filter _⟩

-- A new entry of the log moves its element to the front.
theorem firsts_cons_erase (a : α) (l : List α) : firsts (a :: l) = a :: (firsts l).erase a := by
  rw [firsts_cons, (firsts_nodup l).erase_eq_filter]
  exact congrArg _ <| List.filter_congr fun b _ => by by_cases h : b = a <;> simp [h]

end Recency
