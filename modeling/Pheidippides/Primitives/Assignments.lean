import Mathlib.Logic.Function.Basic

-- Pairs which are put into a map one after the other.
namespace Assignments

variable {κ ν : Type*}

-- No later pair of the list is for the key.
def IsLast (pairs : List (κ × ν)) (k : κ) (v : ν) : Prop :=
  ∃ before after, pairs = before ++ (k, v) :: after ∧ k ∉ after.map (·.1)

theorem isLast_cons_iff {pair : κ × ν} {pairs : List (κ × ν)} {k : κ} {v : ν} :
    IsLast (pair :: pairs) k v ↔ IsLast pairs k v ∨ (pair = (k, v) ∧ k ∉ pairs.map (·.1)) := by
  constructor
  case mp =>
    rintro ⟨before, after, h, last⟩
    cases before
    case nil =>
      obtain ⟨rfl, rfl⟩ := List.cons.inj h
      exact .inr ⟨rfl, last⟩
    case cons =>
      obtain ⟨rfl, rfl⟩ := List.cons.inj h
      exact .inl ⟨_, after, rfl, last⟩
  case mpr =>
    rintro (⟨before, after, rfl, last⟩ | ⟨rfl, last⟩)
    · exact ⟨pair :: before, after, rfl, last⟩
    · exact ⟨[], pairs, rfl, last⟩

variable [DecidableEq κ]

def assign (map : κ → Option ν) (pair : κ × ν) : κ → Option ν :=
  Function.update map pair.1 (some pair.2)

theorem foldl_assign_eq_some_iff {pairs : List (κ × ν)} {map : κ → Option ν} {k : κ} {v : ν} :
    pairs.foldl assign map k = some v ↔
      IsLast pairs k v ∨ (k ∉ pairs.map (·.1) ∧ map k = some v) := by
  induction pairs generalizing map
  case nil => simp [IsLast]
  case cons pair pairs ih =>
    rw [List.foldl_cons, ih, isLast_cons_iff, or_assoc]
    refine or_congr_right ?_
    rw [assign, Function.update_apply, List.map_cons, List.mem_cons, not_or]
    split
    case isTrue h  => cases pair; cases h; simp [and_comm]
    case isFalse h =>
      have other : pair ≠ (k, v) := fun he => h <| he ▸ rfl
      simp [other, h]

-- Each key of the list has the last of its values, and there are no other keys.
theorem collect_eq_some_iff {pairs : List (κ × ν)} {k : κ} {v : ν} :
    pairs.foldl assign (fun _ => none) k = some v ↔ IsLast pairs k v := by
  simp [foldl_assign_eq_some_iff]

end Assignments
