import Mathlib.Data.Finset.Max

-- Rows of a key and a value, grouped by the key.
namespace Grouping

variable {κ τ : Type*} [DecidableEq κ] [LinearOrder τ]

-- `select key, MAX(value) … group by key`
def groupMax (rows : List (κ × τ)) : List (κ × τ) :=
  (rows.filter fun row => ∀ row' ∈ rows, row'.1 = row.1 → row'.2 ≤ row.2).dedup

variable {rows : List (κ × τ)} {k : κ} {t : τ}

theorem mem_groupMax_iff : (k, t) ∈ groupMax rows ↔
    (k, t) ∈ rows ∧ ∀ t', (k, t') ∈ rows → t' ≤ t := by
  rw [groupMax, List.mem_dedup, List.mem_filter, decide_eq_true_iff]
  refine and_congr_right fun _ => ⟨fun h t' ht => h _ ht rfl, ?_⟩
  rintro h ⟨k', t'⟩ ht ⟨⟩
  exact h t' ht

theorem groupMax_nodup (rows : List (κ × τ)) : ((groupMax rows).map (·.1)).Nodup := by
  refine (List.nodup_dedup _).map_on ?_
  rintro ⟨k, t⟩ h ⟨k', t'⟩ h' ⟨⟩
  have ⟨mem, max⟩ := mem_groupMax_iff.mp h
  have ⟨mem', max'⟩ := mem_groupMax_iff.mp h'
  rw [le_antisymm (max' t mem) (max t' mem')]

theorem exists_mem_groupMax (h : (k, t) ∈ rows) : ∃ t', (k, t') ∈ groupMax rows := by
  have group : (rows.filter (·.1 = k)).toFinset.Nonempty := ⟨(k, t), by simpa using h⟩
  obtain ⟨⟨k', t'⟩, mem, max⟩ := Finset.exists_max_image _ Prod.snd group
  obtain ⟨row, rfl⟩ : (k', t') ∈ rows ∧ k' = k := by simpa using mem
  exact ⟨t', mem_groupMax_iff.mpr ⟨row, fun u hu => max (k', u) <| by simpa using hu⟩⟩

theorem le_groupMax (h : (k, t) ∈ rows) : ∃ t', (k, t') ∈ groupMax rows ∧ t ≤ t' := by
  obtain ⟨t', mem⟩ := exists_mem_groupMax h
  exact ⟨t', mem, (mem_groupMax_iff.mp mem).right t h⟩

-- Rows may be grouped in parts first.
theorem mem_groupMax_union_iff {rows₁ rows₂ : List (κ × τ)} :
    (k, t) ∈ groupMax (groupMax rows₁ ++ groupMax rows₂).dedup ↔
      (k, t) ∈ groupMax (rows₁ ++ rows₂) := by
  have of_mem {row : κ × τ} {rows : List (κ × τ)} (h : row ∈ groupMax rows) : row ∈ rows :=
    (mem_groupMax_iff.mp h).left
  rw [mem_groupMax_iff, mem_groupMax_iff]
  simp only [List.mem_dedup, List.mem_append]
  constructor
  case mp =>
    rintro ⟨mem, max⟩
    refine ⟨mem.imp of_mem of_mem, fun t' ht => ?_⟩
    obtain ht | ht := ht
    · obtain ⟨t'', mem', le⟩ := le_groupMax ht
      exact le.trans <| max t'' <| .inl mem'
    · obtain ⟨t'', mem', le⟩ := le_groupMax ht
      exact le.trans <| max t'' <| .inr mem'
  case mpr =>
    rintro ⟨mem, max⟩
    refine ⟨mem.imp ?_ ?_, fun t' ht => max t' <| ht.imp of_mem of_mem⟩
    · exact fun h => mem_groupMax_iff.mpr ⟨h, fun t' ht => max t' <| .inl ht⟩
    · exact fun h => mem_groupMax_iff.mpr ⟨h, fun t' ht => max t' <| .inr ht⟩

end Grouping
