import Mathlib.Data.List.Nodup
import Mathlib.Data.Prod.Lex
import Mathlib.Data.List.Sort

-- Pages of a table whose rows have a time and an id. A page holds the newest of the rows that remain,
-- and what remains after it are the rows below its last one. The order within a page is by the time
-- alone, and so leaves open how rows of the same time come, but "below" compares the ids as well.
namespace Paging

variable {α τ ι κ : Type*} [LinearOrder τ] [LinearOrder ι] [LinearOrder κ]

section Sorting

variable (f : α → κ)

def Descending (l : List α) : Prop :=
  l.Pairwise fun a b => f b ≤ f a

def sortDescending (l : List κ) : List κ :=
  l.mergeSort fun a b => decide (b ≤ a)

variable {f} {l₁ l₂ : List α}

theorem descending_mergeSort (f : α → κ) (l : List α) :
    Descending f (l.mergeSort fun a b => decide (f b ≤ f a)) := by
  have sorted := @List.pairwise_mergeSort _ (fun a b => decide (f b ≤ f a))
    (fun a b c hab hbc => by simpa using (of_decide_eq_true hbc).trans (of_decide_eq_true hab))
    (fun a b => by simpa using le_total (f b) (f a)) l
  exact sorted.imp of_decide_eq_true

theorem exists_descending (f : α → κ) (l : List α) :
    ∃ order : List α, order.Perm l ∧ Descending f order :=
  ⟨_, List.mergeSort_perm .., descending_mergeSort f l⟩

-- The order leaves no choice for the sequence of the values.
theorem Descending.map_eq (h : Descending f l₁) (perm : l₁.Perm l₂) :
    l₁.map f = sortDescending (l₂.map f) := by
  have sorted := descending_mergeSort (fun a => a) (l₂.map f)
  refine ((perm.map f).trans (List.mergeSort_perm ..).symm).eq_of_pairwise ?_ ?_ sorted
  · exact fun a b _ _ hab hba => le_antisymm hba hab
  · exact List.pairwise_map.mpr h

end Sorting

section PageEnds

variable {β : Type*} {n : Nat}

-- The elements of a list that are the last ones when it is cut into pieces of `n`.
def pageEnds (n : Nat) : List β → List β
  | []     => []
  | x :: l => (l.take (n - 1)).getLastD x :: pageEnds n (l.drop (n - 1))
termination_by l => l.length
decreasing_by rw [List.length_drop, List.length_cons]; omega

theorem pageEnds_eq {l : List β} {x : β} (h : (l.take n).getLast? = some x) :
    pageEnds n l = x :: pageEnds n (l.drop n) := by
  match l, n with
  | [], _          => simp at h
  | _, 0           => simp at h
  | y :: l, n + 1 =>
    rw [pageEnds]
    simp only [List.take_succ_cons, List.getLast?_cons, Option.some.injEq] at h
    simp [h, List.getLastD_eq_getLast?]

theorem pageEnds_subset (l : List β) : pageEnds n l ⊆ l := by
  match l with
  | []     => simp [pageEnds]
  | x :: l =>
    rw [pageEnds]
    refine List.cons_subset.mpr ⟨?_, fun y hy => ?_⟩
    · rw [List.getLastD_eq_getLast?]
      cases h : (l.take (n - 1)).getLast?
      case none   => exact List.mem_cons_self
      case some y => exact List.mem_cons_of_mem _ <| List.mem_of_mem_take <| List.mem_of_getLast? h
    · exact List.mem_cons_of_mem _ <| List.mem_of_mem_drop <| pageEnds_subset (l.drop (n - 1)) hy
termination_by l.length
decreasing_by rw [List.length_drop, List.length_cons]; omega

end PageEnds

variable (time : α → τ) (id : α → ι)

def key (a : α) : τ ×ₗ ι :=
  toLex (time a, id a)

-- What the database may answer if it is asked for `n` of the rows in the order of their times.
def IsPage (n : Nat) (rows page : List α) : Prop :=
  ∃ order : List α, order.Perm rows ∧ Descending time order ∧ page = order.take n

def below (rows : List α) (a : α) : List α :=
  rows.filter fun b => decide (key time id b < key time id a)

-- The pages until there is an empty one.
inductive Pages (n : Nat) : List α → List (List α) → Prop
  | done {rows : List α} : IsPage time n rows [] → Pages n rows []
  | more {rows page : List α} {a : α} {pages : List (List α)} : IsPage time n rows page →
    page.getLast? = some a → Pages n (below time id rows a) pages → Pages n rows (page :: pages)

variable {time id} {n : Nat} {rows page init tail : List α} {a b : α} {pages : List (List α)}

theorem pageEnds_sortDescending {order : List α} (perm : order.Perm rows)
    (sorted : Descending time order) (hl : (order.take n).getLast? = some a) :
    pageEnds n (sortDescending <| rows.map time) =
      time a :: pageEnds n (sortDescending <| (order.drop n).map time) := by
  have sortedTail : Descending time (order.drop n) := List.Pairwise.sublist (List.drop_sublist ..) sorted
  rw [← sorted.map_eq perm, ← sortedTail.map_eq (.refl _), List.map_drop]
  exact pageEnds_eq <| by simp [← List.map_take, hl]

-- How the rows fall apart at the end of a page.
theorem IsPage.cut (h : IsPage time n rows page) (hl : page.getLast? = some a) :
    ∃ init tail, page = init ++ [a] ∧ (page ++ tail).Perm rows ∧ Descending time (page ++ tail) ∧
      pageEnds n (sortDescending <| rows.map time) =
        time a :: pageEnds n (sortDescending <| tail.map time) := by
  obtain ⟨order, perm, sorted, rfl⟩ := h
  have ⟨init, hi⟩ := List.getLast?_eq_some_iff.mp hl
  refine ⟨init, order.drop n, hi, ?_, ?_, pageEnds_sortDescending perm sorted hl⟩
  all_goals rwa [List.take_append_drop]

theorem Descending.around {f : α → κ} (sorted : Descending f (init ++ [a] ++ tail)) :
    (∀ b ∈ init, f a ≤ f b) ∧ ∀ b ∈ tail, f b ≤ f a := by
  have ⟨_, _, h⟩ := List.pairwise_append.mp <| List.append_assoc .. ▸ sorted
  have ⟨_, _, h'⟩ := List.pairwise_append.mp sorted
  exact ⟨fun b hb => h b hb a <| by simp, fun b hb => h' a (by simp) b hb⟩

theorem key_lt_iff : key time id b < key time id a ↔
    time b < time a ∨ (time b = time a ∧ id b < id a) :=
  Prod.Lex.toLex_lt_toLex

theorem below_perm (perm : (init ++ [a] ++ tail).Perm rows)
    (hi : ∀ b ∈ init, ¬key time id b < key time id a) (ht : ∀ b ∈ tail, key time id b < key time id a) :
    (below time id rows a).Perm tail := by
  let p (b : α) := decide (key time id b < key time id a)
  have h₁ : init.filter p = [] := List.filter_eq_nil_iff.mpr (by simpa [p] using hi)
  have h₂ : tail.filter p = tail := List.filter_eq_self.mpr (by simpa [p] using ht)
  have hp : (init ++ [a] ++ tail).filter p = tail := by
    simp only [List.filter_append, h₁, h₂]
    simp [p]
  exact hp ▸ perm.symm.filter p

-- If no other row has the time of the last one of a page, then what remains is what was not on it.
theorem below_perm_of_alone (id : α → ι) (perm : (init ++ [a] ++ tail).Perm rows)
    (sorted : Descending time (init ++ [a] ++ tail)) (hi : time a ∉ init.map time)
    (ht : time a ∉ tail.map time) : (below time id rows a).Perm tail := by
  have ⟨before, after⟩ := sorted.around
  refine below_perm perm (fun b hb hlt => ?_) (fun b hb => ?_)
  · have hne : time b ≠ time a := fun h => hi <| h ▸ List.mem_map_of_mem hb
    obtain h | h := key_lt_iff.mp hlt
    · exact absurd (before b hb) h.not_ge
    · exact hne h.left
  · have hne : time b ≠ time a := fun h => ht <| h ▸ List.mem_map_of_mem hb
    exact key_lt_iff.mpr <| .inl <| lt_of_le_of_ne (after b hb) hne

theorem count_eq_one_iff (perm : (init ++ [a] ++ tail).Perm rows) :
    (rows.map time).count (time a) = 1 ↔ time a ∉ init.map time ∧ time a ∉ tail.map time := by
  rw [← (perm.map time).count_eq, ← List.count_eq_zero, ← List.count_eq_zero]
  simp only [List.map_append, List.count_append, List.map_cons, List.map_nil, List.count_singleton_self]
  omega

theorem sortDescending_congr {l₁ l₂ : List κ} (perm : l₁.Perm l₂) :
    sortDescending l₁ = sortDescending l₂ := by
  have h := (descending_mergeSort (fun a : κ => a) l₁).map_eq <| (List.mergeSort_perm ..).trans perm
  simpa [sortDescending] using h

theorem mem_sortDescending {l : List κ} {x : κ} : x ∈ sortDescending l ↔ x ∈ l :=
  List.mem_mergeSort

theorem IsPage.eq_nil (hn : 0 < n) (h : IsPage time n rows []) : rows = [] := by
  obtain ⟨order, perm, _, ht⟩ := h
  obtain ht | ht := List.take_eq_nil_iff.mp ht.symm
  · exact absurd ht hn.ne'
  · exact List.nil_perm.mp <| ht ▸ perm

-- Rows of different times come in only one order.
theorem IsPage.eq_of_ascending (times : rows.Pairwise (time · < time ·)) (h : IsPage time n rows page) :
    page = rows.reverse.take n := by
  obtain ⟨order, perm, sorted, rfl⟩ := h
  have nodup : (rows.map time).Nodup := List.pairwise_map.mpr <| times.imp ne_of_lt
  have reversed : Descending time rows.reverse := List.pairwise_reverse.mpr <| times.imp le_of_lt
  rw [(perm.trans rows.reverse_perm.symm).eq_of_pairwise (fun a b ha hb hab hba => ?_) sorted reversed]
  exact List.inj_on_of_nodup_map nodup (perm.subset ha) (List.mem_reverse.mp hb) <| le_antisymm hba hab

theorem isPage_of_ascending (n : Nat) (times : rows.Pairwise (time · < time ·)) :
    IsPage time n rows (rows.reverse.take n) :=
  ⟨_, rows.reverse_perm, List.pairwise_reverse.mpr <| times.imp le_of_lt, rfl⟩

theorem IsPage.subset (h : IsPage time n rows page) : page ⊆ rows := by
  obtain ⟨order, perm, _, rfl⟩ := h
  exact fun b hb => perm.subset <| List.mem_of_mem_take hb

theorem Pages.flatten_subset (h : Pages time id n rows pages) : pages.flatten ⊆ rows := by
  induction h
  case done => simp
  case more h _ _ ih =>
    rw [List.flatten_cons]
    exact List.append_subset.mpr ⟨h.subset, fun b hb => List.mem_of_mem_filter <| ih hb⟩

-- The pages have every row once, if nothing else has the time of the last row of a page.
theorem Pages.flatten_perm (hn : 0 < n) (h : Pages time id n rows pages)
    (alone : ∀ t ∈ pageEnds n (sortDescending <| rows.map time), (rows.map time).count t = 1) :
    pages.flatten.Perm rows := by
  induction h
  case done h => rw [h.eq_nil hn, List.flatten_nil]
  case more rows page a pages h hl _ ih =>
    obtain ⟨init, tail, rfl, perm, sorted, ends⟩ := h.cut hl
    rw [ends] at alone
    have ⟨hi, ht⟩ := (count_eq_one_iff perm).mp <| alone _ List.mem_cons_self
    have hb := below_perm_of_alone id perm sorted hi ht
    rw [sortDescending_congr <| hb.map time] at ih
    rw [List.flatten_cons]
    refine ((ih fun t h => ?_).trans hb).append_left _ |>.trans perm
    have mem := mem_sortDescending.mp <| pageEnds_subset _ h
    have once := alone t <| List.mem_cons_of_mem _ h
    have pos := List.count_pos_iff.mpr mem
    rw [← (perm.map time).count_eq, List.map_append, List.count_append] at once
    rw [(hb.map time).count_eq]
    omega

theorem Descending.time_of_key (h : Descending (key time id) rows) : Descending time rows :=
  h.imp fun h => (Prod.Lex.toLex_le_toLex.mp h).elim le_of_lt (·.left.le)

omit [LinearOrder ι] in
theorem id_ne_of_nodup (ids : ((init ++ [a] ++ tail).map id).Nodup) :
    (∀ b ∈ init, id b ≠ id a) ∧ ∀ b ∈ tail, id b ≠ id a := by
  simp only [List.map_append, List.map_cons, List.map_nil, List.append_assoc] at ids
  have ⟨_, h, hd⟩ := List.nodup_append.mp ids
  refine ⟨fun b hb => hd _ (List.mem_map_of_mem hb) _ (by simp), fun b hb he => ?_⟩
  exact (List.nodup_cons.mp h).left <| he ▸ List.mem_map_of_mem hb

theorem below_length_lt (time : α → τ) (id : α → ι) (h : a ∈ rows) :
    (below time id rows a).length < rows.length :=
  List.length_filter_lt_length_iff_exists.mpr ⟨a, h, by simp⟩

-- Every page but an empty one takes its last row out of what remains, so an empty one is reached.
theorem not_endless (time : α → τ) (id : α → ι) (rows : Nat → List α) (last : Nat → α) :
    ¬∀ k, last k ∈ rows k ∧ rows (k + 1) = below time id (rows k) (last k) := by
  intro h
  have shrinks (k : Nat) : (rows k).length + k ≤ (rows 0).length := by
    induction k
    case zero      => exact le_rfl
    case succ k ih =>
      have := below_length_lt time id (h k).left
      rw [(h k).right]
      omega
  have := shrinks ((rows 0).length + 1)
  omega

theorem exists_getLast? (hn : 0 < n) (h : rows ≠ []) : ∃ a, (rows.take n).getLast? = some a := by
  refine Option.isSome_iff_exists.mp <| List.getLast?_isSome.mpr fun ht => ?_
  exact (List.take_eq_nil_iff.mp ht).elim hn.ne' h

-- There is always a way to read the pages to the end in which every row comes once: the database may
-- break all ties by the id.
theorem exists_pages (hn : 0 < n) (ids : (rows.map id).Nodup) (time : α → τ) :
    ∃ pages, Pages time id n rows pages ∧ pages.flatten.Perm rows := by
  induction hr : rows.length using Nat.strong_induction_on generalizing rows
  subst hr
  rename_i ih
  have ⟨order, perm, sorted⟩ := exists_descending (key time id) rows
  by_cases hr : order = []
  case pos =>
    have hr : rows = [] := List.nil_perm.mp <| hr ▸ perm
    exact ⟨[], .done ⟨[], by simp [hr], .nil, by simp⟩, by simp [hr]⟩
  case neg =>
    have ⟨a, hl⟩ := exists_getLast? hn hr
    have ⟨init, hi⟩ := List.getLast?_eq_some_iff.mp hl
    have split : init ++ [a] ++ order.drop n = order := by rw [← hi, List.take_append_drop]
    have mem : a ∈ rows := perm.subset <| split ▸ by simp
    have ⟨before, after⟩ := Descending.around (split.symm ▸ sorted)
    have others := id_ne_of_nodup (split.symm ▸ (perm.map id).nodup_iff.mpr ids)
    have hb : (below time id rows a).Perm (order.drop n) := by
      refine below_perm (split.symm ▸ perm) (fun b hb => (before b hb).not_gt) (fun b hb => ?_)
      exact lt_of_le_of_ne (after b hb) fun he => others.right b hb (Prod.ext_iff.mp he).right
    have ⟨pages, h, flat⟩ := ih _ (below_length_lt time id mem)
      (ids.sublist <| List.filter_sublist.map _) rfl
    refine ⟨order.take n :: pages, .more ⟨order, perm, sorted.time_of_key, rfl⟩ hl h, ?_⟩
    rw [List.flatten_cons]
    exact ((flat.trans hb).append_left _).trans <| by rwa [List.take_append_drop]

-- Where times are tied the database may let the ids ascend. If that page and what remains make up the
-- rows, there are no ties with its last row: one before it would come again, one after it be lost.
theorem alone_of_ascending (ids : (rows.map id).Nodup) (perm : (init ++ [a] ++ tail).Perm rows)
    (sorted : Descending (fun b => toLex (time b, OrderDual.toDual (id b))) (init ++ [a] ++ tail))
    (complete : (init ++ [a] ++ below time id rows a).Perm rows) :
    time a ∉ init.map time ∧ time a ∉ tail.map time := by
  have nodup : rows.Nodup := ids.of_map _
  have disjoint := List.disjoint_of_nodup_append <| complete.nodup_iff.mpr nodup
  have disjoint' := List.disjoint_of_nodup_append <| perm.nodup_iff.mpr nodup
  have others := id_ne_of_nodup ((perm.map id).nodup_iff.mpr ids)
  have ⟨before, after⟩ := sorted.around
  constructor
  case left =>
    intro h
    have ⟨b, hb, ht⟩ := List.mem_map.mp h
    have le := before b hb
    simp only [Prod.Lex.toLex_le_toLex, ht, lt_irrefl, false_or, true_and,
      OrderDual.toDual_le_toDual] at le
    have lt : key time id b < key time id a :=
      key_lt_iff.mpr <| .inr ⟨ht, lt_of_le_of_ne le <| others.left b hb⟩
    have mem : b ∈ rows := perm.subset <| by simp [hb]
    exact disjoint (List.mem_append_left _ hb) <| by simp [below, mem, lt]
  case right =>
    intro h
    have ⟨b, hb, ht⟩ := List.mem_map.mp h
    have le := after b hb
    simp only [Prod.Lex.toLex_le_toLex, ht, lt_irrefl, false_or, true_and,
      OrderDual.toDual_le_toDual] at le
    have mem : b ∈ init ++ [a] ++ below time id rows a :=
      complete.symm.subset <| perm.subset <| List.mem_append_right _ hb
    have mem : b ∈ below time id rows a := (List.mem_append.mp mem).resolve_left (disjoint' · hb)
    have lt : key time id b < key time id a := by simpa using List.of_mem_filter mem
    obtain lt | ⟨_, lt⟩ := key_lt_iff.mp lt
    · exact lt.ne ht
    · exact le.not_gt lt

-- Reading the pages to the end brings every row once, whatever the database does, if and only if no
-- other row has the time of the last row of a page.
theorem flatten_perm_iff (hn : 0 < n) (ids : (rows.map id).Nodup) :
    (∀ pages, Pages time id n rows pages → pages.flatten.Perm rows) ↔
      ∀ t ∈ pageEnds n (sortDescending <| rows.map time), (rows.map time).count t = 1 := by
  refine ⟨fun complete => ?_, fun alone pages h => h.flatten_perm hn alone⟩
  induction hr : rows.length using Nat.strong_induction_on generalizing rows
  subst hr
  rename_i ih
  have ⟨order, perm, sorted⟩ := exists_descending (fun a => toLex (time a, OrderDual.toDual (id a))) rows
  by_cases hr : order = []
  case pos =>
    have hr : rows = [] := List.nil_perm.mp <| hr ▸ perm
    simp [hr, sortDescending, pageEnds]
  case neg =>
    have ⟨a, hl⟩ := exists_getLast? hn hr
    have sortedTime : Descending time order :=
      sorted.imp fun h => (Prod.Lex.toLex_le_toLex.mp h).elim le_of_lt (·.left.le)
    have page : IsPage time n rows (order.take n) := ⟨order, perm, sortedTime, rfl⟩
    have ⟨init, hi⟩ := List.getLast?_eq_some_iff.mp hl
    have split : init ++ [a] ++ order.drop n = order := by rw [← hi, List.take_append_drop]
    have ids' : ((below time id rows a).map id).Nodup := ids.sublist <| List.filter_sublist.map _
    -- What comes after this page is complete in turn, if it may come at all.
    have follow {pages} (h : Pages time id n (below time id rows a) pages) :
        (init ++ [a] ++ pages.flatten).Perm rows := by
      have hp := complete _ <| .more page hl h
      rwa [List.flatten_cons, hi] at hp
    have ⟨pages, h, flat⟩ := exists_pages hn ids' time
    have ⟨before, after⟩ := alone_of_ascending ids (split.symm ▸ perm) (split.symm ▸ sorted) <|
      (flat.append_left _).symm.trans <| follow h
    have hb := below_perm_of_alone id (split.symm ▸ perm) (split.symm ▸ sortedTime) before after
    have mem : a ∈ rows := perm.subset <| split ▸ by simp
    have rest := ih _ (below_length_lt time id mem) ids' (fun pages h => ?_) rfl
    · intro t ht
      rw [pageEnds_sortDescending perm sortedTime hl] at ht
      obtain rfl | ht := List.mem_cons.mp ht
      · exact (count_eq_one_iff (split.symm ▸ perm)).mpr ⟨before, after⟩
      · have once := rest t <| sortDescending_congr (hb.map time) ▸ ht
        have mem := mem_sortDescending.mp <| pageEnds_subset _ ht
        have around := Descending.around (split.symm ▸ sortedTime)
        have lt : t < time a := by
          obtain ⟨b, hb, rfl⟩ := List.mem_map.mp mem
          exact lt_of_le_of_ne (around.right b hb) fun he => after <| he ▸ mem
        have newer : t ∉ (init ++ [a]).map time := by
          simp only [List.map_append, List.mem_append, List.mem_map, not_or, List.map_cons,
            List.map_nil, List.mem_singleton]
          refine ⟨?_, lt.ne⟩
          rintro ⟨b, hb, rfl⟩
          exact (around.left b hb).not_gt lt
        rw [← (perm.map time).count_eq, ← split, List.map_append, List.count_append,
          List.count_eq_zero.mpr newer, Nat.zero_add, ← (hb.map time).count_eq]
        exact once
    · refine (List.perm_append_left_iff (init ++ [a])).mp <| (follow h).trans ?_
      exact perm.symm.trans <| split ▸ (hb.append_left _).symm

end Paging
