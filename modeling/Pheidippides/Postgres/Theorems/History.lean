import Pheidippides.Postgres.Db

open Paging

namespace Pheidippides.PostgresDb

variable {db : PostgresDb} {u v : UserId} {m : Message} {startingPoint : Option MessageId}
  {pages : List (List Message)}

theorem timestampOf_eq (hm : m ∈ db.messages) : db.timestampOf m.id = some m.timestamp := by
  obtain ⟨m', h⟩ : ∃ m', db.messages.find? (·.id == m.id) = some m' :=
    Option.isSome_iff_exists.mp <| List.find?_isSome.mpr ⟨m, hm, by simp⟩
  have he : m'.id = m.id := by simpa using List.find?_some h
  cases List.inj_on_of_nodup_map db.messagesPkey (List.mem_of_find?_eq_some h) hm he
  rw [timestampOf, h, Option.map_some]

-- Going on from a message of a page means going on with the rows below it.
theorem chatRows_some (hm : m ∈ db.chatRows u v startingPoint) :
    db.chatRows u v (some m.id) =
      below Message.timestamp Message.id (db.chatRows u v startingPoint) m := by
  have ⟨mem, hs⟩ := List.mem_filter.mp hm
  have before {m' : Message} (lt : rowKey m' < rowKey m) :
      db.beforeStartingPoint startingPoint m' := by
    have hs := (Bool.and_eq_true_iff.mp hs).right
    unfold beforeStartingPoint at hs ⊢
    split at hs
    · rfl
    · split at hs
      · rfl
      · exact decide_eq_true <| lt.trans <| of_decide_eq_true hs
  rw [below, chatRows, chatRows, List.filter_filter]
  refine List.filter_congr fun m' _ => ?_
  have hk : db.beforeStartingPoint (some m.id) m' = decide (rowKey m' < rowKey m) := by
    rw [beforeStartingPoint, timestampOf_eq mem]
    rfl
  rw [hk]
  by_cases lt : rowKey m' < rowKey m
  · simp [lt, before lt]
  · simp [lt]

theorem history_iff_pages : db.History u v startingPoint pages ↔
    Pages Message.timestamp Message.id messageLoadBufSize (db.chatRows u v startingPoint) pages := by
  constructor
  case mp =>
    intro h
    induction h
    case done h         => exact .done h
    case more h hl _ ih =>
      refine .more h hl ?_
      rwa [← chatRows_some <| h.subset <| List.mem_of_getLast? hl]
  case mpr =>
    intro h
    generalize hr : db.chatRows u v startingPoint = rows at h
    induction h generalizing startingPoint
    case done h =>
      subst hr
      exact .done h
    case more h hl _ ih =>
      subst hr
      exact .more h hl <| ih <| chatRows_some <| h.subset <| List.mem_of_getLast? hl

-- No sequence of answers goes on for ever.
theorem exists_page_eq_nil (page : Nat → List Message) (next : Nat → Option MessageId)
    (fetch : ∀ k, db.FetchLastMessagesInChat u v (next k) (page k))
    (go : ∀ k, next (k + 1) = (page k).getLast?.map (·.id)) : ∃ k, page k = [] := by
  by_contra hn
  have hn (k : Nat) : page k ≠ [] := fun h => hn ⟨k, h⟩
  refine not_endless Message.timestamp Message.id
    (fun k => db.chatRows u v (next k)) (fun k => (page k).getLast (hn k)) fun k => ?_
  have mem := (fetch k).subset <| List.getLast_mem (hn k)
  refine ⟨mem, ?_⟩
  rw [go k, List.getLast?_eq_some_getLast (hn k)]
  exact chatRows_some mem

theorem chatRows_none : db.chatRows u v none = db.messages.filter (·.Between u v) := by
  simp [chatRows, beforeStartingPoint]

-- The pages have every message of the chat once, whatever order the database chooses for ties, if and
-- only if the last message of each page is the only one in the chat with its timestamp. In any case
-- there is an end of them.
theorem history_complete_iff (db : PostgresDb) (u v : UserId) :
    ((∀ pages, db.History u v none pages →
      ∀ m ∈ db.messages, m.Between u v → pages.flatten.count m = 1) ↔
    ∀ t ∈ pageEnds messageLoadBufSize
        (sortDescending <| (db.messages.filter (·.Between u v)).map (·.timestamp)),
      ((db.messages.filter (·.Between u v)).map (·.timestamp)).count t = 1) ∧
    ∀ (page : Nat → List Message) (next : Nat → Option MessageId),
      (∀ k, db.FetchLastMessagesInChat u v (next k) (page k)) →
      (∀ k, next (k + 1) = (page k).getLast?.map (·.id)) → ∃ k, page k = [] := by
  refine ⟨?_, exists_page_eq_nil⟩
  have ids : ((db.messages.filter (·.Between u v)).map (·.id)).Nodup :=
    db.messagesPkey.sublist <| List.filter_sublist.map _
  rw [← flatten_perm_iff (by decide) ids]
  refine forall_congr' fun pages => ?_
  rw [history_iff_pages, chatRows_none]
  refine imp_congr_right fun h => ?_
  have nodup := ids.of_map _
  constructor
  case mp =>
    intro once
    refine List.perm_iff_count.mpr fun m => ?_
    by_cases hm : m ∈ db.messages.filter (·.Between u v)
    · have ⟨mem, hb⟩ := List.mem_filter.mp hm
      rw [once m mem (of_decide_eq_true hb), List.count_eq_one_of_mem nodup hm]
    · rw [List.count_eq_zero_of_not_mem hm, List.count_eq_zero_of_not_mem (hm <| h.flatten_subset ·)]
  case mpr =>
    intro perm m mem hb
    rw [perm.count_eq, List.count_eq_one_of_mem nodup <| List.mem_filter.mpr ⟨mem, decide_eq_true hb⟩]

-- Two messages of one timestamp on the first page, the one with the smaller id in front.
theorem not_history_complete :
    ¬∀ (db : PostgresDb) (u v : UserId) (pages : List (List Message)), db.History u v none pages →
      ∀ m ∈ db.messages, m.Between u v → pages.flatten.count m = 1 := by
  intro complete
  let m (id : MessageId) : Message := ⟨id, 1, 2, "hello", 0⟩
  let db : PostgresDb := ⟨[m 10, m 11], by decide⟩
  have history : db.History 1 2 none [[m 10, m 11], [m 10]] := by
    refine .more (m := m 11) ⟨[m 10, m 11], ?_, by simp [Descending, m], rfl⟩ rfl ?_
    · exact .of_eq <| by decide
    refine .more (m := m 10) ⟨[m 10], ?_, by simp [Descending], rfl⟩ rfl ?_
    · exact .of_eq <| by decide
    exact .done ⟨[], .of_eq <| by decide, .nil, rfl⟩
  exact absurd (complete db 1 2 _ history (m 10) (by decide) (by decide)) (by decide)

end Pheidippides.PostgresDb
