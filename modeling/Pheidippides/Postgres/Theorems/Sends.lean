import Pheidippides.Postgres.Sends
import Pheidippides.Postgres.Theorems.History
import Pheidippides.Postgres.Theorems.Messages

namespace Pheidippides

namespace PostgresDb

variable {db : PostgresDb} {u : UserId} {s m : Message} {res : List Message}

theorem mem_fetchUsersMessagesSince (hs : s ∈ db.messages)
    (h : db.FetchUsersMessagesSince u s.id res) :
    m ∈ res ↔ m ∈ db.messages ∧ m.Concerns u ∧ rowKey s < rowKey m := by
  rw [FetchUsersMessagesSince, timestampOf_eq hs] at h
  rw [h.left.mem_iff, rowsSince, List.mem_filter, Bool.and_eq_true, decide_eq_true_iff,
    decide_eq_true_iff]
  rfl

theorem exists_fetchUsersMessagesSince (db : PostgresDb) (u : UserId) (s : MessageId) :
    ∃ res, db.FetchUsersMessagesSince u s res := by
  simp only [FetchUsersMessagesSince]
  split
  case h_1     => exact ⟨_, rfl⟩
  case h_2 t _ =>
    have ⟨order, perm, sorted⟩ :=
      Paging.exists_descending (fun m => OrderDual.toDual m.timestamp) (db.rowsSince u t s)
    exact ⟨order, perm, sorted⟩

end PostgresDb

namespace PostgresSends

open PostgresDb

variable {w w₁ : PostgresSends} {u : UserId} {s m : Message} {e : Event}

-- A step inserts a row or leaves the table alone.
theorem step_messages (w : PostgresSends) (e : Event) :
    (∃ m, w.Commits e m ∧ (w.step e).db.messages = w.db.messages ++ [m]) ∨
      ((∀ m, ¬w.Commits e m) ∧ (w.step e).db.messages = w.db.messages) := by
  cases e
  case commit m =>
    rw [step, commit]
    split
    case isFalse h =>
      refine .inr ⟨?_, rfl⟩
      rintro _ ⟨m', hm, ⟨⟩, _⟩
      exact h hm
    case isTrue h =>
      have spec := w.db.createMessage_spec w.users m
      generalize w.db.createMessage w.users m = res at spec ⊢
      cases spec
      case created accepted fresh messages => exact .inl ⟨_, ⟨m, h, rfl, rfl, accepted, fresh⟩, messages⟩
      case failed hn =>
        refine .inr ⟨?_, rfl⟩
        rintro _ ⟨m', hm, ⟨⟩, rfl, inserted⟩
        exact hn inserted
  all_goals exact .inr ⟨by simp [Commits], rfl⟩

theorem Commits.fresh {row : Message} (h : w.Commits e row) : row.id ∉ w.db.messages.map (·.id) := by
  obtain ⟨m, _, _, rfl, _, fresh⟩ := h
  exact fresh

theorem Commits.unique {row row' : Message} (h : w.Commits e row) (h' : w.Commits e row') :
    row = row' := by
  obtain ⟨m, _, rfl, rfl, _⟩ := h
  obtain ⟨m', _, ⟨⟩, rfl, _⟩ := h'
  rfl

theorem exec_messages_subset (w : PostgresSends) (es : List Event) :
    w.db.messages ⊆ (system.exec w es).db.messages := by
  refine System.exec_induction (P := fun w' : PostgresSends => w.db.messages ⊆ w'.db.messages) es
    (List.Subset.refl _) fun w' e h => ?_
  obtain ⟨m, _, he⟩ | ⟨_, he⟩ := w'.step_messages e
  · exact he ▸ List.Subset.trans h (List.subset_append_left ..)
  · exact he ▸ h

theorem resumes_iff (w₁ : PostgresSends) (u : UserId) (hs : s ∈ w.db.messages) : w₁.Resumes w u s.id ↔
    ∀ m ∈ w.db.messages, m ∉ w₁.db.messages → m.Concerns u → rowKey s < rowKey m := by
  constructor
  case mp =>
    intro h m hm hn hu
    have ⟨res, hr⟩ := exists_fetchUsersMessagesSince w.db u s.id
    exact (mem_fetchUsersMessagesSince hs hr).mp (h hr m hm hn hu) |>.right.right
  case mpr =>
    intro h res hr m hm hn hu
    exact (mem_fetchUsersMessagesSince hs hr).mpr ⟨hm, hu, h m hm hn hu⟩

-- A fetch never misses what the user has got since a state in which the starting point was in the table
-- already, if and only if the messages that are inserted after that state are above the starting point.
theorem resumes_iff_along (es₁ es₂ : List Event) (hs : s ∈ (system.run es₁).db.messages) :
    (∀ es, es <+: es₂ → (system.run es₁).Resumes (system.run (es₁ ++ es)) u s.id) ↔
      system.Along (fun w e => ∀ m, w.Commits e m → m.Concerns u → rowKey s < rowKey m)
        (system.run es₁) es₂ := by
  simp only [System.run_append]
  generalize system.run es₁ = w₁ at hs
  have resumes (es : List Event) := resumes_iff w₁ u <| exec_messages_subset w₁ es hs
  simp only [resumes]
  constructor
  case mp =>
    intro h
    refine System.Along.iff_forall_split.mpr fun {a e b} he m hc hu => ?_
    obtain ⟨m', hc', hm⟩ | ⟨hn, _⟩ := (system.exec w₁ a).step_messages e
    · obtain rfl := hc.unique hc'
      refine h (a ++ [e]) ⟨b, by simp [he]⟩ m ?_ (fun hm => ?_) hu
      · rw [System.exec_append]
        exact hm ▸ by simp
      · exact hc.fresh <| List.mem_map_of_mem <| exec_messages_subset w₁ a hm
    · exact absurd hc <| hn m
  case mpr =>
    intro h es ⟨rest, hr⟩
    subst hr
    refine (System.Along.append.mp h).left.induction (P := fun w : PostgresSends =>
      ∀ m ∈ w.db.messages, m ∉ w₁.db.messages → m.Concerns u → rowKey s < rowKey m) ?_ ?_
    · exact fun m hm hn => absurd hm hn
    · intro w e hc ih m hm hn hu
      change m ∈ (w.step e).db.messages at hm
      obtain ⟨m', hc', he⟩ | ⟨_, he⟩ := w.step_messages e <;> rw [he] at hm
      · obtain hm | hm := List.mem_append.mp hm
        · exact ih m hm hn hu
        · cases List.mem_singleton.mp hm
          exact hc m hc' hu
      · exact ih m hm hn hu

-- The second message is stamped a microsecond after the first has been inserted.
theorem resumes_iff_along_example :
    let es : List Event :=
      [.user 1, .user 2, .stamp 10 1 2 "hello", .commit ⟨10, 1, 2, "hello", 0⟩]
    (system.run es).Resumes (system.run <| es ++
      [.clock 1000, .stamp 9 1 2 "hello", .commit ⟨9, 1, 2, "hello", 1000⟩]) 2 10 := by
  intro es
  refine (resumes_iff_along (s := ⟨10, 1, 2, "hello", 0⟩) es _ (by decide +kernel)).mpr ?_ _ List.prefix_rfl
  simp only [System.Along.cons, System.Along.nil, and_true]
  refine ⟨?_, ?_, ?_⟩
  all_goals
    rintro m ⟨m', _, ⟨⟩, rfl, _⟩
  decide

-- The second message is inserted before the first, and a reader goes on from there.
theorem not_resumes_of_overtaking :
    ¬∀ (es₁ es₂ : List Event) (u : UserId) (s : Message), s ∈ (system.run es₁).db.messages →
      s.Concerns u → (system.run es₁).Resumes (system.run (es₁ ++ es₂)) u s.id := by
  intro h
  let m : Message := ⟨10, 1, 2, "hello", 0⟩
  let s : Message := ⟨11, 1, 2, "hello", 1000⟩
  let es : List Event :=
    [.user 1, .user 2, .stamp 10 1 2 "hello", .clock 1000, .stamp 11 1 2 "hello", .commit s]
  have messages : (system.run <| es ++ [.commit m]).db.messages = [s, m] := by decide +kernel
  have fetch : (system.run <| es ++ [.commit m]).db.FetchUsersMessagesSince 2 s.id [] := by
    simp only [PostgresDb.FetchUsersMessagesSince, PostgresDb.timestampOf, PostgresDb.rowsSince, messages]
    exact ⟨.of_eq <| by decide, .nil⟩
  have mem := h es [.commit m] 2 s (by decide +kernel) (by decide) fetch m (messages ▸ by decide)
    (by decide +kernel) (by decide)
  exact absurd mem (by decide)

end PostgresSends
end Pheidippides
