import Pheidippides.Postgres.Agreement
import Pheidippides.Postgres.Theorems.History
import Pheidippides.Postgres.Theorems.Messages
import Pheidippides.Objects.Theorems.Messages

open Paging Pheidippides.Chronology Pheidippides.Postgres

namespace Pheidippides

variable {userIds : List UserId} {messages : List Message} {u v : UserId}
  {startingPoint : Option MessageId} {s m : Message}

-- Rows of messages which are a microsecond apart come in the order of the messages.
section

variable (times : messages.Pairwise (microseconds ·.timestamp < microseconds ·.timestamp))

include times

theorem times_of_microseconds : messages.Pairwise (·.timestamp < ·.timestamp) :=
  times.imp lt_of_microseconds

theorem times_map_row : (messages.map Message.row).Pairwise (·.timestamp < ·.timestamp) :=
  List.pairwise_map.mpr <| times.imp Message.timestamp_row_lt_iff.mpr

theorem row_lt_iff (hm : m ∈ messages) (hs : s ∈ messages) :
    m.row.timestamp < s.row.timestamp ↔ m.timestamp < s.timestamp := by
  rw [Message.timestamp_row_lt_iff]
  refine ⟨lt_of_microseconds, fun lt => lt_of_le_of_ne (microseconds_le lt.le) fun he => ?_⟩
  have alone := List.pairwise_map.mpr <| times.imp ne_of_lt
  exact lt.ne <| congrArg _ <| List.inj_on_of_nodup_map alone hm hs he

theorem before_row_iff (hm : m ∈ messages) :
    Before (messages.map Message.row) startingPoint m.row ↔ Before messages startingPoint m := by
  simp only [Before, List.mem_map, exists_exists_and_eq_and]
  refine forall₂_congr fun startingId _ => exists_congr fun s => and_congr_right fun hs => ?_
  exact and_congr_right fun _ => row_lt_iff times hm hs

theorem newestBefore_map_row :
    newestBefore (messages.map Message.row) u v startingPoint =
      (newestBefore messages u v startingPoint).map Message.row := by
  rw [newestBefore, newestBefore, List.map_take, List.map_reverse, List.filter_map]
  congr 3
  refine List.filter_congr fun m hm => decide_eq_decide.mpr ?_
  exact and_congr_right fun _ => before_row_iff times hm

theorem allSince_map_row {startingId : MessageId} :
    allSince (messages.map Message.row) u startingId = (allSince messages u startingId).map Message.row := by
  rw [allSince, allSince, List.filter_map]
  congr 1
  refine List.filter_congr fun m hm => decide_eq_decide.mpr <| and_congr_right fun _ => ?_
  simp only [List.mem_map, exists_exists_and_eq_and]
  refine exists_congr fun s => and_congr_right fun hs => and_congr_right fun _ => ?_
  exact row_lt_iff times hs hm

end

-- What comes after a message in the reversed list is what is older than it.
theorem skipPast_reverse_eq (ids : (messages.map (·.id)).Nodup)
    (times : messages.Pairwise (·.timestamp < ·.timestamp)) (hs : s ∈ messages) :
    messages.reverse.skipPast (·.id == s.id) =
      (messages.filter (·.timestamp < s.timestamp)).reverse := by
  obtain ⟨l, r, rfl⟩ := List.append_of_mem hs
  have ⟨_, after, before⟩ := List.pairwise_append.mp times
  have ⟨after, _⟩ := List.pairwise_cons.mp after
  have older : l.filter (·.timestamp < s.timestamp) = l :=
    List.filter_eq_self.mpr fun m hm => decide_eq_true <| before m hm s List.mem_cons_self
  have newer : r.filter (·.timestamp < s.timestamp) = [] :=
    List.filter_eq_nil_iff.mpr fun m hm => by simpa using (after m hm).le
  rw [MockDb.skipPast_reverse ids, List.filter_append, older, List.filter_cons_of_neg (by simp), newer,
    List.append_nil]

-- There is but one message with an id.
theorem exists_with_id_iff (ids : (messages.map (·.id)).Nodup) (hs : s ∈ messages)
    {p : Message → Prop} : (∃ s' ∈ messages, s'.id = s.id ∧ p s') ↔ p s := by
  constructor
  case mp =>
    rintro ⟨s', hs', he, h⟩
    exact List.inj_on_of_nodup_map ids hs' hs he ▸ h
  case mpr => exact fun h => ⟨s, hs, rfl, h⟩

theorem before_some_iff (ids : (messages.map (·.id)).Nodup) (hs : s ∈ messages) :
    Before messages (some s.id) m ↔ m.timestamp < s.timestamp := by
  simp only [Before, Option.mem_some_iff, forall_eq']
  exact exists_with_id_iff ids hs

theorem not_before_some {startingId : MessageId} (h : startingId ∉ messages.map (·.id)) :
    ¬Before messages (some startingId) m := by
  intro hb
  have ⟨s, hs, he, _⟩ := hb startingId rfl
  exact h <| he ▸ List.mem_map_of_mem hs

theorem newestBefore_of_unknown {startingId : MessageId} (h : startingId ∉ messages.map (·.id)) :
    newestBefore messages u v (some startingId) = [] := by
  simp [newestBefore, not_before_some h]

-- The in-memory store answers with the messages before the starting point.
theorem lastMessagesInChat_eq (ids : (messages.map (·.id)).Nodup)
    (times : messages.Pairwise (·.timestamp < ·.timestamp)) :
    MockDb.lastMessagesInChat messages u v startingPoint = newestBefore messages u v startingPoint := by
  cases startingPoint
  case none =>
    rw [MockDb.lastMessagesInChat_none, newestBefore, List.filter_reverse]
    simp [Before]
  case some startingId =>
    rw [MockDb.lastMessagesInChat_some]
    by_cases h : startingId ∈ messages.map (·.id)
    case neg =>
      have unknown : ∀ m ∈ messages.reverse, ¬(m.id == startingId) := fun m hm he =>
        h <| eq_of_beq he ▸ List.mem_map_of_mem (List.mem_reverse.mp hm)
      rw [List.skipPast_of_forall_not unknown, newestBefore_of_unknown h]
      rfl
    case pos =>
      obtain ⟨s, hs, rfl⟩ := List.mem_map.mp h
      rw [skipPast_reverse_eq ids times hs, newestBefore, List.filter_reverse, List.filter_filter]
      simp [before_some_iff ids hs]

namespace PostgresDb

variable {db : PostgresDb}

theorem timestampOf_of_unknown {startingId : MessageId} (h : startingId ∉ db.messages.map (·.id)) :
    db.timestampOf startingId = none := by
  rw [timestampOf, Option.map_eq_none_iff, List.find?_eq_none]
  exact fun m hm he => h <| eq_of_beq he ▸ List.mem_map_of_mem hm

-- For a starting point it knows, so does Postgres.
theorem chatRows_eq (times : db.messages.Pairwise (·.timestamp < ·.timestamp))
    (known : ∀ startingId ∈ startingPoint, startingId ∈ db.messages.map (·.id)) :
    db.chatRows u v startingPoint =
      db.messages.filter fun m => m.Between u v ∧ Before db.messages startingPoint m := by
  refine List.filter_congr fun m hm => ?_
  rw [Bool.decide_and]
  congr 1
  cases startingPoint
  case none => simp [beforeStartingPoint, Before]
  case some startingId =>
    obtain ⟨s, hs, rfl⟩ := List.mem_map.mp <| known startingId rfl
    simp only [beforeStartingPoint, timestampOf_eq hs, before_some_iff db.messagesPkey hs]
    refine decide_eq_decide.mpr <| (key_lt_iff (a := s)).trans <| or_iff_left ?_
    rintro ⟨ht, lt⟩
    have alone := List.pairwise_map.mpr <| times.imp ne_of_lt
    exact lt.ne <| congrArg _ <| List.inj_on_of_nodup_map alone hm hs ht

-- Otherwise it answers as if there were none.
theorem chatRows_of_unknown {startingId : MessageId} (h : startingId ∉ db.messages.map (·.id)) :
    db.chatRows u v (some startingId) = db.messages.filter (·.Between u v) := by
  simp [chatRows, beforeStartingPoint, timestampOf_of_unknown h]

-- The answers of Postgres are the messages before the starting point if and only if it knows that one,
-- or there is nothing in the chat anyway.
theorem newestBefore_iff (times : db.messages.Pairwise (·.timestamp < ·.timestamp)) :
    (∀ res, db.FetchLastMessagesInChat u v startingPoint res →
      res = newestBefore db.messages u v startingPoint) ↔
    (∀ startingId ∈ startingPoint, startingId ∈ db.messages.map (·.id)) ∨
      ∀ m ∈ db.messages, ¬m.Between u v := by
  constructor
  case mp =>
    intro h
    by_contra hn
    simp only [not_or, not_forall, exists_prop, not_not] at hn
    obtain ⟨⟨startingId, rfl, unknown⟩, m, hm, between⟩ := hn
    have rows := db.chatRows_of_unknown unknown (u := u) (v := v)
    have ascending : (db.chatRows u v (some startingId)).Pairwise (·.timestamp < ·.timestamp) :=
      times.filter _
    have page := h _ <| isPage_of_ascending messageLoadBufSize ascending
    rw [newestBefore_of_unknown unknown, rows, List.take_eq_nil_iff, List.reverse_eq_nil_iff] at page
    have empty := page.resolve_left <| by decide
    exact List.filter_eq_nil_iff.mp empty m hm <| decide_eq_true between
  case mpr =>
    rintro (known | empty) res hr
    · have rows := chatRows_eq (u := u) (v := v) times known
      rw [FetchLastMessagesInChat, rows] at hr
      rw [hr.eq_of_ascending <| times.filter _]
      rfl
    · have rows : db.chatRows u v startingPoint = [] := by
        simpa [chatRows] using fun m hm between => absurd between <| empty m hm
      rw [FetchLastMessagesInChat, rows] at hr
      rw [List.subset_nil.mp hr.subset, newestBefore]
      simpa using .inr fun m hm between => absurd between <| empty m hm

end PostgresDb

-- The two stores agree on a chat, up to what is less than a microsecond, for messages which Postgres
-- accepts and whose times it can tell apart.
theorem lastMessages_agree (accepted : ∀ m ∈ messages, PostgresDb.Accepts userIds m)
    (ids : (messages.map (·.id)).Nodup)
    (times : messages.Pairwise (microseconds ·.timestamp < microseconds ·.timestamp))
    (known : (∀ startingId ∈ startingPoint, startingId ∈ messages.map (·.id)) ∨
      ∀ m ∈ messages, ¬m.Between u v) :
    ∃ db, PostgresDb.empty.createMessages userIds messages = .ok db ∧
      (MockDb.empty.createMessages messages).fetchLastMessagesInChat u v startingPoint =
        .ok (newestBefore messages u v startingPoint) ∧
      ∀ res, db.FetchLastMessagesInChat u v startingPoint res ↔
        res = (newestBefore messages u v startingPoint).map Message.row := by
  have ⟨db, created⟩ := @PostgresDb.exists_createMessages .empty userIds messages accepted ids
  have stored : db.messages = messages.map Message.row := PostgresDb.messages_createMessages created
  have times' : db.messages.Pairwise (·.timestamp < ·.timestamp) := stored ▸ times_map_row times
  have answer {res : List Message} (h : db.FetchLastMessagesInChat u v startingPoint res) :
      res = (newestBefore messages u v startingPoint).map Message.row := by
    rw [← newestBefore_map_row times, ← stored]
    refine (PostgresDb.newestBefore_iff times').mpr ?_ res h
    rw [stored, Message.map_id_row]
    exact known.imp_right fun empty => List.forall_mem_map.mpr empty
  refine ⟨db, created, ?_, fun res => ⟨answer, ?_⟩⟩
  · rw [MockDb.fetchLastMessagesInChat, MockDb.messages_createMessages rfl,
      ← lastMessagesInChat_eq ids <| times_of_microseconds times]
    rfl
  · rintro rfl
    have page := isPage_of_ascending messageLoadBufSize <|
      times'.filter fun m => decide (m.Between u v) && db.beforeStartingPoint startingPoint m
    exact answer page ▸ page

-- A starting point in another chat, and times between the microseconds.
theorem lastMessages_agree_example :
    let messages : List Message :=
      [⟨10, 1, 2, "hello", 1⟩, ⟨11, 2, 1, "hi", 1002⟩, ⟨12, 3, 2, "hey", 2003⟩]
    ∃ db, PostgresDb.empty.createMessages [1, 2, 3] messages = .ok db ∧
      (MockDb.empty.createMessages messages).fetchLastMessagesInChat 1 2 (some 12) =
        .ok [⟨11, 2, 1, "hi", 1002⟩, ⟨10, 1, 2, "hello", 1⟩] ∧
      ∀ res, db.FetchLastMessagesInChat 1 2 (some 12) res ↔
        res = [⟨11, 2, 1, "hi", 1000⟩, ⟨10, 1, 2, "hello", 0⟩] := by
  intro messages
  exact @lastMessages_agree [1, 2, 3] messages 1 2 (some 12) (by decide) (by decide) (by decide)
    (.inl <| by decide)

-- A message to nobody, and two messages within a microsecond, of which the database takes the one with
-- the smaller id for the older one.
theorem not_lastMessages_agree :
    let m : Message  := ⟨11, 1, 2, "hello", 0⟩
    let m' : Message := ⟨10, 2, 1, "hi", 1⟩
    (PostgresDb.empty.createMessages [1] [m] = .error .foreignKeyViolation ∧
      (MockDb.empty.createMessages [m]).fetchLastMessagesInChat 1 2 none = .ok [m]) ∧
    ∃ db, PostgresDb.empty.createMessages [1, 2] [m, m'] = .ok db ∧
      db.FetchLastMessagesInChat 1 2 (some 10) [] ∧
      (MockDb.empty.createMessages [m, m']).fetchLastMessagesInChat 1 2 (some 10) = .ok [m] := by
  intro m m'
  refine ⟨⟨by decide +kernel, by decide +kernel⟩, ⟨[m.row, m'.row], by decide⟩, by decide +kernel, ?_,
    by decide +kernel⟩
  exact ⟨[], .of_eq <| by decide, .nil, rfl⟩

theorem allSince_eq (ids : (messages.map (·.id)).Nodup) (hs : s ∈ messages) :
    allSince messages u s.id =
      messages.filter fun m => m.Concerns u ∧ s.timestamp < m.timestamp := by
  refine List.filter_congr fun m _ => decide_eq_decide.mpr <| and_congr_right fun _ => ?_
  exact exists_with_id_iff ids hs

theorem allSince_of_unknown {startingId : MessageId} (h : startingId ∉ messages.map (·.id)) :
    allSince messages u startingId = [] := by
  refine List.filter_eq_nil_iff.mpr fun m _ => ?_
  simp only [decide_eq_true_iff]
  rintro ⟨_, s, hs, rfl, _⟩
  exact h <| List.mem_map_of_mem hs

-- The in-memory store answers with what comes after the starting point.
theorem usersMessagesSince_eq_allSince (ids : (messages.map (·.id)).Nodup)
    (times : messages.Pairwise (·.timestamp < ·.timestamp)) (startingId : MessageId) :
    MockDb.usersMessagesSince messages u startingId = allSince messages u startingId := by
  rw [MockDb.usersMessagesSince_eq]
  by_cases h : startingId ∈ messages.map (·.id)
  case neg =>
    have unknown : ∀ m ∈ messages, ¬(m.id == startingId) := fun m hm he =>
      h <| eq_of_beq he ▸ List.mem_map_of_mem hm
    rw [List.skipPast_of_forall_not unknown, allSince_of_unknown h, List.filter_nil]
  case pos =>
    obtain ⟨s, hs, rfl⟩ := List.mem_map.mp h
    rw [allSince_eq ids hs]
    obtain ⟨l, r, rfl⟩ := List.append_of_mem hs
    have ⟨_, after, before⟩ := List.pairwise_append.mp times
    have ⟨after, _⟩ := List.pairwise_cons.mp after
    have other : ∀ m ∈ l, ¬(m.id == s.id) := fun m hm he => by
      have lt := before m hm s List.mem_cons_self
      exact lt.ne <| congrArg _ <| List.inj_on_of_nodup_map ids (by simp [hm]) hs <| eq_of_beq he
    have older : l.filter (fun m => m.Concerns u ∧ s.timestamp < m.timestamp) = [] :=
      List.filter_eq_nil_iff.mpr fun m hm => by simp [(before m hm s List.mem_cons_self).le]
    rw [List.skipPast_append_of_forall_not other, List.skipPast_cons, if_pos (by simp),
      List.filter_append, older, List.filter_cons_of_neg (by simp), List.nil_append]
    exact List.filter_congr fun m hm => by simp [after m hm]

namespace PostgresDb

variable {db : PostgresDb}

-- So does Postgres, whose rows come in the order of their times.
theorem fetchUsersMessagesSince_iff (times : db.messages.Pairwise (·.timestamp < ·.timestamp))
    {startingId : MessageId} {res : List Message} :
    db.FetchUsersMessagesSince u startingId res ↔ res = allSince db.messages u startingId := by
  rw [FetchUsersMessagesSince]
  by_cases h : startingId ∈ db.messages.map (·.id)
  case neg => rw [timestampOf_of_unknown h, allSince_of_unknown h]
  case pos =>
    obtain ⟨s, hs, rfl⟩ := List.mem_map.mp h
    have rows : db.rowsSince u s.timestamp s.id = allSince db.messages u s.id := by
      rw [allSince_eq db.messagesPkey hs]
      refine List.filter_congr fun m hm => ?_
      rw [Bool.decide_and]
      congr 1
      refine decide_eq_decide.mpr <| (key_lt_iff (a := m) (b := s)).trans <| or_iff_left ?_
      rintro ⟨ht, lt⟩
      have alone := List.pairwise_map.mpr <| times.imp ne_of_lt
      exact lt.ne <| congrArg _ <| List.inj_on_of_nodup_map alone hs hm ht
    have ascending : (allSince db.messages u s.id).Pairwise (·.timestamp < ·.timestamp) :=
      times.filter _
    simp only [timestampOf_eq hs, rows]
    constructor
    case mp =>
      rintro ⟨perm, sorted⟩
      refine perm.eq_of_pairwise (fun a b ha hb le le' => ?_) sorted <| ascending.imp le_of_lt
      have alone := List.pairwise_map.mpr <| ascending.imp ne_of_lt
      exact List.inj_on_of_nodup_map alone (perm.subset ha) hb <| le_antisymm le le'
    case mpr =>
      rintro rfl
      exact ⟨.refl _, ascending.imp le_of_lt⟩

end PostgresDb

-- The two stores agree on what a user has missed, up to what is less than a microsecond.
theorem messagesSince_agree (accepted : ∀ m ∈ messages, PostgresDb.Accepts userIds m)
    (ids : (messages.map (·.id)).Nodup)
    (times : messages.Pairwise (microseconds ·.timestamp < microseconds ·.timestamp))
    (startingId : MessageId) :
    ∃ db, PostgresDb.empty.createMessages userIds messages = .ok db ∧
      (MockDb.empty.createMessages messages).fetchUsersMessagesSince u startingId =
        .ok (allSince messages u startingId) ∧
      (∀ res, db.FetchUsersMessagesSince u startingId res ↔
        res = (allSince messages u startingId).map Message.row) ∧
      (startingId ∉ messages.map (·.id) → allSince messages u startingId = []) := by
  have ⟨db, created⟩ := @PostgresDb.exists_createMessages .empty userIds messages accepted ids
  have stored : db.messages = messages.map Message.row := PostgresDb.messages_createMessages created
  refine ⟨db, created, ?_, fun res => ?_, allSince_of_unknown⟩
  · rw [MockDb.fetchUsersMessagesSince, MockDb.messages_createMessages rfl,
      ← usersMessagesSince_eq_allSince ids <| times_of_microseconds times]
    rfl
  · rw [PostgresDb.fetchUsersMessagesSince_iff (stored ▸ times_map_row times), stored,
      allSince_map_row times]

-- A starting point of other users, and times between the microseconds.
theorem messagesSince_agree_example :
    let messages : List Message :=
      [⟨10, 1, 2, "hello", 1⟩, ⟨12, 3, 2, "hey", 1002⟩, ⟨11, 2, 1, "hi", 2003⟩]
    ∃ db, PostgresDb.empty.createMessages [1, 2, 3] messages = .ok db ∧
      (MockDb.empty.createMessages messages).fetchUsersMessagesSince 1 12 =
        .ok [⟨11, 2, 1, "hi", 2003⟩] ∧
      ∀ res, db.FetchUsersMessagesSince 1 12 res ↔ res = [⟨11, 2, 1, "hi", 2000⟩] := by
  intro messages
  have ⟨db, created, mock, postgres, _⟩ :=
    @messagesSince_agree [1, 2, 3] messages 1 (by decide) (by decide) (by decide) 12
  exact ⟨db, created, mock, postgres⟩

-- A message to nobody, and two messages within a microsecond, of which the database takes the one with
-- the smaller id for the older one.
theorem not_messagesSince_agree :
    let m : Message  := ⟨11, 1, 2, "hello", 0⟩
    let m' : Message := ⟨10, 2, 1, "hi", 1⟩
    (PostgresDb.empty.createMessages [1] [m] = .error .foreignKeyViolation ∧
      (MockDb.empty.createMessages [m, m']).fetchUsersMessagesSince 1 11 = .ok [m']) ∧
    ∃ db, PostgresDb.empty.createMessages [1, 2] [m, m'] = .ok db ∧
      db.FetchUsersMessagesSince 1 11 [] := by
  intro m m'
  refine ⟨⟨by decide +kernel, by decide +kernel⟩, ⟨[m.row, m'.row], by decide⟩, by decide +kernel, ?_⟩
  exact ⟨.of_eq <| by decide, .nil⟩

end Pheidippides
