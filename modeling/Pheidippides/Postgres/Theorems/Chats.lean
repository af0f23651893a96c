import Pheidippides.Objects.Theorems.Chats
import Pheidippides.Primitives.MapM
import Pheidippides.Postgres.Theorems.Agreement

open Grouping Paging Pheidippides.Chronology Pheidippides.Postgres

namespace Pheidippides

variable {users : List (UserId × String)} {messages : List Message} {m : Message} {u v w : UserId}
  {chats chats' : List User} {chat : User} {t : Timestamp}

theorem Chronology.Later.asymm (h : Later messages u v w) : ¬Later messages u w v := by
  rintro ⟨m', hm', hb', last'⟩
  obtain ⟨m, hm, hb, last⟩ := h
  exact absurd (last m' hm' hb') (last' m hm hb).asymm

-- A chat list leaves no choice.
theorem Chronology.IsChatList.unique (ids : (users.map (·.1)).Nodup)
    (h : IsChatList users messages u chats) (h' : IsChatList users messages u chats') :
    chats = chats' := by
  have mem {chats chats' : List User} (h : IsChatList users messages u chats)
      (h' : IsChatList users messages u chats') {chat : User} (hc : chat ∈ chats) : chat ∈ chats' := by
    obtain ⟨chat', hc', he⟩ := (h'.partners chat.id).mpr <| (h.partners chat.id).mp ⟨chat, hc, rfl⟩
    have entry := List.inj_on_of_nodup_map ids (h'.named chat' hc') (h.named chat hc) he
    obtain ⟨name, id⟩ := chat
    obtain ⟨name', id'⟩ := chat'
    obtain ⟨rfl, rfl⟩ := Prod.mk.inj entry
    exact hc'
  have perm : chats.Perm chats' :=
    (List.perm_ext_iff_of_nodup h.once.of_map h'.once.of_map).mpr fun _ => ⟨mem h h', mem h' h⟩
  exact perm.eq_of_pairwise (fun a b _ _ l l' => absurd l' l.asymm) h.newest h'.newest

namespace MockDb

-- Each message is later than all before it, and moves its chat to the top.
theorem usersChats_newest (times : messages.Pairwise (·.timestamp < ·.timestamp)) :
    (usersChats users messages u).Pairwise (Later messages u ·.id ·.id) := by
  induction messages using List.reverseRecOn
  case nil => exact .nil
  case append_singleton messages m ih =>
    obtain ⟨times, -, later⟩ := List.pairwise_append.mp times
    have ih := ih times
    have nodup := usersChats_ids_nodup users messages u
    have grow {v w : UserId} (h : Later messages u v w) (hw : ¬m.Between u w) :
        Later (messages ++ [m]) u v w := by
      obtain ⟨m', hm', hb, last⟩ := h
      refine ⟨m', List.mem_append_left _ hm', hb, fun m'' hm'' hb' => ?_⟩
      obtain hm'' | hm'' := List.mem_append.mp hm''
      · exact last m'' hm'' hb'
      · exact absurd (List.mem_singleton.mp hm'' ▸ hb') hw
    cases hc : chatInfo (usernames users) u m
    case none =>
      rw [usersChats_concat_none hc]
      refine ih.imp_of_mem fun _ hb => (grow · fun between => ?_)
      have info := chatInfo_eq_some_iff.mpr ⟨between, eq_chatEntry hb⟩
      cases hc.symm.trans info
    case some chat =>
      obtain ⟨between, -⟩ := chatInfo_eq_some_iff.mp hc
      have other : ∀ chat' ∈ (usersChats users messages u).erase chat, ¬m.Between u chat'.id := by
        intro chat' hc' between'
        obtain ⟨ne, mem⟩ := nodup.of_map.mem_erase_iff.mp hc'
        refine ne ?_
        rw [eq_chatEntry mem, ← between.unique between', ← (chatInfo_eq_some_iff.mp hc).right]
      rw [usersChats_concat_some hc]
      refine List.pairwise_cons.mpr ⟨fun chat' hc' => ?_, ?_⟩
      · refine ⟨m, List.mem_append_right _ (.head _), between, fun m' hm' hb => ?_⟩
        obtain hm' | hm' := List.mem_append.mp hm'
        · exact later m' hm' m (.head _)
        · exact absurd (List.mem_singleton.mp hm' ▸ hb) (other chat' hc')
      · exact (ih.sublist List.erase_sublist).imp_of_mem fun _ hb => (grow · <| other _ hb)

-- The in-memory store answers with the chat list.
theorem usersChats_isChatList (ids : (users.map (·.1)).Nodup)
    (times : messages.Pairwise (·.timestamp < ·.timestamp))
    (known : ∀ m ∈ messages, m.sender ∈ users.map (·.1) ∧ m.receiver ∈ users.map (·.1)) :
    IsChatList users messages u (usersChats users messages u) where
  partners chatId := by
    constructor
    case mp =>
      rintro ⟨chat, hc, rfl⟩
      exact (mem_usersChats_iff.mp hc).left
    case mpr => exact fun h => ⟨chatEntry users chatId, mem_usersChats_iff.mpr ⟨h, rfl⟩, rfl⟩
  named chat hc   := by
    obtain ⟨⟨m, hm, hb⟩, entry⟩ := mem_usersChats_iff.mp hc
    have mem : chat.id ∈ users.map (·.1) := by
      obtain ⟨-, hr⟩ | ⟨hs, -⟩ := hb
      · exact hr ▸ (known m hm).right
      · exact hs ▸ (known m hm).left
    obtain ⟨⟨id, name⟩, hu, rfl⟩ := List.mem_map.mp mem
    have name' := (usernames_eq_some_iff ids).mpr hu
    rw [entry]
    change (_, (usernames users _).getD _) ∈ users
    rwa [name']
  once            := usersChats_ids_nodup ..
  newest          := usersChats_newest times

end MockDb

namespace PostgresDb

variable {db : PostgresDb}

-- The rows from which the table `chat_ids` is made.
def partnerTimes (db : PostgresDb) (userId : UserId) : List (UserId × Timestamp) :=
  (db.messages.filter (·.receiver = userId)).map (fun m => (m.sender, m.timestamp)) ++
    (db.messages.filter (·.sender = userId)).map fun m => (m.receiver, m.timestamp)

theorem mem_partnerTimes_iff :
    (v, t) ∈ db.partnerTimes u ↔ ∃ m ∈ db.messages, m.Between u v ∧ m.timestamp = t := by
  simp only [partnerTimes, List.mem_append, List.mem_map, List.mem_filter, decide_eq_true_iff,
    Prod.mk.injEq]
  constructor
  case mp =>
    rintro (⟨m, ⟨hm, hr⟩, hs, ht⟩ | ⟨m, ⟨hm, hs⟩, hr, ht⟩)
    · exact ⟨m, hm, .inr ⟨hs, hr⟩, ht⟩
    · exact ⟨m, hm, .inl ⟨hs, hr⟩, ht⟩
  case mpr =>
    rintro ⟨m, hm, ⟨hs, hr⟩ | ⟨hs, hr⟩, ht⟩
    · exact .inr ⟨m, ⟨hm, hs⟩, hr, ht⟩
    · exact .inl ⟨m, ⟨hm, hr⟩, hs, ht⟩

-- The grouped rows have the time of the last message with each partner.
theorem mem_groupMax_chatIds_iff : (v, t) ∈ groupMax (db.chatIds u) ↔
    (∃ m ∈ db.messages, m.Between u v ∧ m.timestamp = t) ∧
      ∀ m ∈ db.messages, m.Between u v → m.timestamp ≤ t := by
  rw [chatIds, mem_groupMax_union_iff, ← partnerTimes, mem_groupMax_iff, mem_partnerTimes_iff]
  refine and_congr_right fun _ => ⟨fun h m hm hb => ?_, fun h t' ht => ?_⟩
  · exact h _ <| mem_partnerTimes_iff.mpr ⟨m, hm, hb, rfl⟩
  · obtain ⟨m, hm, hb, rfl⟩ := mem_partnerTimes_iff.mp ht
    exact h m hm hb

theorem exists_mem_groupMax_chatIds_iff :
    (∃ t, (v, t) ∈ groupMax (db.chatIds u)) ↔ ∃ m ∈ db.messages, m.Between u v := by
  constructor
  case mp =>
    rintro ⟨t, h⟩
    obtain ⟨⟨m, hm, hb, -⟩, -⟩ := mem_groupMax_chatIds_iff.mp h
    exact ⟨m, hm, hb⟩
  case mpr =>
    rintro ⟨m, hm, hb⟩
    obtain ⟨t, h⟩ := exists_mem_groupMax <| mem_partnerTimes_iff.mpr ⟨m, hm, hb, rfl⟩
    exact ⟨t, mem_groupMax_union_iff.mpr h⟩

-- A partner is one of the users.
theorem exists_username (known : ∀ m ∈ db.messages, m.sender ∈ users.map (·.1) ∧
    m.receiver ∈ users.map (·.1)) (h : (v, t) ∈ groupMax (db.chatIds u)) :
    ∃ name, (v, name) ∈ users := by
  obtain ⟨m, hm, hb⟩ := exists_mem_groupMax_chatIds_iff.mp ⟨t, h⟩
  have mem : v ∈ users.map (·.1) := by
    obtain ⟨-, hr⟩ | ⟨hs, -⟩ := hb
    · exact hr ▸ (known m hm).right
    · exact hs ▸ (known m hm).left
  obtain ⟨⟨v, name⟩, hu, rfl⟩ := List.mem_map.mp mem
  exact ⟨name, hu⟩

-- Each of them is joined with the one user of its id.
theorem chatRowsJoined_eq (ids : (users.map (·.1)).Nodup)
    (known : ∀ m ∈ db.messages, m.sender ∈ users.map (·.1) ∧ m.receiver ∈ users.map (·.1)) :
    db.chatRowsJoined users u =
      (groupMax (db.chatIds u)).map fun row => (row, MockDb.usernames users row.1) := by
  rw [chatRowsJoined, List.map_eq_flatMap]
  refine List.flatMap_congr fun row hrow => ?_
  obtain ⟨v, t⟩ := row
  obtain ⟨name, hu⟩ := exists_username known hrow
  have alone : users.filter (·.1 = v) = [(v, name)] := by
    refine List.perm_singleton.mp <|
      (List.perm_ext_iff_of_nodup (ids.of_map.filter _) (List.nodup_singleton _)).mpr fun user => ?_
    rw [List.mem_filter, List.mem_singleton, decide_eq_true_iff]
    constructor
    · exact fun ⟨hu', hv⟩ => List.inj_on_of_nodup_map ids hu' hu hv
    · rintro rfl
      exact ⟨hu, rfl⟩
  simp only [alone, (MockDb.usernames_eq_some_iff ids).mpr hu, List.map_cons, List.map_nil]

-- What has come before another row in the order of the times is a later chat.
theorem later_of_timestamp (times : db.messages.Pairwise (·.timestamp < ·.timestamp))
    {row row' : UserId × Timestamp} (h : row ∈ groupMax (db.chatIds u))
    (h' : row' ∈ groupMax (db.chatIds u)) (le : row'.2 ≤ row.2) (ne : row.1 ≠ row'.1) :
    Later db.messages u row.1 row'.1 := by
  obtain ⟨v, t⟩ := row
  obtain ⟨v', t'⟩ := row'
  obtain ⟨⟨m, hm, hb, rfl⟩, -⟩ := mem_groupMax_chatIds_iff.mp h
  obtain ⟨⟨m', hm', hb', rfl⟩, last⟩ := mem_groupMax_chatIds_iff.mp h'
  refine ⟨m, hm, hb, fun m'' hm'' hb'' => (last m'' hm'' hb'').trans_lt <| lt_of_le_of_ne le ?_⟩
  intro he
  have alone := List.pairwise_map.mpr <| times.imp ne_of_lt
  obtain rfl := List.inj_on_of_nodup_map alone hm' hm he
  exact ne <| hb.unique hb'

-- The answer of Postgres is the chat list.
theorem isChatList_of_findUsersChats (ids : (users.map (·.1)).Nodup)
    (times : db.messages.Pairwise (·.timestamp < ·.timestamp))
    (known : ∀ m ∈ db.messages, m.sender ∈ users.map (·.1) ∧ m.receiver ∈ users.map (·.1))
    {res : Option (List User)} (h : db.FindUsersChats users u res) :
    ∃ chats, res = some chats ∧ IsChatList users db.messages u chats := by
  obtain ⟨rows, perm, sorted, rfl⟩ := h
  rw [chatRowsJoined_eq ids known] at perm
  have grouped : (rows.map (·.1)).Perm (groupMax (db.chatIds u)) := by
    simpa [Function.comp_def] using perm.map (·.1)
  have mem_iff {row : UserId × Timestamp} :
      (∃ r ∈ rows, r.1 = row) ↔ row ∈ groupMax (db.chatIds u) := by
    rw [← grouped.mem_iff, List.mem_map]
  have entry : ∀ r ∈ rows, ∃ name, (r.1.1, name) ∈ users ∧ r.2 = some name := by
    intro r hr
    obtain ⟨row, hrow, rfl⟩ := List.mem_map.mp <| perm.mem_iff.mp hr
    obtain ⟨name, hu⟩ := exists_username known hrow
    exact ⟨name, hu, (MockDb.usernames_eq_some_iff ids).mpr hu⟩
  have keys : (rows.map (·.1.1)).Nodup := by
    have nodup := (grouped.map (·.1)).nodup_iff.mpr <| groupMax_nodup _
    rwa [List.map_map] at nodup
  refine ⟨rows.map fun r => ⟨r.2.getD "", r.1.1⟩, MapM.mapM_eq_some fun r hr => ?_, ?_⟩
  · obtain ⟨name, -, hn⟩ := entry r hr
    rw [chatOfRow, hn]
    rfl
  constructor
  case partners =>
    intro chatId
    rw [← exists_mem_groupMax_chatIds_iff]
    constructor
    case mp =>
      rintro ⟨_, hc, rfl⟩
      obtain ⟨r, hr, rfl⟩ := List.mem_map.mp hc
      exact ⟨r.1.2, mem_iff.mp ⟨r, hr, rfl⟩⟩
    case mpr =>
      rintro ⟨t, ht⟩
      obtain ⟨r, hr, he⟩ := mem_iff.mpr ht
      exact ⟨_, List.mem_map_of_mem hr, congrArg Prod.fst he⟩
  case named =>
    intro chat hc
    obtain ⟨r, hr, rfl⟩ := List.mem_map.mp hc
    obtain ⟨name, hu, hn⟩ := entry r hr
    simpa [hn] using hu
  case once => simpa [Function.comp_def] using keys
  case newest =>
    refine List.pairwise_map.mpr <| (sorted.and <| List.pairwise_map.mp keys).imp_of_mem ?_
    exact fun hr hr' ⟨le, ne⟩ =>
      later_of_timestamp times (mem_iff.mp ⟨_, hr, rfl⟩) (mem_iff.mp ⟨_, hr', rfl⟩) le ne

end PostgresDb

-- Rows of messages which are a microsecond apart make the same chat list as the messages.
section

variable (times : messages.Pairwise (microseconds ·.timestamp < microseconds ·.timestamp))

include times

theorem later_map_row_iff : Later (messages.map Message.row) u v w ↔ Later messages u v w := by
  simp only [Later, List.mem_map, exists_exists_and_eq_and, forall_exists_index, and_imp,
    forall_apply_eq_imp_iff₂, Message.between_row]
  refine exists_congr fun m => and_congr_right fun hm => and_congr_right fun _ => ?_
  exact forall₂_congr fun m' hm' => imp_congr_right fun _ => row_lt_iff times hm' hm

theorem isChatList_map_row_iff :
    IsChatList users (messages.map Message.row) u chats ↔ IsChatList users messages u chats := by
  have partner (v : UserId) : (∃ m ∈ messages.map Message.row, m.Between u v) ↔
      ∃ m ∈ messages, m.Between u v := by
    simp only [List.mem_map, exists_exists_and_eq_and, Message.between_row]
  constructor
  case mp =>
    intro h
    exact {
      partners v := (h.partners v).trans <| partner v
      named      := h.named
      once       := h.once
      newest     := h.newest.imp (later_map_row_iff times).mp }
  case mpr =>
    intro h
    exact {
      partners v := (h.partners v).trans (partner v).symm
      named      := h.named
      once       := h.once
      newest     := h.newest.imp (later_map_row_iff times).mpr }

end

-- The two stores agree on the chats of a user, for messages which Postgres accepts and whose times it
-- can tell apart.
theorem usersChats_agree (userIds : (users.map (·.1)).Nodup)
    (accepted : ∀ m ∈ messages, PostgresDb.Accepts (users.map (·.1)) m)
    (ids : (messages.map (·.id)).Nodup)
    (times : messages.Pairwise (microseconds ·.timestamp < microseconds ·.timestamp)) :
    ∃ db chats, PostgresDb.empty.createMessages (users.map (·.1)) messages = .ok db ∧
      IsChatList users messages u chats ∧
      ({ MockDb.empty with users := .new users }.createMessages messages).findUsersChats u = .ok chats ∧
      ∀ res, db.FindUsersChats users u res ↔ res = some chats := by
  have ⟨db, created⟩ := @PostgresDb.exists_createMessages .empty (users.map (·.1)) messages accepted ids
  have stored : db.messages = messages.map Message.row := PostgresDb.messages_createMessages created
  have known : ∀ m ∈ messages, m.sender ∈ users.map (·.1) ∧ m.receiver ∈ users.map (·.1) :=
    fun m hm => (accepted m hm).right.right
  have list := MockDb.usersChats_isChatList (u := u) userIds (times_of_microseconds times) known
  have answer {res : Option (List User)} (h : db.FindUsersChats users u res) :
      res = some (MockDb.usersChats users messages u) := by
    obtain ⟨chats, rfl, list'⟩ := PostgresDb.isChatList_of_findUsersChats userIds
      (stored ▸ times_map_row times) (stored ▸ List.forall_mem_map.mpr known) h
    rw [stored, isChatList_map_row_iff times] at list'
    rw [list'.unique userIds list]
  refine ⟨db, _, created, list, ?_, fun res => ⟨answer, ?_⟩⟩
  · refine MockDb.findUsersChats_eq_ok_iff.mpr ⟨users, ?_, ?_, ?_⟩
    · rw [MockDb.fetchUsers, MockDb.users_createMessages]
      rfl
    all_goals
      rw [MockDb.messages_createMessages rfl]
      rfl
  · rintro rfl
    obtain ⟨rows, perm, sorted⟩ := exists_descending (·.1.2) (db.chatRowsJoined users u)
    have found : db.FindUsersChats users u (rows.mapM PostgresDb.chatOfRow) := ⟨rows, perm, sorted, rfl⟩
    exact answer found ▸ found

-- A message to oneself, and messages in both directions.
theorem usersChats_agree_example :
    let messages : List Message :=
      [⟨10, 1, 2, "hello", 1⟩, ⟨11, 1, 1, "note", 1002⟩, ⟨12, 3, 2, "hey", 2003⟩,
        ⟨13, 2, 1, "hi", 3004⟩]
    ∃ db, PostgresDb.empty.createMessages [1, 2, 3] messages = .ok db ∧
      ∀ res, db.FindUsersChats [(1, "a"), (2, "b"), (3, "c")] 1 res ↔
        res = some [⟨"b", 2⟩, ⟨"a", 1⟩] := by
  intro messages
  have ⟨db, chats, created, _, mock, postgres⟩ := @usersChats_agree [(1, "a"), (2, "b"), (3, "c")]
    messages 1 (by decide) (by decide) (by decide) (by decide)
  have answer : ({ MockDb.empty with users := .new [(1, "a"), (2, "b"), (3, "c")] }.createMessages
      messages).findUsersChats 1 = .ok [⟨"b", 2⟩, ⟨"a", 1⟩] := by decide +kernel
  obtain rfl := Except.ok.inj <| mock.symm.trans answer
  exact ⟨db, created, postgres⟩

-- Two chats whose last messages are within a microsecond, which the database may give in either order.
theorem not_usersChats_agree :
    let users : List (UserId × String) := [(1, "a"), (2, "b"), (3, "c")]
    let messages : List Message        := [⟨10, 2, 1, "hello", 0⟩, ⟨11, 3, 1, "hey", 1⟩]
    ({ MockDb.empty with users := .new users }.createMessages messages).findUsersChats 1 =
        .ok [⟨"c", 3⟩, ⟨"b", 2⟩] ∧
      ∃ db, PostgresDb.empty.createMessages [1, 2, 3] messages = .ok db ∧
        db.FindUsersChats users 1 (some [⟨"b", 2⟩, ⟨"c", 3⟩]) := by
  intro users messages
  refine ⟨by decide +kernel, ⟨messages.map Message.row, by decide⟩, by decide +kernel,
    [((2, 0), some "b"), ((3, 0), some "c")], ?_, ?_, ?_⟩
  · exact .of_eq <| by decide +kernel
  · simp [Descending]
  · decide

end Pheidippides
