import Pheidippides.Postgres.Reads
import Pheidippides.Postgres.Theorems.Chats
import Pheidippides.Postgres.Theorems.Identifiers
import Pheidippides.Postgres.Theorems.Search
import Pheidippides.Postgres.Theorems.Store

open Paging Grouping Pheidippides.Postgres

namespace Pheidippides

namespace PostgresDb

variable {db₁ db₂ : PostgresDb} {u v : UserId} {id : MessageId} {m : Message} {messages : List Message}

theorem timestampOf_grow (grows : db₁.messages <+: db₂.messages)
    (h : id ∈ db₁.messages.map (·.id)) : db₂.timestampOf id = db₁.timestampOf id := by
  obtain ⟨m, hm, rfl⟩ := List.mem_map.mp h
  rw [timestampOf_eq hm, timestampOf_eq <| grows.subset hm]

theorem fetchesLastMessagesInChat_iff (grows : db₁.messages <+: db₂.messages) :
    FetchesLastMessagesInChat db₁ db₂ u v (some id) messages ↔ db₂.FetchLastMessagesInChat u v
      (if id ∈ db₁.messages.map (·.id) then some id else none) messages := by
  rw [FetchesLastMessagesInChat, FetchLastMessagesInChat, chatRows]
  split_ifs with h
  case pos => simp only [beforeStartingPoint, timestampOf_grow grows h]
  case neg => simp only [beforeStartingPoint, timestampOf_of_unknown h]

theorem fetchesUsersMessagesSince_iff (grows : db₁.messages <+: db₂.messages) :
    FetchesUsersMessagesSince db₁ db₂ u id messages ↔
      (if id ∈ db₁.messages.map (·.id) then db₂ else db₁).FetchUsersMessagesSince u id messages := by
  rw [FetchesUsersMessagesSince, FetchUsersMessagesSince]
  split_ifs with h
  case pos => constructor <;> (rw [timestampOf_grow grows h]; exact fun found => found)
  case neg => rw [timestampOf_of_unknown h]

end PostgresDb

namespace Postgres

variable {room : Nat} {l : List Char} {name name' sql : String} {tables tables' : TempTables}
  {table : List (UserId × Timestamp)}

theorem clip_eq_self (h : (l.flatMap String.utf8EncodeChar).length ≤ room) : clip room l = l := by
  induction l generalizing room
  case nil => rfl
  case cons c l ih =>
    rw [List.flatMap_cons, List.length_append, String.length_utf8EncodeChar] at h
    rw [clip, if_pos (by omega), ih (by omega)]

namespace TempTables

theorem create_eq (hn : tableNamed sql = some name) (fresh : name ∉ tables.map (·.1)) :
    tables.create sql table = some (tables ++ [(name, table)]) := by
  rw [create, hn]
  exact if_neg fresh

theorem rows_eq (hn : tableNamed sql = some name) (fresh : name ∉ tables.map (·.1)) :
    rows (tables ++ (name, table) :: tables') sql = some table := by
  have missing : tables.find? (·.1 = name) = none :=
    List.find?_eq_none.mpr fun table ht he => fresh <| of_decide_eq_true he ▸ List.mem_map_of_mem ht
  rw [rows, hn]
  change ((tables ++ (name, table) :: tables').find? (·.1 = name)).map (·.2) = some table
  rw [List.find?_append, missing]
  simp

theorem drop_eq (hn : tableNamed sql = some name) (fresh : name ∉ tables.map (·.1))
    (fresh' : name ∉ tables'.map (·.1)) :
    drop (tables ++ (name, table) :: tables') sql = some (tables ++ tables') := by
  have keep {tables : TempTables} (fresh : name ∉ tables.map (·.1)) :
      tables.filter (·.1 ≠ name) = tables := by
    refine List.filter_eq_self.mpr fun table ht => decide_eq_true fun he => fresh ?_
    exact he ▸ List.mem_map_of_mem ht
  rw [drop, hn]
  refine (if_pos ?_).trans ?_
  · simp
  · rw [List.filter_append, keep fresh, List.filter_cons_of_neg (by simp), keep fresh']

-- What a statement can do to the names.
theorem names_create (h : tables.create sql table = some tables') (hm : name ∈ tables'.map (·.1)) :
    name ∈ tables.map (·.1) ∨ tableNamed sql = some name := by
  obtain ⟨name', hn, h⟩ := Option.bind_eq_some_iff.mp h
  split at h <;> cases h
  obtain h | h := List.mem_append.mp <| List.map_append ▸ hm
  · exact .inl h
  · exact .inr <| hn.trans <| congrArg some (List.mem_singleton.mp h).symm

theorem names_drop (h : tables.drop sql = some tables') (hm : name ∈ tables'.map (·.1)) :
    name ∈ tables.map (·.1) := by
  obtain ⟨name', hn, h⟩ := Option.bind_eq_some_iff.mp h
  split at h <;> cases h
  exact List.map_subset _ (List.filter_subset_self _) hm

end TempTables

-- The characters of an id take one byte each, and have no meaning in a name.
theorem UuidString.plain (uuid : UuidString) :
    ∀ c ∈ uuid.val.toList, c.utf8Size = 1 ∧ c ≠ '_' ∧ c ≠ '\x00' := by
  have all : ∀ c ∈ "0123456789abcdef-".toList, c.utf8Size = 1 ∧ c ≠ '_' ∧ c ≠ '\x00' := by decide
  exact fun c hc => all c <| uuid.property.right c hc

theorem UuidString.length_encode (uuid : UuidString) : (Utf8.encode uuid.val).length = 36 := by
  rw [Utf8.length_encode fun c hc => (uuid.plain c hc).left, String.length_toList, uuid.property.left]

def tempName (name : String) (uuid : UuidString) : String :=
  "temp_" ++ name ++ "_" ++ uuid.val

-- The names of the two tables are kept as they are.
theorem tableNamed_tempTableName {uuid : UuidString} (hn : name ∈ ["chat_ids", "chat_ids_grouped"])
    {rest : String} (hr : rest.toList.head? ≠ some '"') :
    tableNamed (tempTableName name uuid ++ rest) = some (tempName name uuid) := by
  have text : '\x00' ∉ name.toList := by
    have all : ∀ name ∈ ["chat_ids", "chat_ids_grouped"], '\x00' ∉ name.toList := by decide
    exact all name hn
  have fits := tempTableName_fits uuid.length_encode name hn
  rw [tableNamed, quotedIdentifier_tempTableName text (fun h => (uuid.plain _ h).right.right rfl) hr]
  dsimp only
  rw [clip_eq_self fits, String.ofList_toList]
  rfl

theorem tempName_inj {uuid uuid' : UuidString} (h : tempName name uuid = tempName name' uuid') :
    name = name' ∧ uuid = uuid' := by
  have plain (uuid : UuidString) : '_' ∉ uuid.val.toList := fun h => (uuid.plain _ h).right.left rfl
  have ⟨hn, hu⟩ := (tempTableName_inj (plain uuid) (plain uuid')).mp <| congrArg pgId h
  exact ⟨hn, Subtype.ext hu⟩

theorem succeed_cons {statement : Statement} {statements : List Statement}
    (h : statement tables = some tables') :
    succeed tables (statement :: statements) = succeed tables' statements := by
  rw [succeed, List.foldlM_cons, h]
  rfl

namespace ChatsCall

variable {call : ChatsCall} {db : PostgresDb}

theorem tableNamed_chatIds {rest : String} (hr : rest.toList.head? ≠ some '"') :
    tableNamed (call.chatIds ++ rest) = some (tempName "chat_ids" call.uuid₁) :=
  tableNamed_tempTableName (by simp) hr

theorem tableNamed_chatIdsGrouped {rest : String} (hr : rest.toList.head? ≠ some '"') :
    tableNamed (call.chatIdsGrouped ++ rest) = some (tempName "chat_ids_grouped" call.uuid₂) :=
  tableNamed_tempTableName (by simp) hr

-- No table of the connection has one of the two names.
structure Fresh (call : ChatsCall) (tables : TempTables) : Prop where
  chatIds        : tempName "chat_ids" call.uuid₁ ∉ tables.map (·.1)
  chatIdsGrouped : tempName "chat_ids_grouped" call.uuid₂ ∉ tables.map (·.1)

theorem names_ne : tempName "chat_ids" call.uuid₁ ≠ tempName "chat_ids_grouped" call.uuid₂ :=
  fun h => absurd (tempName_inj h).left (by decide)

-- The rows of the two tables.
def table₁ (call : ChatsCall) (db : PostgresDb) : String × List (UserId × Timestamp) :=
  (tempName "chat_ids" call.uuid₁, db.chatIds call.userId)

def table₂ (call : ChatsCall) (db : PostgresDb) : String × List (UserId × Timestamp) :=
  (tempName "chat_ids_grouped" call.uuid₂, groupMax (db.chatIds call.userId))

theorem createChatIds_eq (fresh : call.Fresh tables) :
    call.createChatIds db tables = some (tables ++ [call.table₁ db]) :=
  TempTables.create_eq (tableNamed_chatIds <| by decide) fresh.chatIds

theorem createChatIdsGrouped_eq (fresh : call.Fresh tables) :
    call.createChatIdsGrouped (tables ++ [call.table₁ db]) =
      some (tables ++ [call.table₁ db] ++ [call.table₂ db]) := by
  have fresh₂ : tempName "chat_ids_grouped" call.uuid₂ ∉ (tables ++ [call.table₁ db]).map (·.1) := by
    simpa [table₁, names_ne.symm] using fresh.chatIdsGrouped
  rw [createChatIdsGrouped, Option.bind_eq_bind, Option.bind_eq_some_iff]
  refine ⟨db.chatIds call.userId, ?rows, ?create⟩
  case rows   => exact TempTables.rows_eq (tableNamed_chatIds <| by decide) fresh.chatIds
  case create => exact TempTables.create_eq (tableNamed_chatIdsGrouped <| by decide) fresh₂

theorem dropChatIds_eq (fresh : call.Fresh tables) :
    call.dropChatIds (tables ++ [call.table₁ db] ++ [call.table₂ db]) =
      some (tables ++ [call.table₂ db]) := by
  have fresh₁ : tempName "chat_ids" call.uuid₁ ∉ [call.table₂ db].map (·.1) := by
    simpa [table₂] using names_ne
  rw [List.append_assoc]
  exact TempTables.drop_eq (tableNamed_chatIds <| by decide) fresh.chatIds fresh₁

theorem lastMessages_eq (fresh : call.Fresh tables) :
    call.lastMessages (tables ++ [call.table₂ db]) = some (groupMax (db.chatIds call.userId)) :=
  TempTables.rows_eq (tableNamed_chatIdsGrouped <| by decide) fresh.chatIdsGrouped

theorem selectLastMessages_eq (fresh : call.Fresh tables) :
    call.selectLastMessages (tables ++ [call.table₂ db]) = some (tables ++ [call.table₂ db]) := by
  rw [selectLastMessages, lastMessages_eq fresh, Option.map_some]

theorem dropChatIdsGrouped_eq (fresh : call.Fresh tables) :
    call.dropChatIdsGrouped (tables ++ [call.table₂ db]) = some tables := by
  have named : tableNamed (call.chatIdsGrouped ++ ";") = some (tempName "chat_ids_grouped" call.uuid₂) :=
    tableNamed_chatIdsGrouped <| by decide
  have drop :
      TempTables.drop (tables ++ [call.table₂ db]) (call.chatIdsGrouped ++ ";") = some (tables ++ []) :=
    TempTables.drop_eq named fresh.chatIdsGrouped (by simp)
  rwa [List.append_nil] at drop

-- The call leaves the tables as they were, and selects from the grouped rows.
theorem succeed_statements (db : PostgresDb) (fresh : call.Fresh tables) :
    succeed tables ((call.statements db).take 3) = some (tables ++ [call.table₂ db]) ∧
      succeed tables (call.statements db) = some tables := by
  have take₃ {statements : List Statement} : succeed tables (call.createChatIds db ::
      call.createChatIdsGrouped :: call.dropChatIds :: statements) =
        succeed (tables ++ [call.table₂ db]) statements := by
    rw [succeed_cons <| createChatIds_eq fresh, succeed_cons <| createChatIdsGrouped_eq fresh,
      succeed_cons <| dropChatIds_eq fresh]
  refine ⟨take₃, ?_⟩
  rw [statements, take₃, succeed_cons <| selectLastMessages_eq fresh,
    succeed_cons <| dropChatIdsGrouped_eq fresh]
  rfl

theorem answers_iff (fresh : call.Fresh tables) {users : List (UserId × String)}
    {chats : Option (List User)} : call.Answers db users tables chats ↔ ∃ rows,
      rows.Perm (PostgresDb.leftJoinUsers (groupMax (db.chatIds call.userId)) users) ∧
      Descending (·.1.2) rows ∧ chats = rows.mapM PostgresDb.chatOfRow := by
  have ⟨take₃, all⟩ := succeed_statements db fresh
  constructor
  case mp =>
    rintro ⟨tables₃, lastMessages, rows, take, selected, perm, sorted, rfl, _⟩
    cases take₃.symm.trans take
    cases (lastMessages_eq fresh).symm.trans selected
    exact ⟨rows, perm, sorted, rfl⟩
  case mpr =>
    rintro ⟨rows, perm, sorted, rfl⟩
    exact ⟨_, _, rows, take₃, lastMessages_eq fresh, perm, sorted, rfl, by simp [all]⟩

-- A statement brings no names but its own.
theorem names_statement {statement : Statement} (hs : statement ∈ call.statements db)
    (h : statement tables = some tables') (hm : name ∈ tables'.map (·.1)) :
    name ∈ tables.map (·.1) ∨ name = tempName "chat_ids" call.uuid₁ ∨
      name = tempName "chat_ids_grouped" call.uuid₂ := by
  rw [statements] at hs
  simp only [List.mem_cons, List.not_mem_nil, or_false] at hs
  obtain rfl | rfl | rfl | rfl | rfl := hs
  · refine (TempTables.names_create h hm).imp_right fun hn => .inl ?_
    exact Option.some.inj <| hn.symm.trans <| tableNamed_chatIds <| by decide
  · rw [createChatIdsGrouped, Option.bind_eq_bind, Option.bind_eq_some_iff] at h
    obtain ⟨_, _, h⟩ := h
    refine (TempTables.names_create h hm).imp_right fun hn => .inr ?_
    exact Option.some.inj <| hn.symm.trans <| tableNamed_chatIdsGrouped <| by decide
  · exact .inl <| TempTables.names_drop h hm
  · obtain ⟨_, _, rfl⟩ := Option.map_eq_some_iff.mp h
    exact .inl hm
  · exact .inl <| TempTables.names_drop h hm

theorem names_execute {statements : List Statement} (hs : statements ⊆ call.statements db)
    (hm : name ∈ (execute tables statements).map (·.1)) :
    name ∈ tables.map (·.1) ∨ name = tempName "chat_ids" call.uuid₁ ∨
      name = tempName "chat_ids_grouped" call.uuid₂ := by
  induction statements generalizing tables
  case nil => exact .inl hm
  case cons statement statements ih =>
    have ⟨head, tail⟩ := List.cons_subset.mp hs
    rw [execute] at hm
    split at hm
    case h_1 => exact .inl hm
    case h_2 h =>
      obtain hm | hm := ih tail hm
      · exact names_statement head h hm
      · exact .inr hm

end ChatsCall

namespace Connection

variable {es : List Event} {call : ChatsCall}

-- The tables of a connection are left behind by its calls.
theorem names_run (hm : name ∈ (system.run es).map (·.1)) :
    ∃ e ∈ es, name = tempName "chat_ids" e.call.uuid₁ ∨
      name = tempName "chat_ids_grouped" e.call.uuid₂ := by
  induction es using List.reverseRecOn
  case nil => cases hm
  case append_singleton es e ih =>
    rw [System.run_concat] at hm
    obtain hm | hm := ChatsCall.names_execute (List.take_subset ..) hm
    · have ⟨e', he, h⟩ := ih hm
      exact ⟨e', List.mem_append_left _ he, h⟩
    · exact ⟨e, List.mem_append_right _ List.mem_cons_self, hm⟩

-- Ids which no earlier call has drawn make for names that no table has.
theorem fresh_run (fresh : ∀ e ∈ es, e.call.uuid₁ ≠ call.uuid₁ ∧ e.call.uuid₂ ≠ call.uuid₂) :
    call.Fresh (system.run es) where
  chatIds hm        := by
    obtain ⟨e, he, h | h⟩ := names_run hm
    · exact (fresh e he).left (tempName_inj h).right.symm
    · exact absurd (tempName_inj h).left <| by decide
  chatIdsGrouped hm := by
    obtain ⟨e, he, h | h⟩ := names_run hm
    · exact absurd (tempName_inj h).left <| by decide
    · exact (fresh e he).right (tempName_inj h).right.symm

end Connection
end Postgres

namespace PostgresStore

section

variable [PasswordHash] [Unicode] [SqlLower] {db : PostgresStore} {u v : UserId}

-- Those with whom there are messages have names, which they keep.
theorem chatRowsJoined_exec (db : PostgresStore) (ws : List Event) (u : UserId) :
    db.messages.chatRowsJoined (system.exec db ws).users.fetchUsers u =
      db.messages.chatRowsJoined db.users.fetchUsers u := by
  have grows : db.users.fetchUsers <+: (system.exec db ws).users.fetchUsers :=
    (grows_exec db ws).users.map _
  have known' : ∀ m ∈ db.messages.messages, m.sender ∈ (system.exec db ws).users.fetchUsers.map (·.1) ∧
      m.receiver ∈ (system.exec db ws).users.fetchUsers.map (·.1) :=
    fun m hm => (db.known m hm).imp (grows.map _ |>.subset ·) (grows.map _ |>.subset ·)
  rw [PostgresDb.chatRowsJoined_eq (fetchUsers_ids_nodup _) known',
    PostgresDb.chatRowsJoined_eq db.fetchUsers_ids_nodup db.known]
  refine List.map_congr_left fun row hr => ?_
  have ⟨name, hu⟩ := PostgresDb.exists_username db.known hr
  rw [(MockDb.usernames_eq_some_iff db.fetchUsers_ids_nodup).mpr hu,
    (MockDb.usernames_eq_some_iff (fetchUsers_ids_nodup _)).mpr (grows.subset hu)]

omit [PasswordHash] [Unicode] [SqlLower] in
-- No row is without a name.
theorem findUsersChats_ne_none {chats : Option (List User)}
    (h : db.messages.FindUsersChats db.users.fetchUsers u chats) : chats ≠ none := by
  obtain ⟨rows, perm, _, rfl⟩ := h
  rw [PostgresDb.chatRowsJoined_eq db.fetchUsers_ids_nodup db.known] at perm
  intro panics
  obtain ⟨row, hr, none⟩ := MapM.mapM_eq_none_iff.mp panics
  obtain ⟨⟨v, t⟩, ht, rfl⟩ := List.mem_map.mp <| perm.subset hr
  have ⟨name, hu⟩ := PostgresDb.exists_username db.known ht
  rw [PostgresDb.chatOfRow, (MockDb.usernames_eq_some_iff db.fetchUsers_ids_nodup).mpr hu] at none
  cases none

-- A list of chats is read in five statements, while others write, on a connection on which earlier calls
-- may have broken off. It is the list at the time of the first statement, whatever else is written
-- before the last one. No statement meets a table of another call, and none is left behind.
theorem findUsersChats_atomic {call : ChatsCall} {es : List Connection.Event} (ws : List Event)
    (fresh : ∀ e ∈ es, e.call.uuid₁ ≠ call.uuid₁ ∧ e.call.uuid₂ ≠ call.uuid₂) :
    let tables := Connection.system.run es
    let users  := (system.exec db ws).users.fetchUsers
    (∃ chats, call.Answers db.messages users tables chats) ∧
    (∀ chats, call.Answers db.messages users tables chats ↔
      chats ≠ none ∧ db.messages.FindUsersChats db.users.fetchUsers call.userId chats) ∧
    succeed tables (call.statements db.messages) = some tables := by
  intro tables users
  have fresh := Connection.fresh_run fresh
  have joined : PostgresDb.leftJoinUsers (groupMax (db.messages.chatIds call.userId)) users =
      db.messages.chatRowsJoined db.users.fetchUsers call.userId :=
    chatRowsJoined_exec db ws call.userId
  refine ⟨?_, fun chats => ?_, (ChatsCall.succeed_statements _ fresh).right⟩
  · have ⟨rows, perm, sorted⟩ := exists_descending (·.1.2) (PostgresDb.leftJoinUsers
      (groupMax (db.messages.chatIds call.userId)) users)
    exact ⟨_, (ChatsCall.answers_iff fresh).mpr ⟨rows, perm, sorted, rfl⟩⟩
  · rw [ChatsCall.answers_iff fresh, joined]
    exact ⟨fun h => ⟨findUsersChats_ne_none h, h⟩, And.right⟩

-- The other two reads look up the time of their starting point first. The messages since then are those
-- at the time of one of the two statements. So are the last messages, unless the starting point comes
-- in between: then they are the last ones of all.
theorem fetchMessages_atomic (db : PostgresStore) (ws : List Event) (id : MessageId)
    (messages : List Message) :
    let db'   := system.exec db ws
    let known := db.messages.messages.map (·.id)
    (PostgresDb.FetchesUsersMessagesSince db.messages db'.messages u id messages ↔
      (if id ∈ known then db' else db).messages.FetchUsersMessagesSince u id messages) ∧
    (id ∈ known ∨ id ∉ db'.messages.messages.map (·.id) →
      (PostgresDb.FetchesLastMessagesInChat db.messages db'.messages u v (some id) messages ↔
        db'.messages.FetchLastMessagesInChat u v (some id) messages)) ∧
    (id ∉ known → (PostgresDb.FetchesLastMessagesInChat db.messages db'.messages u v (some id) messages ↔
      db'.messages.FetchLastMessagesInChat u v none messages)) := by
  intro db' known
  have grows : db.messages.messages <+: db'.messages.messages := (grows_exec db ws).messages
  rw [PostgresDb.fetchesUsersMessagesSince_iff grows, PostgresDb.fetchesLastMessagesInChat_iff grows]
  refine ⟨?since, fun h => ?last, fun h => by rw [if_neg h]⟩
  case since => split_ifs <;> rfl
  case last  =>
    split_ifs with hk
    · rfl
    · rw [PostgresDb.FetchLastMessagesInChat, PostgresDb.FetchLastMessagesInChat,
        PostgresDb.chatRows_of_unknown <| h.resolve_left hk, PostgresDb.chatRows_none]

end

-- A call has broken off after its first statement. A user and a message come in between.
theorem findUsersChats_atomic_example :
    let _ := asciiUnicode
    let _ := PostgresUsers.asciiSql
    let _ := dollarPhc
    let db := system.run [.createUser "ann" 1, .createUser "bob" 2, .createMessage ⟨10, 1, 2, "hello", 0⟩]
    let uuid : UuidString := ⟨"67e55044-10b1-426f-9247-bb680e5fe0c8", by decide⟩
    let uuid' : UuidString := ⟨"936da01f-9abd-4d9d-80c7-02af85c822a8", by decide⟩
    let tables := Connection.system.run [⟨⟨2, uuid, uuid⟩, .empty, 1⟩]
    let call : ChatsCall := ⟨1, uuid', uuid'⟩
    tables.length = 1 ∧ succeed tables (call.statements db.messages) = some tables := by
  intro _ _ _ db uuid uuid' tables call
  have ⟨_, _, left⟩ := @findUsersChats_atomic _ _ _ db call [⟨⟨2, uuid, uuid⟩, .empty, 1⟩]
    [.createUser "eve" 3, .createMessage ⟨11, 3, 1, "hey", 1⟩] (by simp; decide)
  exact ⟨by decide +kernel, left⟩

end PostgresStore
end Pheidippides
