import Pheidippides.Postgres.Values
import Pheidippides.Primitives.Grouping
import Pheidippides.Primitives.Paging

open Grouping Paging Pheidippides.Postgres

namespace Pheidippides

-- The row of a message. Its column keeps the time in whole microseconds.
def Message.row (m : Message) : Message :=
  { m with timestamp := 1000 * microseconds m.timestamp }

-- The table of messages in Postgres, whose primary key is the id.
structure PostgresDb where
  messages     : List Message
  messagesPkey : (messages.map (·.id)).Nodup
  deriving DecidableEq

namespace PostgresDb

def empty : PostgresDb where
  messages     := []
  messagesPkey := by simp

-- `select timestamp from messages where id = $1`
def timestampOf (db : PostgresDb) (id : MessageId) : Option Timestamp :=
  (db.messages.find? (·.id == id)).map (·.timestamp)

abbrev rowKey : Message → Timestamp ×ₗ MessageId :=
  Paging.key Message.timestamp Message.id

-- The condition which `fetch_last_messages_in_chat` adds to its query for a starting point, if that is
-- the id of any message.
def beforeStartingPoint (db : PostgresDb) (startingPoint : Option MessageId) (m : Message) : Bool :=
  match startingPoint with
  | none => true
  | some startingPoint =>
    match db.timestampOf startingPoint with
    | none              => true
    | some msgTimestamp => decide (rowKey m < toLex (msgTimestamp, startingPoint))

def chatRows (db : PostgresDb) (userId₁ userId₂ : UserId) (startingPoint : Option MessageId) :
    List Message :=
  db.messages.filter fun m => decide (m.Between userId₁ userId₂) && db.beforeStartingPoint startingPoint m

-- The answers which the database may give: `order by timestamp desc limit 50` does not say in which
-- order messages of the same timestamp come.
def FetchLastMessagesInChat (db : PostgresDb) (userId₁ userId₂ : UserId)
    (startingPoint : Option MessageId) (messages : List Message) : Prop :=
  IsPage Message.timestamp messageLoadBufSize (db.chatRows userId₁ userId₂ startingPoint) messages

-- The pages one gets by going on from the last message of each page until there is an empty one.
inductive History (db : PostgresDb) (userId₁ userId₂ : UserId) :
    Option MessageId → List (List Message) → Prop
  | done {startingPoint : Option MessageId} :
    db.FetchLastMessagesInChat userId₁ userId₂ startingPoint [] →
    History db userId₁ userId₂ startingPoint []
  | more {startingPoint : Option MessageId} {page : List Message} {m : Message}
      {pages : List (List Message)} :
    db.FetchLastMessagesInChat userId₁ userId₂ startingPoint page → page.getLast? = some m →
    History db userId₁ userId₂ (some m.id) pages →
    History db userId₁ userId₂ startingPoint (page :: pages)

-- The rows of `fetch_users_messages_since`, for a starting point that has a timestamp.
def rowsSince (db : PostgresDb) (userId : UserId) (msgTimestamp : Timestamp)
    (startingPoint : MessageId) : List Message :=
  db.messages.filter fun m =>
    decide (m.Concerns userId) && decide (toLex (msgTimestamp, startingPoint) < rowKey m)

-- The answers to `order by timestamp`.
def FetchUsersMessagesSince (db : PostgresDb) (userId : UserId) (startingPoint : MessageId)
    (messages : List Message) : Prop :=
  match db.timestampOf startingPoint with
  | none              => messages = []
  | some msgTimestamp =>
    messages.Perm (db.rowsSince userId msgTimestamp startingPoint) ∧
      messages.Pairwise (·.timestamp ≤ ·.timestamp)

-- The temporary table `chat_ids`: those from whom there are messages, and those to whom there are, with
-- the time of the last one. The `union` leaves out rows which are there already.
def chatIds (db : PostgresDb) (userId : UserId) : List (UserId × Timestamp) :=
  let received := (db.messages.filter (·.receiver = userId)).map fun m => (m.sender, m.timestamp)
  let sent     := (db.messages.filter (·.sender = userId)).map fun m => (m.receiver, m.timestamp)
  (groupMax received ++ groupMax sent).dedup

-- The rows of `last_messages left join users`. There is no username where no user matches.
def chatRowsJoined (db : PostgresDb) (users : List (UserId × String)) (userId : UserId) :
    List ((UserId × Timestamp) × Option String) :=
  (groupMax (db.chatIds userId)).flatMap fun lastMessage =>
    match users.filter (·.1 = lastMessage.1) with
    | []   => [(lastMessage, none)]
    | rows => rows.map fun user => (lastMessage, some user.2)

-- Reading a row panics if it has no username.
def chatOfRow (row : (UserId × Timestamp) × Option String) : Option User :=
  row.2.map fun username => ⟨username, row.1.1⟩

-- The answers to `order by last_messages.timestamp desc`, `none` where reading them panics.
def FindUsersChats (db : PostgresDb) (users : List (UserId × String)) (userId : UserId)
    (chats : Option (List User)) : Prop :=
  ∃ rows, rows.Perm (db.chatRowsJoined users userId) ∧ Descending (·.1.2) rows ∧
    chats = rows.mapM chatOfRow

-- `insert into messages(id, sender, receiver, message, timestamp)`, where there are users with these ids.
-- The foreign keys are checked at the end of the insertion.
def insert (db : PostgresDb) (userIds : List UserId) (row : Message) : Except PgError PostgresDb :=
  if h : row.id ∈ db.messages.map (·.id) then
    .error .uniqueViolation
  else if row.sender ∈ userIds ∧ row.receiver ∈ userIds then
    .ok {
      messages     := db.messages ++ [row]
      messagesPkey := by
        rw [List.map_append, List.map_singleton, List.nodup_append]
        simpa using ⟨db.messagesPkey, fun _ hm he => h <| he ▸ List.mem_map_of_mem hm⟩ }
  else
    .error .foreignKeyViolation

def createMessage (db : PostgresDb) (userIds : List UserId) (m : Message) : Except PgError PostgresDb := do
  let message   ← bind m.message
  let timestamp ← timestamptz m.timestamp
  db.insert userIds { m with message, timestamp }

-- What the columns and the foreign keys ask of a new message.
def Accepts (userIds : List UserId) (m : Message) : Prop :=
  IsText m.message ∧ IsTimestamptz m.timestamp ∧ m.sender ∈ userIds ∧ m.receiver ∈ userIds

instance (userIds : List UserId) (m : Message) : Decidable (Accepts userIds m) :=
  inferInstanceAs (Decidable (_ ∧ _))

-- The store after calls of `create_message`, unless one of them fails.
def createMessages (db : PostgresDb) (userIds : List UserId) (messages : List Message) :
    Except PgError PostgresDb :=
  messages.foldlM (createMessage · userIds) db

end PostgresDb
end Pheidippides
