import Pheidippides.Postgres.Identifiers
import Pheidippides.Postgres.Store

open Paging Grouping Pheidippides.Postgres

namespace Pheidippides

namespace PostgresDb

-- A call of `fetch_last_messages_in_chat`, which looks up its starting point in the state `db₁` and
-- reads the page in the state `db₂`.
def FetchesLastMessagesInChat (db₁ db₂ : PostgresDb) (userId₁ userId₂ : UserId)
    (startingPoint : Option MessageId) (messages : List Message) : Prop :=
  let rows := db₂.messages.filter fun m =>
    decide (m.Between userId₁ userId₂) && db₁.beforeStartingPoint startingPoint m
  IsPage Message.timestamp messageLoadBufSize rows messages

-- Likewise for `fetch_users_messages_since`, which has no second query if it does not find the starting
-- point.
def FetchesUsersMessagesSince (db₁ db₂ : PostgresDb) (userId : UserId) (startingPoint : MessageId)
    (messages : List Message) : Prop :=
  match db₁.timestampOf startingPoint with
  | none              => messages = []
  | some msgTimestamp =>
    messages.Perm (db₂.rowsSince userId msgTimestamp startingPoint) ∧
      messages.Pairwise (·.timestamp ≤ ·.timestamp)

-- `… as last_messages left join users`
def leftJoinUsers (lastMessages : List (UserId × Timestamp)) (users : List (UserId × String)) :
    List ((UserId × Timestamp) × Option String) :=
  lastMessages.flatMap fun lastMessage =>
    match users.filter (·.1 = lastMessage.1) with
    | []   => [(lastMessage, none)]
    | rows => rows.map fun user => (lastMessage, some user.2)

end PostgresDb

namespace Postgres

-- What the server keeps of a name, which are as many whole characters as there is room for.
def clip : Nat → List Char → List Char
  | _, []        => []
  | room, c :: l => if c.utf8Size ≤ room then c :: clip (room - c.utf8Size) l else []

-- The table with whose name a text begins.
def tableNamed (sql : String) : Option String :=
  match quotedIdentifier sql with
  | .ok (name, _) => some <| .ofList <| clip maxNameBytes name.toList
  | .error _      => none

abbrev UuidString :=
  { s : String // s.length = 36 ∧ ∀ c ∈ s.toList, c ∈ "0123456789abcdef-".toList }

-- The temporary tables of a connection. Each has the columns `user_id` and `timestamp`.
abbrev TempTables :=
  List (String × List (UserId × Timestamp))

namespace TempTables

-- `create temp table … as`
def create (tables : TempTables) (sql : String) (rows : List (UserId × Timestamp)) :
    Option TempTables := do
  let name ← tableNamed sql
  if name ∈ tables.map (·.1) then none else some <| tables ++ [(name, rows)]

-- `select … from …`
def rows (tables : TempTables) (sql : String) : Option (List (UserId × Timestamp)) := do
  let name ← tableNamed sql
  (tables.find? (·.1 = name)).map (·.2)

-- `drop table …`
def drop (tables : TempTables) (sql : String) : Option TempTables := do
  let name ← tableNamed sql
  if name ∈ tables.map (·.1) then some <| tables.filter (·.1 ≠ name) else none

end TempTables

abbrev Statement :=
  TempTables → Option TempTables

def succeed (tables : TempTables) (statements : List Statement) : Option TempTables :=
  statements.foldlM (fun tables (statement : Statement) => statement tables) tables

-- The tables after some statements, of which the first one that fails is the last one.
def execute (tables : TempTables) : List Statement → TempTables
  | [] => tables
  | statement :: statements =>
    match statement tables with
    | none        => tables
    | some tables => execute tables statements

-- A call of `find_users_chats`, with the ids which it draws for its two tables.
structure ChatsCall where
  userId : UserId
  uuid₁  : UuidString
  uuid₂  : UuidString

namespace ChatsCall

variable (call : ChatsCall)

def chatIds : String :=
  tempTableName "chat_ids" call.uuid₁

def chatIdsGrouped : String :=
  tempTableName "chat_ids_grouped" call.uuid₂

def createChatIds (db : PostgresDb) : Statement := fun tables =>
  tables.create (call.chatIds ++ " as") (db.chatIds call.userId)

def createChatIdsGrouped : Statement := fun tables => do
  let rows ← tables.rows (call.chatIds ++ "\n")
  tables.create (call.chatIdsGrouped ++ " as") (groupMax rows)

def dropChatIds : Statement := fun tables =>
  tables.drop (call.chatIds ++ ";")

def lastMessages (tables : TempTables) : Option (List (UserId × Timestamp)) :=
  tables.rows (call.chatIdsGrouped ++ " as last_messages")

def selectLastMessages : Statement := fun tables =>
  (call.lastMessages tables).map fun _ => tables

def dropChatIdsGrouped : Statement := fun tables =>
  tables.drop (call.chatIdsGrouped ++ ";")

-- The first statement sees the state `db` of the messages.
def statements (db : PostgresDb) : List Statement :=
  [call.createChatIds db, call.createChatIdsGrouped, call.dropChatIds, call.selectLastMessages,
    call.dropChatIdsGrouped]

-- A call whose statements succeed answers with the rows of the fourth one, which sees the state `users`,
-- in any order by their timestamps. The answer is `none` where reading a row panics.
def Answers (db : PostgresDb) (users : List (UserId × String)) (tables : TempTables)
    (chats : Option (List User)) : Prop :=
  ∃ tables₃ lastMessages rows, succeed tables ((call.statements db).take 3) = some tables₃ ∧
    call.lastMessages tables₃ = some lastMessages ∧
    rows.Perm (PostgresDb.leftJoinUsers lastMessages users) ∧ Descending (·.1.2) rows ∧
    chats = rows.mapM PostgresDb.chatOfRow ∧ succeed tables (call.statements db) ≠ none

end ChatsCall

-- A connection serves one call after another. A call may break off after any number of statements, and
-- leaves the tables behind which it has not dropped.
namespace Connection

structure Event where
  call  : ChatsCall
  db    : PostgresDb
  count : Nat

def step (tables : TempTables) (e : Event) : TempTables :=
  execute tables <| (e.call.statements e.db).take e.count

def system : System TempTables Event where
  init := []
  step := step

end Connection
end Postgres
end Pheidippides
