import Pheidippides.Postgres.Store

open Pheidippides.Postgres

namespace Pheidippides

namespace Postgres

-- The connection of a call is lost before its transaction is committed, or before the call hears of that.
inductive Fault
  | aborted
  | unacknowledged
  deriving DecidableEq, Repr

end Postgres

-- The database behind its connections. `faults` is what will happen to the coming calls which write.
structure PostgresPool where
  store  : PostgresStore
  faults : List (Option Fault)

namespace PostgresPool

def fault (db : PostgresPool) (i : Nat) : Option Fault :=
  db.faults[i]?.join

-- What becomes of a call which would return `res` and leave `store` behind. An answer for which
-- `commits` is false is given without a commit.
def transact {α : Type} (db : PostgresPool) (commits : α → Bool) (res : Except Postgres.Error α)
    (store : PostgresStore) : Except Postgres.Error α × PostgresPool :=
  let faults := db.faults.tail
  match db.fault 0 with
  | none                 => (res, ⟨store, faults⟩)
  | some .aborted        => (.error <| .pgError .connectionFailure, ⟨db.store, faults⟩)
  | some .unacknowledged =>
    (res.bind fun a => if commits a then .error <| .pgError .connectionFailure else .ok a, ⟨store, faults⟩)

def createUser [Unicode] [SqlLower] (db : PostgresPool) (username : String) (userId : UserId) :
    Except Postgres.Error (Option UserId) × PostgresPool :=
  let (res, store) := db.store.createUser username userId
  db.transact Option.isSome res store

def createMessage (db : PostgresPool) (m : Message) : Except Postgres.Error Unit × PostgresPool :=
  let (res, store) := db.store.createMessage m
  db.transact (fun _ => true) res store

def updateAuthentication [PasswordHash] (db : PostgresPool) (userId : UserId) (info : AuthenticationInfo) :
    Except Postgres.Error (Option AuthenticationInfo) × PostgresPool :=
  let (res, store) := db.store.updateAuthentication userId info
  db.transact (fun _ => true) res store

-- The answers to the queries, where the database has a choice and connections may be lost as well.
class Queries where
  fetchUsers              : PostgresPool → Except Postgres.Error (List (UserId × String))
  fetchUser               : PostgresPool → UserId → Except Postgres.Error (Option User)
  findUserByUsername      : PostgresPool → String → Except Postgres.Error (Option UserId)
  findUsersBySubstring    : PostgresPool → String → Except Postgres.Error (List User)
  findUsersChats          : PostgresPool → UserId → Except Postgres.Error (List User)
  fetchLastMessagesInChat :
    PostgresPool → UserId → UserId → Option MessageId → Except Postgres.Error (List Message)
  fetchUsersMessagesSince : PostgresPool → UserId → MessageId → Except Postgres.Error (List Message)
  fetchAuthentication     : PostgresPool → UserId → Except Postgres.Error (Option AuthenticationInfo)

variable [Queries]

instance [Unicode] [SqlLower] : DataAccess PostgresPool Postgres.Error where
  fetchUsers              := Queries.fetchUsers
  fetchUser               := Queries.fetchUser
  findUserByUsername      := Queries.findUserByUsername
  findUsersBySubstring    := Queries.findUsersBySubstring
  createUser              := createUser
  findUsersChats          := Queries.findUsersChats
  fetchLastMessagesInChat := Queries.fetchLastMessagesInChat
  fetchUsersMessagesSince := Queries.fetchUsersMessagesSince
  createMessage           := createMessage

instance [PasswordHash] : AuthStorage PostgresPool Postgres.Error where
  fetchAuthentication  := Queries.fetchAuthentication
  updateAuthentication := updateAuthentication

end PostgresPool
end Pheidippides
