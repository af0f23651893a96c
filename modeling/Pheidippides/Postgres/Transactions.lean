import Pheidippides.Postgres.Auth
import Pheidippides.Postgres.Users
import Pheidippides.Primitives.Transactions

open Transactions Pheidippides.Unicode Pheidippides.Postgres

-- The two transactions by their statements. Each begins with `lock table … in exclusive mode`, and whoever
-- drops a transaction rolls it back.
namespace Pheidippides

namespace PostgresUsers

variable [Unicode] [SqlLower]

def insertBody (username : String) (userId : UserId) :
    Body PostgresUsers (Except PgError (Option UserId)) :=
  let inserted (db : PostgresUsers) := (varchar 150 username).bind (db.insert userId)
  .statement (fun db => (inserted db).toOption.getD db) fun db =>
    match inserted db with
    | .error e => .rollback <| .error e
    | .ok _    => .commit <| .ok <| some userId

def createUserBody : Event → Body PostgresUsers (Except PgError (Option UserId))
  | .createUser username userId => .statement id fun db =>
    match bind (toLowercase username) with
    | .error e      => .rollback <| .error e
    | .ok lowercase =>
      if db.rowsNamed lowercase ≠ [] then
        .rollback <| .ok none
      else
        insertBody username userId

end PostgresUsers

namespace PostgresAuth

-- A call of `update_authentication`.
structure Update where
  userId : UserId
  info   : AuthenticationInfo

variable [PasswordHash]

-- The statement which writes. `old` is the row that has been found.
def writeBody (update : Update) (old : Option AuthenticationInfo) :
    Body PostgresAuth (Except Postgres.Error (Option AuthenticationInfo)) :=
  let written (db : PostgresAuth) := (varchar 250 update.info.phcString).bind fun phcString =>
    match old with
    | some _ => .ok <| db.update phcString update.userId
    | none   => db.insert update.userId phcString
  .statement (fun db => (written db).toOption.getD db) fun db =>
    match written db with
    | .error e => .rollback <| .error <| .pgError e
    | .ok _    => .commit <| .ok old

-- A violation of the foreign key is one of the ways in which a transaction may break off.
def updateBody (update : Update) :
    Body PostgresAuth (Except Postgres.Error (Option AuthenticationInfo)) :=
  .statement id fun db =>
    match db.fetchAuthentication update.userId with
    | .error e => .rollback <| .error e
    | .ok old  => writeBody update old

-- The column takes the info as it is.
def Update.Storable (update : Update) : Prop :=
  update.info.IsPhc ∧ IsText update.info.phcString ∧ update.info.phcString.length ≤ 250

-- The info which the last of some updates has given the user.
def lastInfo (updates : List Update) (userId : UserId) : Option AuthenticationInfo :=
  (updates.filter (·.userId = userId)).getLast?.map (·.info)

end PostgresAuth
end Pheidippides
