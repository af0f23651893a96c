import Pheidippides.Auth.AuthenticationInfo
import Pheidippides.Postgres.Users

open Pheidippides.Postgres

namespace Pheidippides

namespace Postgres

inductive Error
  | pgError (e : PgError)
  | authInfoParsingError (e : AuthenticationInfoParsingError)
  deriving DecidableEq, Repr

structure AuthRow where
  userId    : UserId
  phcString : Varchar 250

def AuthRow.overwrite (phcString : Varchar 250) (userId : UserId) (row : AuthRow) : AuthRow :=
  if row.userId = userId then { row with phcString } else row

@[simp]
theorem AuthRow.userId_overwrite {phcString : Varchar 250} {userId : UserId} {row : AuthRow} :
    (row.overwrite phcString userId).userId = row.userId := by
  rw [overwrite]
  split <;> rfl

end Postgres

-- The table of authentications in Postgres.
structure PostgresAuth where
  rows     : List AuthRow
  authPkey : (rows.map (·.userId)).Nodup

namespace PostgresAuth

def empty : PostgresAuth where
  rows     := []
  authPkey := List.nodup_nil

-- `select phc_string from auth where user_id = $1`
def phcStringOf (db : PostgresAuth) (userId : UserId) : Option (Varchar 250) :=
  (db.rows.find? (·.userId == userId)).map (·.phcString)

-- `insert into auth (user_id, phc_string) values ($1, $2)`
def insert (db : PostgresAuth) (userId : UserId) (phcString : Varchar 250) : Except PgError PostgresAuth :=
  if h : userId ∉ db.rows.map (·.userId) then
    .ok {
      rows     := db.rows ++ [⟨userId, phcString⟩]
      authPkey := by simpa [List.nodup_append_comm, List.nodup_cons, db.authPkey] using h }
  else
    .error .uniqueViolation

-- `update auth set phc_string = $1 where user_id = $2`
def update (db : PostgresAuth) (phcString : Varchar 250) (userId : UserId) : PostgresAuth where
  rows     := db.rows.map (·.overwrite phcString userId)
  authPkey := by simpa [Function.comp_def] using db.authPkey

variable [PasswordHash]

-- What is made of a row that has been found.
def authInfo (phcString : Varchar 250) : Except Postgres.Error AuthenticationInfo :=
  (AuthenticationInfo.fromStr phcString.val).mapError .authInfoParsingError

def fetchAuthentication (db : PostgresAuth) (userId : UserId) :
    Except Postgres.Error (Option AuthenticationInfo) :=
  match db.phcStringOf userId with
  | none           => .ok none
  | some phcString => (authInfo phcString).map some

-- The whole transaction, which has a lock on the table. Its insertion has yet to meet the foreign key.
def updateAuthentication (db : PostgresAuth) (userId : UserId) (info : AuthenticationInfo) :
    Except Postgres.Error (Option AuthenticationInfo) × PostgresAuth :=
  match db.phcStringOf userId with
  | some oldPhcString =>
    match authInfo oldPhcString with
    | .error e    => (.error e, db)
    | .ok oldAuth =>
      match varchar 250 info.phcString with
      | .error e       => (.error <| .pgError e, db)
      | .ok phcString  => (.ok <| some oldAuth, db.update phcString userId)
  | none =>
    match (varchar 250 info.phcString).bind (db.insert userId) with
    | .error e => (.error <| .pgError e, db)
    | .ok db   => (.ok none, db)

end PostgresAuth

end Pheidippides
