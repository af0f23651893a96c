import Pheidippides.Objects.DataAccess
import Pheidippides.Postgres.Values
import Pheidippides.Primitives.Like
import Pheidippides.Primitives.System
import Mathlib.Data.List.Nodup

open Pheidippides.Unicode

namespace Pheidippides

-- `lower` of SQL, which maps each character on its own.
class SqlLower where
  lowerChar : Char → Char

namespace Postgres

def lower [SqlLower] (s : String) : String :=
  .ofList <| s.toList.map SqlLower.lowerChar

end Postgres

open Postgres

-- The table of users in Postgres.
structure PostgresUsers where
  users            : List User
  usersPkey        : (users.map (·.id)).Nodup
  usersUsernameKey : (users.map (·.username)).Nodup
  columns          : ∀ user ∈ users, IsText user.username ∧ user.username.length ≤ 150

namespace PostgresUsers

def empty : PostgresUsers where
  users            := []
  usersPkey        := .nil
  usersUsernameKey := .nil
  columns          := by simp

def single (username : String) (text : IsText username) (short : username.length ≤ 150) :
    PostgresUsers where
  users            := [⟨username, 0⟩]
  usersPkey        := by simp
  usersUsernameKey := by simp
  columns          := by simpa using ⟨text, short⟩

def fetchUsers (db : PostgresUsers) : List (UserId × String) :=
  db.users.map fun user => (user.id, user.username)

-- `insert into users(user_id, username) values ($1, $2)`
def insert (db : PostgresUsers) (userId : UserId) (username : Varchar 150) :
    Except PgError PostgresUsers :=
  if h : userId ∉ db.users.map (·.id) ∧ username.val ∉ db.users.map (·.username) then
    .ok {
      users            := db.users ++ [⟨username, userId⟩]
      usersPkey        := by simpa [List.nodup_append_comm, List.nodup_cons, db.usersPkey] using h.left
      usersUsernameKey := by
        simpa [List.nodup_append_comm, List.nodup_cons, db.usersUsernameKey] using h.right
      columns          := by
        intro user hu
        obtain hu | hu := List.mem_append.mp hu
        · exact db.columns user hu
        · exact List.mem_singleton.mp hu ▸ username.property }
  else
    .error .uniqueViolation

variable [Unicode] [SqlLower]

-- The rows of `where lower(username) = $1`.
def rowsNamed (db : PostgresUsers) (lowercase : String) : List User :=
  db.users.filter (lower ·.username == lowercase)

-- The whole transaction, which has a lock on the table.
def createUser (db : PostgresUsers) (username : String) (userId : UserId) :
    Except PgError (Option UserId) × PostgresUsers :=
  match bind (toLowercase username) with
  | .error e => (.error e, db)
  | .ok lowercase =>
    if db.rowsNamed lowercase ≠ [] then
      (.ok none, db)
    else match (varchar 150 username).bind (db.insert userId) with
      | .error e => (.error e, db)
      | .ok db   => (.ok (some userId), db)

-- The answers which the database may give, since any row that is found may come first.
def FindUserByUsername (db : PostgresUsers) (requestedUsername : String)
    (found : Except PgError (Option UserId)) : Prop :=
  match bind (toLowercase requestedUsername) with
  | .error e      => found = .error e
  | .ok lowercase =>
    let rows := db.rowsNamed lowercase
    (rows = [] ∧ found = .ok none) ∨ ∃ user ∈ rows, found = .ok (some user.id)

-- `where lower(username) like $1` with the query between two `%`, in any order.
def FindUsersBySubstring (db : PostgresUsers) (searchQuery : String)
    (found : Except PgError (List User)) : Prop :=
  match bind ("%" ++ toLowercase searchQuery ++ "%") with
  | .error e    => found = .error e
  | .ok pattern =>
    match Like.tokens pattern.toList with
    | none        => found = .error .invalidEscapeSequence
    | some tokens => ∃ users, found = .ok users ∧
      users.Perm (db.users.filter fun user => Like.accepts tokens (lower user.username).toList)

-- The calls of `create_user` take effect one after the other. The new id is drawn by the call.
inductive Event
  | createUser (username : String) (userId : UserId)

def step (db : PostgresUsers) : Event → PostgresUsers
  | .createUser username userId => (db.createUser username userId).2

def system : System PostgresUsers Event where
  init := empty
  step := step

-- The usernames as the queries see them.
def lowercaseNames (db : PostgresUsers) : List String :=
  db.users.map (lower ·.username)

-- A call would add a row with the name `stored`.
def Admits (db : PostgresUsers) (username : String) (userId : UserId) (stored : Varchar 150) : Prop :=
  IsText (toLowercase username) ∧ toLowercase username ∉ db.lowercaseNames ∧
    varchar 150 username = .ok stored ∧ userId ∉ db.users.map (·.id) ∧
    stored.val ∉ db.users.map (·.username)

-- The user has the name to himself, whatever its letter case.
def Owns (db : PostgresUsers) (userId : UserId) (username : String) : Prop :=
  ∀ username', toLowercase username' = toLowercase username →
    (∀ found, db.FindUserByUsername username' found ↔ found = .ok (some userId)) ∧
    ∀ id, (db.createUser username' id).1 = .ok none

-- From the call that creates a user on, the user owns the name.
def OneNamespace (es : List Event) : Prop :=
  ∀ {es₁ es₂ es₃ username userId}, es = es₁ ++ .createUser username userId :: es₂ ++ es₃ →
    username.length ≤ 150 → ((system.run es₁).createUser username userId).1 = .ok (some userId) →
    (system.run (es₁ ++ .createUser username userId :: es₂)).Owns userId username

-- A name that is added is folded alike by both sides.
def FoldsAlike (db : PostgresUsers) : Event → Prop
  | .createUser username userId => ∀ {stored}, db.Admits username userId stored →
    username.length ≤ 150 → lower username = toLowercase username

-- A name that is too long, and is added because it ends in spaces, is not folded like one that is there.
def CutsApart (db : PostgresUsers) : Event → Prop
  | .createUser username userId => ∀ {stored}, db.Admits username userId stored →
    150 < username.length → lower stored.val ∉ db.lowercaseNames

-- The database has a lowercase form of the string, and it is that of the server.
def SameFold (s : String) : Prop :=
  IsText (toLowercase s) ∧ lower s = toLowercase s

instance (s : String) : Decidable (SameFold s) :=
  inferInstanceAs (Decidable (_ ∧ _))

-- A query finds what the default implementation finds in any table whose names are folded alike.
def SearchesSubstring (searchQuery : String) : Prop :=
  ∀ db : PostgresUsers, (∀ user ∈ db.users, SameFold user.username) →
    ∀ found, db.FindUsersBySubstring searchQuery found → ∃ users, found = .ok users ∧
      users.Perm (DataAccess.defaultFindUsersBySubstring db.fetchUsers searchQuery)

-- No name is long enough for the pattern.
def TooLong (searchQuery : String) : Prop :=
  ∀ pat ∈ Like.tokens ((toLowercase searchQuery).toList ++ ['%']), 150 < Like.need pat

-- A character which is its own lowercase.
def IsLower (c : Char) : Prop :=
  toLowercase (.singleton c) = .singleton c

-- What is known of lowercase characters: lowercase forms consist of them, and neither side changes them.
class LawfulLower : Prop where
  percent               : IsLower '%'
  letter                : IsLower 'a'
  isLower_of_mem        : ∀ {s : String} {c}, c ∈ (toLowercase s).toList → IsLower c
  toLowercase_of_isLower : ∀ {s : String}, (∀ c ∈ s.toList, IsLower c) → toLowercase s = s
  lowerChar_of_isLower  : ∀ {c}, IsLower c → SqlLower.lowerChar c = c

end PostgresUsers
end Pheidippides
