import Pheidippides.Objects.DataAccess
import Pheidippides.Primitives.SkipPast
import Mathlib.Logic.Function.Basic

namespace Pheidippides

namespace MockDb

inductive Error
  | threadPoisonError
  deriving DecidableEq, Repr

structure AuthRecord where
  userId    : UserId
  phcString : String
  deriving DecidableEq, Repr

end MockDb

-- A table behind a lock. The lock is poisoned once a thread has panicked while holding it.
structure Mutex (α : Type) where
  value    : α
  poisoned : Bool
  deriving DecidableEq, Repr

namespace Mutex

variable {α β : Type}

def new (value : α) : Mutex α where
  value    := value
  poisoned := false

def lock (m : Mutex α) : Except MockDb.Error α :=
  if m.poisoned then .error .threadPoisonError else .ok m.value

def write (m : Mutex α) (value : α) : Mutex α :=
  { m with value }

theorem lock_eq_ok_iff {m : Mutex α} {a : α} :
    m.lock = .ok a ↔ m.poisoned = false ∧ m.value = a := by
  cases h : m.poisoned <;> simp [lock, h]

theorem lock_eq_error_iff {m : Mutex α} {e : MockDb.Error} :
    m.lock = .error e ↔ m.poisoned = true := by
  cases e
  cases h : m.poisoned <;> simp [lock, h]

end Mutex

-- The in-memory store. A message record has the fields of a message.
structure MockDb where
  users    : Mutex (List (UserId × String))
  messages : Mutex (List Message)
  auth     : Mutex (List MockDb.AuthRecord)
  deriving DecidableEq, Repr

namespace MockDb

def empty : MockDb where
  users    := .new []
  messages := .new []
  auth     := .new []

def fetchUsers (db : MockDb) : Except Error (List (UserId × String)) :=
  db.users.lock

section Users

variable [Unicode]

open Unicode

def usernameTaken (table : List (UserId × String)) (username : String) : Bool :=
  table.any fun record => toLowercase record.2 == toLowercase username

def createUser (db : MockDb) (username : String) (userId : UserId) :
    Except Error (Option UserId) × MockDb :=
  match db.users.lock with
  | .error e => (.error e, db)
  | .ok table =>
    if usernameTaken table username then
      (.ok none, db)
    else
      (.ok (some userId), { db with users := db.users.write (table ++ [(userId, username)]) })

end Users

-- The map into which the users are collected, where the last of two equal ids wins.
def usernames (users : List (UserId × String)) : UserId → Option String :=
  users.foldl (fun res (userId, username) => Function.update res userId (some username)) fun _ => none

def chatInfo (users : UserId → Option String) (userId : UserId) (m : Message) : Option User :=
  let user (id : UserId) : User := ⟨(users id).getD "<unknown user id>", id⟩
  if m.sender = userId then some (user m.receiver)
  else if m.receiver = userId then some (user m.sender)
  else none

def usersChats (users : List (UserId × String)) (messages : List Message) (userId : UserId) :
    List User :=
  messages.reverse.filterMap (chatInfo (usernames users) userId)
    |>.foldl (fun state chat => if chat ∈ state then state else state ++ [chat]) []

def findUsersChats (db : MockDb) (userId : UserId) : Except Error (List User) := do
  let users ← db.fetchUsers
  let messages ← db.messages.lock
  return usersChats users messages userId

def lastMessagesInChat (messages : List Message) (userId₁ userId₂ : UserId)
    (startingPoint : Option MessageId) : List Message :=
  messages.reverse
    |>.dropWhile (fun m => match startingPoint with
      | some startingId => m.id != startingId
      | none            => false)
    |>.drop (if startingPoint.isSome then 1 else 0)
    |>.filter (·.Between userId₁ userId₂)
    |>.take messageLoadBufSize

def fetchLastMessagesInChat (db : MockDb) (userId₁ userId₂ : UserId)
    (startingPoint : Option MessageId) : Except Error (List Message) := do
  let messages ← db.messages.lock
  return lastMessagesInChat messages userId₁ userId₂ startingPoint

def usersMessagesSince (messages : List Message) (userId : UserId) (startingPoint : MessageId) :
    List Message :=
  messages
    |>.dropWhile (·.id != startingPoint)
    |>.drop 1
    |>.filter (·.Concerns userId)

def fetchUsersMessagesSince (db : MockDb) (userId : UserId) (startingPoint : MessageId) :
    Except Error (List Message) := do
  let messages ← db.messages.lock
  return usersMessagesSince messages userId startingPoint

def createMessage (db : MockDb) (m : Message) : Except Error Unit × MockDb :=
  match db.messages.lock with
  | .error e     => (.error e, db)
  | .ok messages => (.ok (), { db with messages := db.messages.write (messages ++ [m]) })

-- The store after calls of `create_message`.
def createMessages (db : MockDb) (messages : List Message) : MockDb :=
  messages.foldl (fun db m => (db.createMessage m).2) db

def fetchAuthentication (db : MockDb) (userId : UserId) :
    Except Error (Option AuthenticationInfo) := do
  let auth ← db.auth.lock
  return auth.filterMap (fun record =>
    if record.userId = userId then some ⟨record.phcString⟩ else none) |>.head?

-- Overwrites the first record of the user, or adds one.
def replaceAuth (userId : UserId) (authInfo : AuthenticationInfo) :
    List AuthRecord → Option AuthenticationInfo × List AuthRecord
  | [] => (none, [⟨userId, authInfo.phcString⟩])
  | record :: table =>
    if record.userId = userId then
      (some ⟨record.phcString⟩, { record with phcString := authInfo.phcString } :: table)
    else
      let (oldAuth, table) := replaceAuth userId authInfo table
      (oldAuth, record :: table)

def updateAuthentication (db : MockDb) (userId : UserId) (authInfo : AuthenticationInfo) :
    Except Error (Option AuthenticationInfo) × MockDb :=
  match db.auth.lock with
  | .error e => (.error e, db)
  | .ok table =>
    let (oldAuth, table) := replaceAuth userId authInfo table
    (.ok oldAuth, { db with auth := db.auth.write table })

-- Somebody reads a chat page by page, each from the last message of the one before, until there is an
-- empty one. The store may be another one at each request.
def historyPage (dbs : Nat → MockDb) (userId₁ userId₂ : UserId) : Nat → Except Error (List Message)
  | 0     => (dbs 0).fetchLastMessagesInChat userId₁ userId₂ none
  | k + 1 => do
    let page ← historyPage dbs userId₁ userId₂ k
    match page.getLast? with
    | some m => (dbs (k + 1)).fetchLastMessagesInChat userId₁ userId₂ (some m.id)
    | none   => return []

-- The pages so far, which come newest first, put before each other in reverse.
def historyBuffer (dbs : Nat → MockDb) (userId₁ userId₂ : UserId) : Nat → Except Error (List Message)
  | 0     => return []
  | k + 1 => do
    let page ← historyPage dbs userId₁ userId₂ k
    let buffer ← historyBuffer dbs userId₁ userId₂ k
    return page.reverse ++ buffer

instance [Unicode] : DataAccess MockDb Error where
  fetchUsers                := fetchUsers
  fetchUser db userId       := (db.fetchUsers).map (DataAccess.defaultFetchUser · userId)
  findUserByUsername db s   := (db.fetchUsers).map (DataAccess.defaultFindUserByUsername · s)
  findUsersBySubstring db s := (db.fetchUsers).map (DataAccess.defaultFindUsersBySubstring · s)
  createUser                := createUser
  findUsersChats            := findUsersChats
  fetchLastMessagesInChat   := fetchLastMessagesInChat
  fetchUsersMessagesSince   := fetchUsersMessagesSince
  createMessage             := createMessage

instance : AuthStorage MockDb Error where
  fetchAuthentication  := fetchAuthentication
  updateAuthentication := updateAuthentication

end MockDb
end Pheidippides
