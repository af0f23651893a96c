import Pheidippides.Postgres.Theorems.Auth
import Pheidippides.Postgres.Theorems.Messages
import Pheidippides.Postgres.Theorems.Users

open Pheidippides.Postgres

namespace Pheidippides

def PostgresUsers.ids (db : PostgresUsers) : List UserId :=
  db.users.map (·.id)

theorem PostgresUsers.ids_subset_createUser [Unicode] [SqlLower] {db : PostgresUsers}
    {username : String} {userId : UserId} : db.ids ⊆ (db.createUser username userId).2.ids :=
  List.map_subset _ fun _ h => PostgresUsers.mem_exec h [.createUser username userId]

-- The whole database, with the constraints between its tables.
structure PostgresStore where
  users            : PostgresUsers
  auth             : PostgresAuth
  messages         : PostgresDb
  authUserIdFkey   : ∀ row ∈ auth.rows, row.userId ∈ users.ids
  messagesFromFkey : ∀ m ∈ messages.messages, m.sender ∈ users.ids
  messagesToFkey   : ∀ m ∈ messages.messages, m.receiver ∈ users.ids
  messageColumn    : ∀ m ∈ messages.messages, IsText m.message

namespace PostgresStore

def empty : PostgresStore where
  users            := .empty
  auth             := .empty
  messages         := .empty
  authUserIdFkey   := by simp [PostgresAuth.empty]
  messagesFromFkey := by simp [PostgresDb.empty]
  messagesToFkey   := by simp [PostgresDb.empty]
  messageColumn    := by simp [PostgresDb.empty]

-- A write to the table of users never takes one away.
def withUsers (db : PostgresStore) (users : PostgresUsers) (h : db.users.ids ⊆ users.ids) :
    PostgresStore :=
  { db with
    users
    authUserIdFkey row hr := h <| db.authUserIdFkey row hr
    messagesFromFkey m hm := h <| db.messagesFromFkey m hm
    messagesToFkey m hm   := h <| db.messagesToFkey m hm }

def fetchUser (db : PostgresStore) (userId : UserId) : Option User :=
  (db.users.users.find? (·.id == userId)).map fun row => ⟨row.username, userId⟩

def createMessage (db : PostgresStore) (m : Message) : Except Postgres.Error Unit × PostgresStore :=
  match h : db.messages.createMessage db.users.ids m with
  | .error e     => (.error <| .pgError e, db)
  | .ok messages =>
    have accepted := (PostgresDb.createMessage_of_eq_ok h).left
    (.ok (), { db with
      messages
      messagesFromFkey :=
        (PostgresDb.forall_createMessage h).mpr ⟨db.messagesFromFkey, accepted.right.right.left⟩
      messagesToFkey   :=
        (PostgresDb.forall_createMessage h).mpr ⟨db.messagesToFkey, accepted.right.right.right⟩
      messageColumn    := (PostgresDb.forall_createMessage h).mpr ⟨db.messageColumn, accepted.left⟩ })

def createUser [Unicode] [SqlLower] (db : PostgresStore) (username : String) (userId : UserId) :
    Except Postgres.Error (Option UserId) × PostgresStore :=
  ((db.users.createUser username userId).1.mapError .pgError,
    db.withUsers (db.users.createUser username userId).2 PostgresUsers.ids_subset_createUser)

variable [PasswordHash]

def fetchAuthentication (db : PostgresStore) (userId : UserId) :
    Except Postgres.Error (Option AuthenticationInfo) :=
  db.auth.fetchAuthentication userId

-- The foreign key is checked at the end of the insertion.
def updateAuthentication (db : PostgresStore) (userId : UserId) (info : AuthenticationInfo) :
    Except Postgres.Error (Option AuthenticationInfo) × PostgresStore :=
  match h : db.auth.updateAuthentication userId info with
  | (.error e, _) => (.error e, db)
  | (.ok oldAuth, auth) =>
    if known : userId ∈ db.users.ids then
      (.ok oldAuth, { db with
        auth
        authUserIdFkey := by
          intro row hr
          obtain he | hm := PostgresAuth.userId_of_updateAuthentication h hr
          · exact he ▸ known
          · obtain ⟨old, ho, he⟩ := List.mem_map.mp hm
            exact he ▸ db.authUserIdFkey old ho })
    else
      (.error <| .pgError .foreignKeyViolation, db)

-- The calls which write, each of which takes effect at once. What a call draws is among its arguments.
inductive Event
  | createUser (username : String) (userId : UserId)
  | updateAuthentication (userId : UserId) (info : AuthenticationInfo)
  | createMessage (m : Message)

variable [Unicode] [SqlLower]

def step (db : PostgresStore) : Event → PostgresStore
  | .createUser username userId       => (db.createUser username userId).2
  | .updateAuthentication userId info => (db.updateAuthentication userId info).2
  | .createMessage m                  => (db.createMessage m).2

def system : System PostgresStore Event where
  init := empty
  step := step

end PostgresStore
end Pheidippides
