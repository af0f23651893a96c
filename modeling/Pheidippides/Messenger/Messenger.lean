import Pheidippides.Auth.Argon2
import Pheidippides.Objects.LawfulStore

namespace Pheidippides

-- The contexts which `Messenger` adds to the errors of the store and of the authorization service.
inductive MessengerError (ε δ : Type)
  | couldntFetchUser (userId : UserId) (e : ε)
  | couldntFetchUserId (username : String) (e : ε)
  | couldntFetchChats (userId : UserId) (e : ε)
  | couldntProcessSearchRequest (substring : String) (e : ε)
  | couldntCreateMessage (sender receiver : UserId) (e : ε)
  | couldNotFetchLastMessages (currentUser otherUser : UserId) (startingPoint : Option MessageId) (e : ε)
  | couldntSubscribe (e : ε)
  | couldntVerifyUser (userId : UserId) (e : AuthServiceError δ)
  | couldntCreateUser (login : String) (e : ε)
  | couldntCreateAuthorization (login : String) (e : AuthServiceError δ)
  deriving DecidableEq, Repr

namespace Messenger

variable {σ ε δ : Type} [DataAccess σ ε]

def fetchUser (store : σ) (userId : UserId) : Except (MessengerError ε δ) (Option User) :=
  (DataAccess.fetchUser store userId).mapError (.couldntFetchUser userId)

def fetchUsersChats (store : σ) (userId : UserId) : Except (MessengerError ε δ) (List User) :=
  (DataAccess.findUsersChats store userId).mapError (.couldntFetchChats userId)

def findUsersBySubstring (store : σ) (substring : String) : Except (MessengerError ε δ) (List User) :=
  (DataAccess.findUsersBySubstring store substring).mapError (.couldntProcessSearchRequest substring)

def fetchLastMessages (store : σ) (currentUser otherUser : UserId)
    (startingPoint : Option MessageId) : Except (MessengerError ε δ) (List Message) :=
  (DataAccess.fetchLastMessagesInChat store currentUser otherUser startingPoint).mapError
    (.couldNotFetchLastMessages currentUser otherUser startingPoint)

def findUserByUsername (store : σ) (username : String) : Except (MessengerError ε δ) (Option UserId) :=
  (DataAccess.findUserByUsername store username).mapError (.couldntFetchUserId username)

variable [AuthStorage σ δ] [Argon2]

-- The question which `verify_user` puts to the authorization service.
def verifyPassword (store : σ) (userId : UserId) (password : String) :
    Except (MessengerError ε δ) Bool :=
  (AuthServiceUsingArgon2.verifyUser store userId password).mapError (.couldntVerifyUser userId)

-- The two stores are what the two queries of the call see.
def verifyUser (store₁ store₂ : σ) (username password : String) :
    Except (MessengerError ε δ) (Option UserId) :=
  match DataAccess.findUserByUsername store₁ username with
  | .error e         => .error <| .couldntFetchUserId username e
  | .ok none         => .ok none
  | .ok (some userId) =>
    match AuthServiceUsingArgon2.verifyUser store₂ userId password with
    | .error e   => .error <| .couldntVerifyUser userId e
    | .ok true   => .ok <| some userId
    | .ok false  => .ok none

-- The first half of `create_user`. The call goes on if and only if it has got an id.
def insertUser (store : σ) (login : String) (userId : UserId) :
    Except (MessengerError ε δ) (Option UserId) × σ :=
  match DataAccess.createUser store login userId with
  | (.error e, store)   => (.error <| .couldntCreateUser login e, store)
  | (.ok userId, store) => (.ok userId, store)

-- The second half.
def authorizeUser (store : σ) (login password : String) (userId : UserId) (salt : Option String) :
    Except (MessengerError ε δ) (Option UserId) × σ :=
  match AuthServiceUsingArgon2.createUser store userId password salt with
  | (.error e, store) => (.error <| .couldntCreateAuthorization login e, store)
  | (.ok (), store)   => (.ok <| some userId, store)

def createUser (store : σ) (login password : String) (userId : UserId) (salt : Option String) :
    Except (MessengerError ε δ) (Option UserId) × σ :=
  match insertUser store login userId with
  | (.ok (some userId), store) => authorizeUser store login password userId salt
  | res                        => res

-- Nothing in the second half of a call fails: the password is hashed, and the hash is stored.
def Authorizes (store : σ) (password : String) (userId : UserId) (salt : Option String) : Prop :=
  ∃ salt' info old, salt = some salt' ∧ Argon2.hashPassword password salt' = some info ∧
    (AuthStorage.updateAuthentication store userId info).1 = .ok old

-- A call which has inserted a user gets to its end.
def Completes (store : σ) (login password : String) (userId : UserId) (salt : Option String) : Prop :=
  ∀ {id}, (DataAccess.createUser store login userId).1 = .ok (some id) →
    Authorizes (DataAccess.createUser store login userId).2 password userId salt

variable [LawfulStore σ]

-- A hash is stored, also if the answer to that gets lost.
def Authenticates (store : σ) (password : String) (userId : UserId) (salt : Option String) : Prop :=
  ∃ salt' info, salt = some salt' ∧ Argon2.hashPassword password salt' = some info ∧
    LawfulStore.auth (AuthStorage.updateAuthentication store userId info).2 userId ≠ none

omit [Argon2] in
-- An insertion which fails has not inserted anything.
def Reverts (store : σ) (login : String) (userId : UserId) : Prop :=
  ∀ e, (DataAccess.createUser store login userId).1 = .error e →
    LawfulStore.users (DataAccess.createUser store login userId).2 = LawfulStore.users store

-- A call which fails leaves the two tables as they were.
def LeavesNoTrace (store : σ) (login password : String) (userId : UserId) (salt : Option String) : Prop :=
  ∀ {e}, (createUser store login password userId salt).1 = .error e →
    LawfulStore.users (createUser store login password userId salt).2 = LawfulStore.users store ∧
      LawfulStore.auth (createUser store login password userId salt).2 = LawfulStore.auth store

end Messenger
end Pheidippides
