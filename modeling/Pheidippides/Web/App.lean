import Pheidippides.Objects.DataAccess

namespace Pheidippides

-- What `subscribe_to_new_messages` returns: the number of the subscription, and what is queued already.
structure Subscription where
  stream : Nat
  queue  : List Message
  deriving DecidableEq, Repr

-- The operations of `Messenger` that requests use. An operation which writes returns the messenger that
-- it leaves behind, also when it fails, and takes what it draws at random as arguments. Of `verify_user`
-- and `create_user` there are the halves, between which others get on.
class App (α : Type) (ε : outParam Type) where
  fetchUser              : α → UserId → Except ε (Option User)
  fetchUsersChats        : α → UserId → Except ε (List User)
  findUsersBySubstring   : α → String → Except ε (List User)
  fetchLastMessages      : α → UserId → UserId → Option MessageId → Except ε (List Message)
  sendMessage            :
    α → String → UserId → UserId → MessageId → Timestamp → Except ε MessageId × α
  subscribeToNewMessages : α → UserId → Option MessageId → Except ε Subscription × α
  findUserByUsername     : α → String → Except ε (Option UserId)
  verifyPassword         : α → UserId → String → Except ε Bool
  insertUser             : α → String → UserId → Except ε (Option UserId) × α
  authorizeUser          :
    α → String → String → UserId → Option String → Except ε (Option UserId) × α

namespace App

variable {α ε : Type} [App α ε]

def verifyUser (app : α) (username password : String) : Except ε (Option UserId) :=
  match findUserByUsername app username with
  | .error e          => .error e
  | .ok none          => .ok none
  | .ok (some userId) =>
    (verifyPassword app userId password).map fun verified => if verified then some userId else none

def createUser (app : α) (login password : String) (userId : UserId) (salt : Option String) :
    Except ε (Option UserId) × α :=
  match insertUser app login userId with
  | (.ok (some userId), app) => authorizeUser app login password userId salt
  | res                      => res

end App

-- The calls of these operations, with all of their arguments.
inductive Call
  | fetchUser (userId : UserId)
  | fetchUsersChats (userId : UserId)
  | findUsersBySubstring (substring : String)
  | fetchLastMessages (currentUser otherUser : UserId) (startingPoint : Option MessageId)
  | sendMessage (message : String) (sender receiver : UserId) (id : MessageId) (timestamp : Timestamp)
  | subscribeToNewMessages (userId : UserId) (startingPoint : Option MessageId)
  | findUserByUsername (username : String)
  | verifyPassword (userId : UserId) (password : String)
  | insertUser (login : String) (userId : UserId)
  | authorizeUser (login password : String) (userId : UserId) (salt : Option String)
  deriving DecidableEq, Repr

-- What can be done for a user.
inductive Service
  | sendMessage (message : String) (receiver : UserId)
  | fetchLastMessages (otherUser : UserId) (startingPoint : Option MessageId)
  | fetchChats
  | subscribe (startingPoint : Option MessageId)
  deriving DecidableEq, Repr

namespace Call

@[reducible]
def Answer : Call → Type
  | fetchUser _                => Option User
  | fetchUsersChats _          => List User
  | findUsersBySubstring _     => List User
  | fetchLastMessages ..       => List Message
  | sendMessage ..             => MessageId
  | subscribeToNewMessages ..  => Subscription
  | findUserByUsername _       => Option UserId
  | verifyPassword ..          => Bool
  | insertUser ..              => Option UserId
  | authorizeUser ..           => Option UserId

-- What comes of a call.
def perform {α ε : Type} [App α ε] (app : α) : (c : Call) → Except ε c.Answer × α
  | fetchUser userId                      => (App.fetchUser app userId, app)
  | fetchUsersChats userId                => (App.fetchUsersChats app userId, app)
  | findUsersBySubstring substring        => (App.findUsersBySubstring app substring, app)
  | fetchLastMessages current other start => (App.fetchLastMessages app current other start, app)
  | sendMessage message sender receiver id timestamp =>
    App.sendMessage app message sender receiver id timestamp
  | subscribeToNewMessages userId start   => App.subscribeToNewMessages app userId start
  | findUserByUsername username           => (App.findUserByUsername app username, app)
  | verifyPassword userId password        => (App.verifyPassword app userId password, app)
  | insertUser login userId               => App.insertUser app login userId
  | authorizeUser login password userId salt => App.authorizeUser app login password userId salt

-- What some calls, one after the other, make of a messenger.
def performAll {α ε : Type} [App α ε] (app : α) (calls : List Call) : α :=
  calls.foldl (fun app c => (c.perform app).2) app

-- The user on whose behalf a call is made, and what for: the sender of a message, the reader of a chat or
-- of the list of chats, and the owner of a subscription.
def service : Call → Option (UserId × Service)
  | sendMessage message sender receiver _ _ => some (sender, .sendMessage message receiver)
  | fetchLastMessages current other start   => some (current, .fetchLastMessages other start)
  | fetchUsersChats userId                  => some (userId, .fetchChats)
  | subscribeToNewMessages userId start     => some (userId, .subscribe start)
  | _                                       => none

-- The message which a call stores if it succeeds.
def message : Call → Option Message
  | sendMessage message sender receiver id timestamp => some { id, sender, receiver, message, timestamp }
  | _                                                => none

end Call

-- What is used of the `uuid` and `serde_json` crates.
class UuidText where
  parse : String → Option Uuid

structure SignupParams where
  login    : String
  password : String

structure SendMessageParams where
  message : String

class SerdeJson where
  signupParams      : String → Option SignupParams
  sendMessageParams : String → Option SendMessageParams

end Pheidippides
