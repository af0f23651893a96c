import Pheidippides.Messenger.Messenger
import Pheidippides.Messenger.World
import Pheidippides.Web.App

-- The application over the in-memory store. A call is one step here, while its parts interleave in a run
-- of `World.system`.
namespace Pheidippides.World

open MockDb (Error)

-- A call of `send_message`, from the insertion into the store to the broadcast.
def sendMessage (w : World) (m : Message) : Except (MessengerError Error Error) MessageId × World :=
  match (w.db.createMessage m).1 with
  | .error e => (.error <| .couldntCreateMessage m.sender m.receiver e, w.create m)
  | .ok ()   => (.ok m.id, (w.create m).announce m)

-- A call of `subscribe_new_messages`, until it returns a receiver.
def subscribeToNewMessages (w : World) (userId : UserId) (startingPoint : Option MessageId) :
    Except (MessengerError Error Error) Subscription × World :=
  let stream := w.streams.length
  let world  := (w.register userId startingPoint).onStream stream .fetch
  match startingPoint with
  | none => (.ok ⟨stream, []⟩, world)
  | some startingPoint =>
    match w.db.fetchUsersMessagesSince userId startingPoint with
    | .error e             => (.error <| .couldntSubscribe e, world)
    | .ok previousMessages => (.ok ⟨stream, previousMessages⟩, world)

-- Both calls are runs of the system whose steps they take at once.
theorem sendMessage_exec (w : World) (m : Message) :
    ∃ es, (w.sendMessage m).2 = system.exec w es := by
  rw [sendMessage]
  split
  case h_1 => exact ⟨[.create m], rfl⟩
  case h_2 => exact ⟨[.create m, .announce m], rfl⟩

theorem subscribeToNewMessages_exec (w : World) (userId : UserId) (startingPoint : Option MessageId) :
    (w.subscribeToNewMessages userId startingPoint).2 =
      system.exec w [.register userId startingPoint, .stream w.streams.length .fetch] := by
  cases startingPoint
  case none    => rfl
  case some id =>
    rw [subscribeToNewMessages]
    split <;> rfl

instance [Unicode] [Argon2] : App World (MessengerError Error Error) where
  fetchUser w              := Messenger.fetchUser w.db
  fetchUsersChats w        := Messenger.fetchUsersChats w.db
  findUsersBySubstring w   := Messenger.findUsersBySubstring w.db
  fetchLastMessages w      := Messenger.fetchLastMessages w.db
  subscribeToNewMessages w := w.subscribeToNewMessages
  findUserByUsername w     := Messenger.findUserByUsername w.db
  verifyPassword w         := Messenger.verifyPassword w.db
  sendMessage w message sender receiver id timestamp :=
    w.sendMessage { id, sender, receiver, message, timestamp }
  insertUser w login userId :=
    let (res, db) := Messenger.insertUser w.db login userId
    (res, { w with db })
  authorizeUser w login password userId salt :=
    let (res, db) := Messenger.authorizeUser w.db login password userId salt
    (res, { w with db })

end Pheidippides.World
