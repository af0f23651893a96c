import Pheidippides.Objects.MockDb
import Pheidippides.Postgres.Db

namespace Pheidippides

-- What the queries are for, in terms of the time of the messages.
namespace Chronology

def Before (messages : List Message) (startingPoint : Option MessageId) (m : Message) : Prop :=
  ∀ startingId ∈ startingPoint, ∃ s ∈ messages, s.id = startingId ∧ m.timestamp < s.timestamp

instance (messages : List Message) (startingPoint : Option MessageId) (m : Message) :
    Decidable (Before messages startingPoint m) :=
  inferInstanceAs (Decidable (∀ startingId ∈ startingPoint, _))

-- The newest messages of the chat before the starting point, the newest first.
def newestBefore (messages : List Message) (userId₁ userId₂ : UserId)
    (startingPoint : Option MessageId) : List Message :=
  messages.filter (fun m => m.Between userId₁ userId₂ ∧ Before messages startingPoint m)
    |>.reverse
    |>.take messageLoadBufSize

-- All messages of the user after the starting point, the oldest first.
def allSince (messages : List Message) (userId : UserId) (startingPoint : MessageId) : List Message :=
  messages.filter fun m => m.Concerns userId ∧
    ∃ s ∈ messages, s.id = startingPoint ∧ s.timestamp < m.timestamp

-- The first user has had a message with the user after all that there are with the second one.
def Later (messages : List Message) (userId chatId₁ chatId₂ : UserId) : Prop :=
  ∃ m ∈ messages, m.Between userId chatId₁ ∧
    ∀ m' ∈ messages, m'.Between userId chatId₂ → m'.timestamp < m.timestamp

-- Everyone with whom the user has had a message, once, by the last one of them.
structure IsChatList (users : List (UserId × String)) (messages : List Message) (userId : UserId)
    (chats : List User) : Prop where
  partners : ∀ chatId, (∃ chat ∈ chats, chat.id = chatId) ↔ ∃ m ∈ messages, m.Between userId chatId
  named    : ∀ chat ∈ chats, (chat.id, chat.username) ∈ users
  once     : (chats.map (·.id)).Nodup
  newest   : chats.Pairwise (Later messages userId ·.id ·.id)

end Chronology
end Pheidippides
