import Pheidippides.Web.InMemory
import Pheidippides.Web.Listener

namespace Pheidippides

-- A messenger whose messages are those which have been sent, and which has no other way to get some.
class Journal (α : Type) {ε : outParam Type} [App α ε] where
  messages : α → List Message
  sendMessage_ok : ∀ {app : α} {message sender receiver id timestamp} {res : MessageId},
    (App.sendMessage app message sender receiver id timestamp).1 = .ok res →
      messages (App.sendMessage app message sender receiver id timestamp).2 =
        messages app ++ [⟨id, sender, receiver, message, timestamp⟩]
  sendMessage_error : ∀ {app : α} {message sender receiver id timestamp} {e : ε},
    (App.sendMessage app message sender receiver id timestamp).1 = .error e →
      messages (App.sendMessage app message sender receiver id timestamp).2 = messages app
  subscribe : ∀ (app : α) userId startingPoint,
    messages (App.subscribeToNewMessages app userId startingPoint).2 = messages app
  insertUser : ∀ (app : α) login userId, messages (App.insertUser app login userId).2 = messages app
  authorizeUser : ∀ (app : α) login password userId salt,
    messages (App.authorizeUser app login password userId salt).2 = messages app

namespace Listener

variable {α ε : Type} [App α ε] [Journal α]

-- The messages are none of the messenger's own business.
def Undisturbed (w : Listener α) : Event α → Prop
  | .app app => Journal.messages app = Journal.messages w.server.app
  | _        => True

instance (w : Listener α) (e : Event α) : Decidable (w.Undisturbed e) :=
  match e with
  | .app app => inferInstanceAs (Decidable (Journal.messages app = _))
  | .accept | .receive .. | .close _ | .run .. | .lose _ | .cancel => .isTrue trivial

end Listener
end Pheidippides
