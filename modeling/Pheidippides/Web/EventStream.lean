import Pheidippides.HttpServer.Grammar
import Pheidippides.Web.Routing

namespace Pheidippides

-- What is used of the `uuid` and `serde_json` crates to write a message: `to_string` of an id and of
-- `serde_json::json!` of a message.
class MessageText where
  uuid : Uuid → String
  json : MessageJson → String

open MessageText

-- What is documented about these texts: the one of a message is that of an object in which all control
-- characters are escaped, the one of an id has digits and hyphens and is parsed as this id.
structure Message.Documented [MessageText] [UuidText] (m : Message) : Prop where
  object  : (json (.ofMessage m)).toList.head? = some '{'
  escaped : ∀ c ∈ (json (.ofMessage m)).toList, 0x20 ≤ c.toNat
  digits  : ∀ c ∈ (uuid m.id).toList, c.isAlphanum ∨ c = '-'
  parsed  : UuidText.parse (uuid m.id) = some m.id

variable [MessageText]

def EventSourceEvent.text (event : EventSourceEvent) : HttpServer.EventSourceEvent where
  data  := json event.data
  id    := uuid event.id
  event := event.event

namespace Message

-- The closure that `subscribe_new_messages` applies to each message.
def event (m : Message) : HttpServer.EventSourceEvent :=
  EventSourceEvent.text ⟨.ofMessage m, m.id, none⟩

-- The event by which a client gets a message.
def dispatched (m : Message) : EventStream.Event where
  type        := "message"
  data        := json (.ofMessage m)
  lastEventId := uuid m.id

end Message
end Pheidippides
