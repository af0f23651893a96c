import Pheidippides.Utils.Http

namespace Pheidippides

structure MessageJson where
  id        : MessageId
  sender    : UserId
  receiver  : UserId
  message   : String
  timestamp : Timestamp
  deriving DecidableEq, Repr

def MessageJson.ofMessage (m : Message) : MessageJson where
  id        := m.id
  sender    := m.sender
  receiver  := m.receiver
  message   := m.message
  timestamp := m.timestamp

structure EventSourceEvent where
  data  : MessageJson
  id    : MessageId
  event : Option String
  deriving DecidableEq, Repr

inductive SignupError
  | usernameTaken
  deriving DecidableEq, Repr

inductive MessageResponseError
  | unauthorized
  deriving DecidableEq, Repr

-- The values which are serialized into the body of a response.
inductive JsonContent
  | signup (success : Bool) (errors : List SignupError)
  | messages (success : Bool) (messages : List MessageJson) (error : Option MessageResponseError)
  deriving DecidableEq, Repr

-- The templates with their parameters, and plain texts. The templates always render.
inductive HtmlContent
  | chatPage (username : String) (userId : UserId) (chats : List User)
  | chatHtmlElements (chats : List User)
  | loginPage
  | signUpPage
  | loginFailPage
  | eventSourcePage
  | text (text : String)
  deriving DecidableEq, Repr

-- An event stream is given by the number of its subscription and the events that are waiting in it.
inductive Response
  | html (content : HtmlContent) (headers : List Header)
  | json (content : JsonContent) (headers : List Header)
  | redirect (location : String) (headers : List Header)
  | eventSource (retry : Option Int) (stream : Nat) (events : List EventSourceEvent)
  | badRequest
  | internalServerError
  | empty
  deriving DecidableEq, Repr

end Pheidippides
