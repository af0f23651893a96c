import Pheidippides.Web.Routing

-- What the urls of this server mean, independently of how `route` finds it out.
namespace Pheidippides

-- The method of a handler. To be answered with a bad request takes no handler.
def Endpoint.method : Endpoint → Option Method
  | badRequest                         => none
  | signup | authorize | sendMessage _ => some .post
  | _                                  => some .get

-- The segments by which a handler is called, with the id where it has one.
def Endpoint.path : Endpoint → List String
  | main                   => []
  | authorizationPage      => ["login"]
  | signupPage             => ["signup"]
  | chat chatId            => "chat" :: chatId.toList
  | signup                 => ["signup"]
  | logout                 => ["logout"]
  | authorize              => ["authorize"]
  | sendMessage receiver   => ["message", receiver]
  | subscribeNewMessages _ => ["subscribe", "new_messages"]
  | chatsHtml              => ["html", "chats"]
  | chatsearchHtml _       => ["html", "chatsearch"]
  | chatHtml chatId        => ["html", "chat", chatId]
  | messagesJson chatId _  => ["json", "messages", chatId]
  | eventSource            => ["tools", "event_source"]
  | favicon                => ["favicon.ico"]
  | badRequest             => []

-- The text which a handler gets besides its id.
def Endpoint.params : Endpoint → Option String
  | subscribeNewMessages params | chatsearchHtml params | messagesJson _ params => some params
  | _                                                                           => none

namespace Request

-- The segments of what is in front of the first `?`.
def segments (request : Request) : List String :=
  (((request.url.toList.takeWhile (· ≠ '?')).splitOn '/').filter (· ≠ [])).map .ofList

-- What is between the first `?` and the next `#`.
def query (request : Request) : String :=
  .ofList <| ((request.url.toList.dropWhile (· ≠ '?')).drop 1).takeWhile (· ≠ '#')

-- The request is for this handler, to the last segment.
structure Calls (request : Request) (endpoint : Endpoint) : Prop where
  method : endpoint.method = some request.method
  path   : endpoint.path = request.segments
  params : ∀ params ∈ endpoint.params, params = request.query

-- The handler which is run is the one that is called, and without one the request is refused.
structure Exact (request : Request) : Prop where
  runs   : ∀ e, e ≠ .badRequest → (request.endpoint = e ↔ request.Calls e)
  refuse : (∀ e, ¬request.Calls e) →
    ∀ [Unicode] [UrlEscape] [UuidText] [SerdeJson] (draws : Draws),
      Routing.route request draws = pure .badRequest

-- The path goes on behind the id of a chat.
def Overlong (request : Request) : Prop :=
  request.method = .get ∧ ∃ id s rest, request.segments = "html" :: "chat" :: id :: s :: rest

end Request
end Pheidippides
