import Pheidippides.Utils.Http

namespace Pheidippides

inductive Method
  | get
  | put
  | post
  | delete
  | patch
  | head
  | options
  | trace
  | connect
  deriving DecidableEq, Repr

-- A parsed request. `content` is what reading its body comes to.
structure Request where
  method  : Method
  url     : String
  headers : Headers
  content : Option String

-- The handlers among which `route` chooses, with the parts of the url that they get.
inductive Endpoint
  | main
  | authorizationPage
  | signupPage
  | chat (chatId : Option String)
  | signup
  | logout
  | authorize
  | sendMessage (receiver : String)
  | subscribeNewMessages (params : String)
  | chatsHtml
  | chatsearchHtml (params : String)
  | chatHtml (chatId : String)
  | messagesJson (chatId params : String)
  | eventSource
  | favicon
  | badRequest
  deriving DecidableEq, Repr

namespace Request

def pathAndParams (url : String) : String × String :=
  let (path, paramsAnchor) := (Str.splitOnce '?' url).getD (url, "")
  let (params, _anchor)    := (Str.splitOnce '#' paramsAnchor).getD (paramsAnchor, "")
  (path, params)

-- The choice which `route` makes. It looks at the first four segments of the path.
def endpoint (request : Request) : Endpoint :=
  let (path, params) := pathAndParams request.url
  let segments       := (Str.split "/" path).filter (!·.isEmpty)
  match request.method, segments[0]?, segments[1]?, segments[2]?, segments[3]? with
  | .get, none, _, _, _                                                => .main
  | .get, some "login", none, _, _                                     => .authorizationPage
  | .get, some "signup", none, _, _                                    => .signupPage
  | .get, some "chat", chatId, none, _                                 => .chat chatId
  | .post, some "signup", none, _, _                                   => .signup
  | .get, some "logout", none, _, _                                    => .logout
  | .post, some "authorize", none, _, _                                => .authorize
  | .post, some "message", some receiver, none, _                      => .sendMessage receiver
  | .get, some "subscribe", some "new_messages", none, _               => .subscribeNewMessages params
  | .get, some "html", some "chats", none, _                           => .chatsHtml
  | .get, some "html", some "chatsearch", none, _                      => .chatsearchHtml params
  | .get, some "html", some "chat", some chatId, _                     => .chatHtml chatId
  | .get, some "json", some "messages", some chatId, none              => .messagesJson chatId params
  | .get, some "tools", some "event_source", none, _                   => .eventSource
  | .get, some "favicon.ico", none, _, _                               => .favicon
  | _, _, _, _, _                                                      => .badRequest

end Request
end Pheidippides
