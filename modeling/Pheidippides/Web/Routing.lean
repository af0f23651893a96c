import Pheidippides.Primitives.Program
import Pheidippides.Primitives.System
import Pheidippides.Utils.FormData
import Pheidippides.Web.App
import Pheidippides.Web.Request
import Pheidippides.Web.Response
import Pheidippides.Web.Sessions

namespace Pheidippides

-- `calls` is history: the calls of the messenger which handlers have made.
structure Server (α : Type) where
  app      : α
  sessions : Sessions
  calls    : List Call

-- What is drawn at random while a request is handled.
structure Draws where
  sessionId : SessionId
  userId    : UserId
  salt      : Option String
  messageId : MessageId
  timestamp : Timestamp

-- What a handler does besides computing. The first two take the lock of `SESSION_INFO`, and `spawnBlocking`
-- waits for a computation on another thread.
inductive Operation
  | getSessions
  | setSessions (change : Sessions → Sessions)
  | content
  | spawnBlocking
  | call (c : Call)

namespace Operation

@[reducible]
def Result : Operation → Type
  | getSessions   => Sessions
  | setSessions _ => Unit
  | content       => Option String
  | spawnBlocking => Unit
  | call c        => Option c.Answer

-- The handler awaits the result. Another task may be run until it is there.
def waits : Operation → Bool
  | getSessions | setSessions _ => false
  | _                           => true

end Operation

namespace Server

variable {α ε : Type} [App α ε]

-- The request comes with this content. The handlers do not look at the errors of the messenger.
def perform (content : Option String) : (op : Operation) → Server α → op.Result × Server α
  | .getSessions, server        => (server.sessions, server)
  | .setSessions change, server => ((), { server with sessions := change server.sessions })
  | .content, server            => (content, server)
  | .spawnBlocking, server      => ((), server)
  | .call c, server             =>
    let (res, app) := c.perform server.app
    (res.toOption, { server with app, calls := server.calls ++ [c] })

@[simp]
theorem perform_call (content : Option String) (c : Call) (server : Server α) :
    perform content (.call c) server = ((c.perform server.app).1.toOption,
      { server with app := (c.perform server.app).2, calls := server.calls ++ [c] }) :=
  rfl

end Server

-- How a handler comes to an early end: with a response, as `?` does in the source, or with the process.
inductive Handler.Exit
  | respond (response : Response)
  | crash

abbrev Handler :=
  ExceptT Handler.Exit (Program Operation Operation.Result)

-- What is left to do of a handler.
abbrev Handler.Rest :=
  Program Operation Operation.Result (Except Exit Response)

namespace Handler

variable {α β ε : Type}

def orBadRequest : Option β → Handler β
  | some value => return value
  | none       => throw <| .respond .badRequest

def orServerError : Option β → Handler β
  | some value => return value
  | none       => throw <| .respond .internalServerError

-- `or_bad_request` of form data.
def form : Except FormData.Error β → Handler β
  | .ok value       => return value
  | .error .notUtf8 => throw .crash
  | .error _        => throw <| .respond .badRequest

def getSessions : Handler Sessions :=
  .mk <| .op .getSessions fun sessions => .done (.ok sessions)

def setSessions (change : Sessions → Sessions) : Handler Unit :=
  .mk <| .op (.setSessions change) fun () => .done (.ok ())

def content : Handler (Option String) :=
  .mk <| .op .content fun content => .done (.ok content)

def spawnBlocking : Handler Unit :=
  .mk <| .op .spawnBlocking fun () => .done (.ok ())

def call (c : Call) : Handler (Option c.Answer) :=
  .mk <| .op (.call c) fun answer => .done (.ok answer)

def response : Except Exit Response → Option Response
  | .ok response               => some response
  | .error (.respond response) => some response
  | .error .crash              => none

-- The handler with nothing in between. There is no response if the process does not survive.
def run [App α ε] (handler : Handler Response) (content : Option String) (server : Server α) :
    Option Response × Server α :=
  let (res, server) := Program.run (Server.perform content) handler server
  (response res, server)

end Handler

namespace Routing

open Handler

variable [Unicode] [UrlEscape] [UuidText] [SerdeJson]

def unauthorizedRedirect : Response :=
  .redirect "/login" []

def optionalUuid : Option String → Option (Option Uuid)
  | some text => (UuidText.parse text).map some
  | none      => some none

def authorization (request : Request) : Handler (Option UserId) := do
  let sessions ← getSessions
  return getAuthorization sessions request.headers

def updateSessionInfo (sessionId : SessionId) (userId : UserId) : Handler Unit :=
  setSessions (·.updateSessionInfo sessionId ⟨userId⟩)

def removeSessionInfo (sessionId : SessionId) : Handler Unit :=
  setSessions (·.removeSessionInfo sessionId)

def logout (request : Request) : Handler Response := do
  let cookies ← orBadRequest (getCookiesHashmap request.headers).toOption
  match cookies sessionIdCookie with
  | none => return unauthorizedRedirect
  | some sessionId =>
    removeSessionInfo sessionId
    return unauthorizedRedirect

-- `Messenger::verify_user`. The password is verified on another thread.
def verifyUser (username password : String) : Handler (Option UserId) := do
  match ← orServerError (← call (.findUserByUsername username)) with
  | none => return none
  | some userId =>
    let verified ← orServerError (← call (.verifyPassword userId password))
    spawnBlocking
    return if verified then some userId else none

-- `Messenger::create_user`. The password is hashed before the second call.
def createUser (login password : String) (draws : Draws) : Handler (Option UserId) := do
  match ← orServerError (← call (.insertUser login draws.userId)) with
  | none        => return none
  | some userId => orServerError (← call (.authorizeUser login password userId draws.salt))

def authorize (draws : Draws) : Handler Response := do
  let content ← orServerError (← content)
  let params ← form (FormData.fromStr ["login", "password"] content)
  let login ← form (FormData.field params "login")
  let password ← form (FormData.field params "password")
  match ← verifyUser login password with
  | some userId =>
    let sessionId := draws.sessionId
    updateSessionInfo sessionId userId
    return .redirect "/chat" [headerSetCookie sessionIdCookie sessionId]
  | none => return .html .loginFailPage []

def signup (draws : Draws) : Handler Response := do
  let content ← orServerError (← content)
  let params ← orBadRequest (SerdeJson.signupParams content)
  match ← createUser params.login params.password draws with
  | some userId =>
    let sessionId := draws.sessionId
    updateSessionInfo sessionId userId
    return .json (.signup true []) [headerSetCookie sessionIdCookie sessionId]
  | none => return .json (.signup false [.usernameTaken]) []

def sendMessage (request : Request) (draws : Draws) (receiver : String) : Handler Response := do
  let receiver ← orBadRequest (UuidText.parse receiver)
  match ← authorization request with
  | none => return unauthorizedRedirect
  | some userId =>
    let content ← orServerError (← content)
    let params ← orBadRequest (SerdeJson.sendMessageParams content)
    let _ ← orServerError
      (← call (.sendMessage params.message userId receiver draws.messageId draws.timestamp))
    return .html (.text "ok.") []

def subscribeNewMessages (request : Request) (params : String) : Handler Response := do
  let userId ← orBadRequest (← authorization request)
  let params ← form (FormData.fromStr ["last_message_id"] params)
  let lastMessageIdParams ← orBadRequest (optionalUuid (params "last_message_id"))
  let lastMessageIdHeader ←
    orBadRequest (optionalUuid (request.headers (.ofString "Last-Event-ID")))
  let startingPoint := lastMessageIdHeader.or lastMessageIdParams
  let subscription ← orServerError (← call (.subscribeToNewMessages userId startingPoint))
  let event (m : Message) : EventSourceEvent := ⟨.ofMessage m, m.id, none⟩
  return .eventSource none subscription.stream (subscription.queue.map event)

def chat (request : Request) : Handler Response := do
  match ← authorization request with
  | none => return unauthorizedRedirect
  | some userId =>
    let user ← orBadRequest (← orServerError (← call (.fetchUser userId)))
    let chats ← orServerError (← call (.fetchUsersChats userId))
    return .html (.chatPage user.username userId chats) []

def chatsHtml (request : Request) : Handler Response := do
  match ← authorization request with
  | none => return .html (.text "Unauthorized") []
  | some userId =>
    let chats ← orServerError (← call (.fetchUsersChats userId))
    return .html (.chatHtmlElements chats) []

def chatsearchHtml (params : String) : Handler Response := do
  let params ← form (FormData.fromStr ["query"] params)
  let query ← form (FormData.field params "query")
  let chats ← orServerError (← call (.findUsersBySubstring query))
  return .html (.chatHtmlElements chats) []

def chatHtml (chatId : String) : Handler Response := do
  let chatId ← orBadRequest (UuidText.parse chatId)
  let chatInfo ← orServerError (← call (.fetchUser chatId))
  return .html (.chatHtmlElements chatInfo.toList) []

def messagesJson (request : Request) (chatId params : String) : Handler Response := do
  let chatId ← orBadRequest (UuidText.parse chatId)
  let params ← form (FormData.fromStr ["from"] params)
  let startingFrom ← orBadRequest (optionalUuid (params "from"))
  match ← authorization request with
  | none => return .json (.messages false [] (some .unauthorized)) []
  | some userId =>
    let messages ← orServerError (← call (.fetchLastMessages userId chatId startingFrom))
    return .json (.messages true (messages.map .ofMessage).reverse none) []

def route (request : Request) (draws : Draws) : Handler Response :=
  match request.endpoint with
  | .main                        => return .redirect "/chat" []
  | .authorizationPage           => return .html .loginPage []
  | .signupPage                  => return .html .signUpPage []
  | .chat _                      => chat request
  | .signup                      => signup draws
  | .logout                      => logout request
  | .authorize                   => authorize draws
  | .sendMessage receiver        => sendMessage request draws receiver
  | .subscribeNewMessages params => subscribeNewMessages request params
  | .chatsHtml                   => chatsHtml request
  | .chatsearchHtml params       => chatsearchHtml params
  | .chatHtml chatId             => chatHtml chatId
  | .messagesJson chatId params  => messagesJson request chatId params
  | .eventSource                 => return .html .eventSourcePage []
  | .favicon                     => return .empty
  | .badRequest                  => return .badRequest

end Routing

namespace Server

variable {α ε : Type} [App α ε] [Unicode] [UrlEscape] [UuidText] [SerdeJson]

-- `app` is whatever happens to the messenger between requests. A request by which the process does not
-- survive is the last one of a run, whatever the steps make of those behind it.
inductive Event (α : Type)
  | request (request : Request) (draws : Draws)
  | app (app : α)

def step (server : Server α) : Event α → Server α
  | .request request draws => ((Routing.route request draws).run request.content server).2
  | .app app               => { server with app }

def start (app : α) : Server α where
  app      := app
  sessions := .empty
  calls    := []

def system (app : α) : System (Server α) (Event α) where
  init := start app
  step := step

-- What a request comes to, besides its response and what it does to the messenger.
inductive Effect
  | login (userId : UserId) (sessionId : SessionId)
  | logout (sessionId : SessionId)
  | serve (userId : UserId) (service : Service)

-- A login is a call of `verify_user` or `create_user` which returns an id.
def effect (server : Server α) (request : Request) (draws : Draws) : Option Effect :=
  match request.endpoint with
  | .logout => do
    let cookies ← (getCookiesHashmap request.headers).toOption
    return .logout (← cookies sessionIdCookie)
  | .authorize => do
    let content ← request.content
    let params ← (FormData.fromStr ["login", "password"] content).toOption
    let login ← params "login"
    let password ← params "password"
    let userId ← (App.verifyUser server.app login password).toOption.join
    return .login userId draws.sessionId
  | .signup => do
    let content ← request.content
    let params ← SerdeJson.signupParams content
    let (res, _) := App.createUser server.app params.login params.password draws.userId draws.salt
    return .login (← res.toOption.join) draws.sessionId
  | .sendMessage receiver => do
    let receiver ← UuidText.parse receiver
    let userId ← getAuthorization server.sessions request.headers
    let content ← request.content
    let params ← SerdeJson.sendMessageParams content
    return .serve userId (.sendMessage params.message receiver)
  | .subscribeNewMessages params => do
    let userId ← getAuthorization server.sessions request.headers
    let params ← (FormData.fromStr ["last_message_id"] params).toOption
    let lastMessageIdParams ← Routing.optionalUuid (params "last_message_id")
    let lastMessageIdHeader ← Routing.optionalUuid (request.headers (.ofString "Last-Event-ID"))
    return .serve userId (.subscribe (lastMessageIdHeader.or lastMessageIdParams))
  | .messagesJson chatId params => do
    let chatId ← UuidText.parse chatId
    let params ← (FormData.fromStr ["from"] params).toOption
    let startingFrom ← Routing.optionalUuid (params "from")
    let userId ← getAuthorization server.sessions request.headers
    return .serve userId (.fetchLastMessages chatId startingFrom)
  | .chat _ => do
    let userId ← getAuthorization server.sessions request.headers
    let user ← (App.fetchUser server.app userId).toOption
    let _ ← user
    return .serve userId .fetchChats
  | .chatsHtml => do
    let userId ← getAuthorization server.sessions request.headers
    return .serve userId .fetchChats
  | _ => none

-- What a request asks for, if it is well formed and comes from someone.
def asks (request : Request) : Option Service :=
  match request.endpoint with
  | .sendMessage receiver => do
    let receiver ← UuidText.parse receiver
    let content ← request.content
    let params ← SerdeJson.sendMessageParams content
    return .sendMessage params.message receiver
  | .subscribeNewMessages params => do
    let params ← (FormData.fromStr ["last_message_id"] params).toOption
    let lastMessageIdParams ← Routing.optionalUuid (params "last_message_id")
    let lastMessageIdHeader ← Routing.optionalUuid (request.headers (.ofString "Last-Event-ID"))
    return .subscribe (lastMessageIdHeader.or lastMessageIdParams)
  | .messagesJson chatId params => do
    let chatId ← UuidText.parse chatId
    let params ← (FormData.fromStr ["from"] params).toOption
    let startingFrom ← Routing.optionalUuid (params "from")
    return .fetchLastMessages chatId startingFrom
  | .chat _ | .chatsHtml => return .fetchChats
  | _ => none

-- The chat page begins with the name of the user.
def Finds (server : Server α) (request : Request) (userId : UserId) : Prop :=
  ∀ chatId, request.endpoint = .chat chatId → ∃ user, App.fetchUser server.app userId = .ok (some user)

namespace Event

-- The session id that is drawn for a request.
def sessionId : Event α → Option SessionId
  | request _ draws => some draws.sessionId
  | app _           => none

-- The request is one of `authorize` after `verify_user` has returned the user, or one of `signup` after
-- `create_user` has, and the user gets this session id.
def LogsIn (userId : UserId) (sessionId : SessionId) (server : Server α) : Event α → Prop
  | request r draws => effect server r draws = some (.login userId sessionId)
  | app _           => False

end Event

-- No session id is issued twice.
def Fresh (app : α) (es : List (Event α)) : Prop :=
  ∀ es₁ e es₂, es = es₁ ++ e :: es₂ → ∀ userId userId' sessionId,
    e.LogsIn userId sessionId ((system app).run es₁) →
      ¬(system app).Since (fun server e => e.LogsIn userId' sessionId server) (fun _ => True) es₁

-- The cookie header parses, and has this session id.
def Presents (request : Request) (sessionId : SessionId) : Prop :=
  ∃ cookies, getCookiesHashmap request.headers = .ok cookies ∧
    cookies sessionIdCookie = some sessionId

def Event.LogsOut (sessionId : SessionId) : Event α → Prop
  | request r _ => r.endpoint = .logout ∧ Presents r sessionId
  | app _       => False

-- The request presents a session id with which the user has logged in during the run, and with which
-- there has been no logout since.
def LoggedIn (app : α) (es : List (Event α)) (request : Request) (userId : UserId) : Prop :=
  ∃ sessionId, Presents request sessionId ∧
    (system app).Since (fun server e => e.LogsIn userId sessionId server) (¬·.LogsOut sessionId) es

end Server
end Pheidippides
