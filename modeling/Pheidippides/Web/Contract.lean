import Pheidippides.Web.Routing

-- What a handler may do, whatever becomes of its calls and of the sessions while it waits.
namespace Pheidippides

-- The answer to a message.
def Server.accepted : Response :=
  .html (.text "ok.") []

-- The responses that there are. The session id is the one which has been drawn.
inductive Response.Given [Unicode] (sessionId : SessionId) : Response → Prop
  | html {content : HtmlContent} : Given sessionId (.html content [])
  | json {content : JsonContent} : Given sessionId (.json content [])
  | signup : Given sessionId (.json (.signup true []) [headerSetCookie sessionIdCookie sessionId])
  | login : Given sessionId (.redirect "/chat" [headerSetCookie sessionIdCookie sessionId])
  | redirect {location : String} : location = "/chat" ∨ location = "/login" →
    Given sessionId (.redirect location [])
  | eventSource {stream : Nat} {events : List EventSourceEvent} :
    Given sessionId (.eventSource none stream events)
  | badRequest : Given sessionId .badRequest
  | internalServerError : Given sessionId .internalServerError
  | empty : Given sessionId .empty

-- A handler does nothing more but answer once it has changed the sessions or stored a message.
inductive Stage
  | working
  | changed
  | stored
  deriving DecidableEq

-- How far a handler has come: whom the sessions have named for the request, how often it waits at most,
-- and what it has done.
structure Progress where
  user  : Option UserId
  waits : Nat
  stage : Stage

namespace Progress

def start : Progress where
  user  := none
  waits := 4
  stage := .working

def wait (t : Progress) : Progress :=
  { t with waits := t.waits - 1 }

def after [Unicode] (request : Request) (t : Progress) : (op : Operation) → op.Result → Progress
  | .getSessions, sessions => { t with user := getAuthorization sessions request.headers }
  | .setSessions _, _      => { t with stage := .changed }
  | .content, _            => t.wait
  | .spawnBlocking, _      => t.wait
  | .call c, answer        =>
    { t.wait with stage := if c.message.isSome && answer.isSome then .stored else .working }

end Progress

-- The call of the messenger, if the operation is one.
def Operation.called : Operation → Option Call
  | call c => some c
  | _      => none

-- The call is made for the user whom the sessions have named, and for what the request asks.
def Call.Authorized [Unicode] [UrlEscape] [UuidText] [SerdeJson] (request : Request)
    (user : Option UserId) (c : Call) : Prop :=
  ∀ userId service, c.service = some (userId, service) →
    user = some userId ∧ Server.asks request = some service

-- A message gets what has been drawn for the request.
def Call.Drawn (draws : Draws) (c : Call) : Prop :=
  ∀ m ∈ c.message, m.id = draws.messageId ∧ m.timestamp = draws.timestamp

namespace Routing

variable [Unicode] [UrlEscape] [UuidText] [SerdeJson] (request : Request) (draws : Draws)

inductive Gets (t : Progress) : (op : Operation) → op.Result → Progress → Prop
  | content : Gets t .content request.content t.wait
  | other {op : Operation} {res : op.Result} : op ≠ .content → Gets t op res (t.after request op res)

inductive Ends (t : Progress) : Except Handler.Exit Response → Prop
  | ok {response : Response} : response.Given draws.sessionId →
    (response = Server.accepted ↔ t.stage = .stored) → Ends t (.ok response)
  | respond {response : Response} : response.Given draws.sessionId →
    (response = Server.accepted ↔ t.stage = .stored) → Ends t (.error (.respond response))
  | crash : t.stage = .working → Ends t (.error .crash)

def contract : Program.Contract Operation Operation.Result Progress (Except Handler.Exit Response) where
  may t op := t.stage = .working ∧ (op.waits = true → 0 < t.waits) ∧
    ∀ c, op = .call c → c.Authorized request t.user ∧ c.Drawn draws
  gets := Gets request
  ends := Ends draws

end Routing
end Pheidippides
