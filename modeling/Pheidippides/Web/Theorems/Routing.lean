import Pheidippides.Web.Routing

namespace Pheidippides

theorem Except.toOption_eq_some_iff {ε α : Type} {e : Except ε α} {a : α} :
    e.toOption = some a ↔ e = .ok a := by
  cases e <;> simp [Except.toOption]

namespace Server.Effect

def onSessions (sessions : Sessions) : Effect → Sessions
  | login userId sessionId => sessions.updateSessionInfo sessionId ⟨userId⟩
  | logout sessionId       => sessions.removeSessionInfo sessionId
  | serve ..               => sessions

def onServed : Effect → List (UserId × Service)
  | serve userId service => [(userId, service)]
  | _                    => []

end Server.Effect

namespace Handler

open Server

variable {α β ε : Type} [App α ε] {server : Server α} {request : Request} {effect : Option Effect}

-- What a handler does to the sessions, and for whom it calls the messenger.
structure Does (server : Server α) (request : Request) (handler : Handler Response)
    (effect : Option Effect) : Prop where
  sessions : (handler.run request.content server).2.sessions =
    effect.elim server.sessions (·.onSessions server.sessions)
  served : (handler.run request.content server).2.calls.filterMap Call.service =
    server.calls.filterMap Call.service ++ effect.elim [] (·.onServed)

namespace Does

theorem respond (response : Response) : Does server request (pure response) none where
  sessions := rfl
  served   := (List.append_nil _).symm

theorem stop (exit : Exit) : Does server request (throw exit) none where
  sessions := rfl
  served   := (List.append_nil _).symm

theorem orBadRequest {value : Option β} {f : β → Handler Response} {g : β → Option Effect}
    (h : ∀ v, Does server request (f v) (g v)) :
    Does server request (Handler.orBadRequest value >>= f) (value.bind g) := by
  cases value
  case none   => exact stop (.respond .badRequest)
  case some v => exact ⟨(h v).sessions, (h v).served⟩

theorem orServerError {value : Option β} {f : β → Handler Response} {g : β → Option Effect}
    (h : ∀ v, Does server request (f v) (g v)) :
    Does server request (Handler.orServerError value >>= f) (value.bind g) := by
  cases value
  case none   => exact stop (.respond .internalServerError)
  case some v => exact ⟨(h v).sessions, (h v).served⟩

theorem form {value : Except FormData.Error β} {f : β → Handler Response} {g : β → Option Effect}
    (h : ∀ v, Does server request (f v) (g v)) :
    Does server request (Handler.form value >>= f) (value.toOption.bind g) := by
  rcases value with (_ | _ | _ | _) | v
  case ok       => exact ⟨(h v).sessions, (h v).served⟩
  case error.notUtf8 => exact stop .crash
  all_goals exact stop (.respond .badRequest)

theorem orBadRequest_none {value : Option β} {f : β → Handler Response}
    (h : ∀ v, Does server request (f v) none) :
    Does server request (Handler.orBadRequest value >>= f) none :=
  (Option.bind_fun_none value).symm ▸ orBadRequest h

theorem orServerError_none {value : Option β} {f : β → Handler Response}
    (h : ∀ v, Does server request (f v) none) :
    Does server request (Handler.orServerError value >>= f) none :=
  (Option.bind_fun_none value).symm ▸ orServerError h

theorem form_none {value : Except FormData.Error β} {f : β → Handler Response}
    (h : ∀ v, Does server request (f v) none) : Does server request (Handler.form value >>= f) none :=
  (Option.bind_fun_none value.toOption).symm ▸ form h

theorem content {f : Option String → Handler Response}
    (h : Does server request (f request.content) effect) :
    Does server request (Handler.content >>= f) effect :=
  ⟨h.sessions, h.served⟩

theorem authorization [Unicode] {f : Option UserId → Handler Response}
    (h : Does server request (f (getAuthorization server.sessions request.headers)) effect) :
    Does server request (Routing.authorization request >>= f) effect :=
  ⟨h.sessions, h.served⟩

theorem spawnBlocking {f : Unit → Handler Response} (h : Does server request (f ()) effect) :
    Does server request (Handler.spawnBlocking >>= f) effect :=
  ⟨h.sessions, h.served⟩

-- The messenger is no concern of the sessions.
theorem call {c : Call} {f : Option c.Answer → Handler Response} (silent : c.service = none)
    (h : Does { server with app := (c.perform server.app).2, calls := server.calls ++ [c] } request
      (f (c.perform server.app).1.toOption) effect) :
    Does server request (Handler.call c >>= f) effect where
  sessions := h.sessions
  served   := h.served.trans <| by simp [silent]

theorem serve {c : Call} {userId : UserId} {service : Service} {f : Option c.Answer → Handler Response}
    (hs : c.service = some (userId, service))
    (h : ∀ (server : Server α) answer, Does server request (f answer) none) :
    Does server request (Handler.call c >>= f) (some (.serve userId service)) where
  sessions := (h _ _).sessions
  served   := (h _ _).served.trans <| by simp [hs, Effect.onServed]

theorem login {userId : UserId} {sessionId : SessionId} {f : Unit → Handler Response}
    (h : ∀ server : Server α, Does server request (f ()) none) :
    Does server request (Routing.updateSessionInfo sessionId userId >>= f)
      (some (.login userId sessionId)) where
  sessions := (h _).sessions
  served   := (h _).served

theorem logout {sessionId : SessionId} {f : Unit → Handler Response}
    (h : ∀ server : Server α, Does server request (f ()) none) :
    Does server request (Routing.removeSessionInfo sessionId >>= f) (some (.logout sessionId)) where
  sessions := (h _).sessions
  served   := (h _).served

end Does
end Handler

namespace Routing

open Handler Server

variable {α ε : Type} [App α ε] [Unicode] [UrlEscape] [UuidText] [SerdeJson]
  {server : Server α} {request : Request} {draws : Draws}

-- The equations of `effect` are made once here, for all of the lemmas which follow.
attribute [local simp] effect

theorem logout_spec (h : request.endpoint = .logout) :
    Does server request (logout request) (effect server request draws) := by
  simp only [effect, h]
  refine .orBadRequest fun cookies => ?_
  cases cookies sessionIdCookie
  case none           => exact .respond _
  case some sessionId => exact .logout fun _ => .respond _

theorem authorize_spec (h : request.endpoint = .authorize) :
    Does server request (authorize draws) (effect server request draws) := by
  simp only [effect, h, authorize, verifyUser, bind_assoc, ← FormData.toOption_field]
  refine .content <| .orServerError fun content => .form fun params => .form fun login =>
    .form fun password => .call rfl ?_
  unfold App.verifyUser
  simp only [Call.perform]
  rcases App.findUserByUsername server.app login with e | _ | userId
  case error   => exact .stop _
  case ok.none => exact .respond _
  case ok.some =>
    simp only [Except.toOption, Handler.orServerError, pure_bind, bind_assoc]
    refine .call rfl ?_
    simp only [Call.perform]
    rcases App.verifyPassword server.app userId password with e | _ | _
    case error    => exact .stop _
    case ok.false =>
      refine .spawnBlocking ?_
      exact .respond _
    case ok.true  =>
      refine .spawnBlocking ?_
      exact .login fun _ => .respond _

theorem signup_spec (h : request.endpoint = .signup) :
    Does server request (signup draws) (effect server request draws) := by
  simp only [effect, h, signup, createUser, bind_assoc]
  refine .content <| .orServerError fun content => .orBadRequest fun params => .call rfl ?_
  unfold App.createUser
  simp only [Call.perform]
  rcases App.insertUser server.app params.login draws.userId with ⟨e | _ | userId, app⟩
  case error   => exact .stop _
  case ok.none => exact .respond _
  case ok.some =>
    refine .call rfl ?_
    simp only [Call.perform]
    rcases App.authorizeUser app params.login params.password userId draws.salt with
      ⟨e | _ | userId, app⟩
    case error   => exact .stop _
    case ok.none => exact .respond _
    case ok.some => exact .login fun _ => .respond _

theorem sendMessage_spec {receiver : String} (h : request.endpoint = .sendMessage receiver) :
    Does server request (sendMessage request draws receiver) (effect server request draws) := by
  simp only [effect, h]
  refine .orBadRequest fun receiver => .authorization ?_
  cases getAuthorization server.sessions request.headers
  case none        => exact .respond _
  case some userId =>
    exact .content <| .orServerError fun content => .orBadRequest fun params => .serve rfl fun _ _ =>
      .orServerError_none fun _ => .respond _

theorem subscribeNewMessages_spec {params : String}
    (h : request.endpoint = .subscribeNewMessages params) :
    Does server request (subscribeNewMessages request params) (effect server request draws) := by
  simp only [effect, h]
  exact .authorization <| .orBadRequest fun userId => .form fun params => .orBadRequest fun _ =>
    .orBadRequest fun _ => .serve rfl fun _ _ => .orServerError_none fun _ => .respond _

theorem messagesJson_spec {chatId params : String}
    (h : request.endpoint = .messagesJson chatId params) :
    Does server request (messagesJson request chatId params) (effect server request draws) := by
  simp only [effect, h]
  refine .orBadRequest fun chatId => .form fun params => .orBadRequest fun _ => .authorization ?_
  cases getAuthorization server.sessions request.headers
  case none        => exact .respond _
  case some userId => exact .serve rfl fun _ _ => .orServerError_none fun _ => .respond _

theorem chat_spec {chatId : Option String} (h : request.endpoint = .chat chatId) :
    Does server request (chat request) (effect server request draws) := by
  simp only [effect, h]
  refine .authorization ?_
  cases getAuthorization server.sessions request.headers
  case none        => exact .respond _
  case some userId =>
    exact .call rfl <| .orServerError fun user => .orBadRequest fun user => .serve rfl fun _ _ =>
      .orServerError_none fun _ => .respond _

theorem chatsHtml_spec (h : request.endpoint = .chatsHtml) :
    Does server request (chatsHtml request) (effect server request draws) := by
  simp only [effect, h]
  refine .authorization ?_
  cases getAuthorization server.sessions request.headers
  case none        => exact .respond _
  case some userId => exact .serve rfl fun _ _ => .orServerError_none fun _ => .respond _

theorem chatsearchHtml_spec {params : String} (h : request.endpoint = .chatsearchHtml params) :
    Does server request (chatsearchHtml params) (effect server request draws) := by
  simp only [effect, h]
  exact .form_none fun _ => .form_none fun _ => .call rfl <| .orServerError_none fun _ => .respond _

theorem chatHtml_spec {chatId : String} (h : request.endpoint = .chatHtml chatId) :
    Does server request (chatHtml chatId) (effect server request draws) := by
  simp only [effect, h]
  exact .orBadRequest_none fun _ => .call rfl <| .orServerError_none fun _ => .respond _

-- What a request does is its effect, whichever handler it is routed to.
theorem route_spec (server : Server α) (request : Request) (draws : Draws) :
    Does server request (route request draws) (effect server request draws) := by
  rw [route]
  cases h : request.endpoint
  case chat                 => exact chat_spec h
  case signup               => exact signup_spec h
  case logout               => exact logout_spec h
  case authorize            => exact authorize_spec h
  case sendMessage          => exact sendMessage_spec h
  case subscribeNewMessages => exact subscribeNewMessages_spec h
  case chatsHtml            => exact chatsHtml_spec h
  case chatsearchHtml       => exact chatsearchHtml_spec h
  case chatHtml             => exact chatHtml_spec h
  case messagesJson         => exact messagesJson_spec h
  all_goals
    simp only [effect, h]
    exact .respond _

end Routing
end Pheidippides
