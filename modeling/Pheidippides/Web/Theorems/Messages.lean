import Pheidippides.Messenger.Theorems.Provenance
import Pheidippides.Web.Theorems.Sessions

namespace Pheidippides

-- The messages which a response carries.
def Response.messages : Response → List MessageJson
  | json (.messages _ messages _) _ => messages
  | eventSource _ _ events          => events.map (·.data)
  | _                               => []

namespace Handler

variable {α β ε : Type} [App α ε] {server : Server α} {content : Option String} {P : Response → Prop}

-- What can be said about the response of a handler.
def Responds (server : Server α) (content : Option String) (handler : Handler Response)
    (P : Response → Prop) : Prop :=
  ∀ response ∈ (handler.run content server).1, P response

namespace Responds

theorem respond {response : Response} (h : P response) : Responds server content (pure response) P := by
  rintro _ ⟨⟩
  exact h

theorem stop {response : Response} (h : P response) :
    Responds server content (throw (.respond response)) P := by
  rintro _ ⟨⟩
  exact h

theorem crash : Responds server content (throw .crash) P :=
  nofun

theorem orBadRequest {value : Option β} {f : β → Handler Response} (bad : P .badRequest)
    (h : ∀ v, value = some v → Responds server content (f v) P) :
    Responds server content (Handler.orBadRequest value >>= f) P :=
  match value with
  | none   => stop bad
  | some v => h v rfl

theorem orServerError {value : Option β} {f : β → Handler Response} (bad : P .internalServerError)
    (h : ∀ v, value = some v → Responds server content (f v) P) :
    Responds server content (Handler.orServerError value >>= f) P :=
  match value with
  | none   => stop bad
  | some v => h v rfl

theorem form {value : Except FormData.Error β} {f : β → Handler Response} (bad : P .badRequest)
    (h : ∀ v, Responds server content (f v) P) :
    Responds server content (Handler.form value >>= f) P := by
  rcases value with (_ | _ | _ | _) | v
  case ok            => exact h v
  case error.notUtf8 => exact crash
  all_goals exact stop bad

theorem awaitContent {f : Option String → Handler Response}
    (h : Responds server content (f content) P) :
    Responds server content (Handler.content >>= f) P :=
  h

theorem spawnBlocking {f : Unit → Handler Response} (h : Responds server content (f ()) P) :
    Responds server content (Handler.spawnBlocking >>= f) P :=
  h

theorem setSessions {change : Sessions → Sessions} {f : Unit → Handler Response}
    (h : ∀ server : Server α, Responds server content (f ()) P) :
    Responds server content (Handler.setSessions change >>= f) P :=
  h _

theorem authorization [Unicode] {request : Request} {f : Option UserId → Handler Response}
    (h : Responds server content (f (getAuthorization server.sessions request.headers)) P) :
    Responds server content (Routing.authorization request >>= f) P :=
  h

theorem call {c : Call} {f : Option c.Answer → Handler Response}
    (h : ∀ server' : Server α, Responds server' content (f (c.perform server.app).1.toOption) P) :
    Responds server content (Handler.call c >>= f) P :=
  h _

end Responds
end Handler

namespace Routing

open Handler

variable {α ε : Type} [App α ε] [Unicode] [UrlEscape] [UuidText] [SerdeJson]
  {server : Server α} {request : Request} {draws : Draws} {content : Option String}

-- The messenger gives the message to the user who has sent the request.
def Fetches (server : Server α) (request : Request) (message : MessageJson) : Prop :=
  ∃ userId m, getAuthorization server.sessions request.headers = some userId ∧
    message = .ofMessage m ∧
    ((∃ otherUser startingPoint messages,
        App.fetchLastMessages server.app userId otherUser startingPoint = .ok messages ∧
          m ∈ messages) ∨
      ∃ startingPoint subscription,
        (App.subscribeToNewMessages server.app userId startingPoint).1 = .ok subscription ∧
          m ∈ subscription.queue)

omit [UrlEscape] [UuidText] [SerdeJson] in
theorem silent {response : Response} (h : response.messages = []) :
    ∀ message ∈ response.messages, Fetches server request message := by
  simp [h]

omit [SerdeJson] in
theorem messagesJson_messages (chatId params : String) :
    Responds server content (messagesJson request chatId params)
      (∀ message ∈ ·.messages, Fetches server request message) := by
  refine .orBadRequest (silent rfl) fun chatId _ => .form (silent rfl) fun params =>
    .orBadRequest (silent rfl) fun startingFrom _ => .authorization ?_
  split
  case h_1 => exact .respond <| silent rfl
  case h_2 userId hu =>
    refine .call fun _ => .orServerError (silent rfl) fun messages hm => .respond ?_
    intro message h
    obtain ⟨m, hq, rfl⟩ := List.mem_map.mp <| List.mem_reverse.mp h
    exact ⟨userId, m, hu, rfl, .inl ⟨_, _, messages, Except.toOption_eq_some_iff.mp hm, hq⟩⟩

omit [SerdeJson] in
theorem subscribeNewMessages_messages (params : String) :
    Responds server content (subscribeNewMessages request params)
      (∀ message ∈ ·.messages, Fetches server request message) := by
  refine .authorization <| .orBadRequest (silent rfl) fun userId hu => .form (silent rfl) fun params =>
    .orBadRequest (silent rfl) fun idParams _ => .orBadRequest (silent rfl) fun idHeader _ =>
    .call fun _ => .orServerError (silent rfl) fun subscription hs => .respond ?_
  intro message h
  obtain ⟨m, hq, rfl⟩ : ∃ m ∈ subscription.queue, .ofMessage m = message := by
    simpa [Response.messages] using h
  exact ⟨userId, m, hu, rfl, .inr ⟨_, subscription, Except.toOption_eq_some_iff.mp hs, hq⟩⟩

-- The other handlers answer without messages.
theorem route_messages (server : Server α) (request : Request) (draws : Draws) :
    Responds server content (route request draws)
      (∀ message ∈ ·.messages, Fetches server request message) := by
  rw [route]
  cases request.endpoint
  case subscribeNewMessages => exact subscribeNewMessages_messages _
  case messagesJson         => exact messagesJson_messages _ _
  case logout =>
    refine .orBadRequest (silent rfl) fun cookies _ => ?_
    split
    case h_1 => exact .respond <| silent rfl
    case h_2 => exact .setSessions fun _ => .respond <| silent rfl
  case authorize =>
    simp only [authorize, verifyUser, bind_assoc]
    refine .awaitContent <| .orServerError (silent rfl) fun content _ => .form (silent rfl) fun params =>
      .form (silent rfl) fun login => .form (silent rfl) fun password => .call fun _ =>
      .orServerError (silent rfl) fun found _ => ?_
    cases found
    case none => exact .respond <| silent rfl
    case some =>
      simp only [bind_assoc]
      refine .call fun _ => .orServerError (silent rfl) fun verified _ => .spawnBlocking ?_
      cases verified
      case false => exact .respond <| silent rfl
      case true  => exact .setSessions fun _ => .respond <| silent rfl
  case signup =>
    simp only [signup, createUser, bind_assoc]
    refine .awaitContent <| .orServerError (silent rfl) fun content _ => .orBadRequest (silent rfl)
      fun params _ => .call fun _ => .orServerError (silent rfl) fun inserted _ => ?_
    cases inserted
    case none => exact .respond <| silent rfl
    case some =>
      simp only [bind_assoc]
      refine .call fun _ => .orServerError (silent rfl) fun authorized _ => ?_
      cases authorized
      case none => exact .respond <| silent rfl
      case some => exact .setSessions fun _ => .respond <| silent rfl
  case sendMessage =>
    refine .orBadRequest (silent rfl) fun receiver _ => .authorization ?_
    split
    case h_1 => exact .respond <| silent rfl
    case h_2 =>
      exact .awaitContent <| .orServerError (silent rfl) fun _ _ => .orBadRequest (silent rfl)
        fun _ _ => .call fun _ => .orServerError (silent rfl) fun _ _ => .respond <| silent rfl
  case chat =>
    refine .authorization ?_
    split
    case h_1 => exact .respond <| silent rfl
    case h_2 =>
      exact .call fun _ => .orServerError (silent rfl) fun _ _ => .orBadRequest (silent rfl)
        fun _ _ => .call fun _ => .orServerError (silent rfl) fun _ _ => .respond <| silent rfl
  case chatsHtml =>
    refine .authorization ?_
    split
    case h_1 => exact .respond <| silent rfl
    case h_2 =>
      exact .call fun _ => .orServerError (silent rfl) fun _ _ => .respond <| silent rfl
  case chatsearchHtml =>
    exact .form (silent rfl) fun _ => .form (silent rfl) fun _ => .call fun _ =>
      .orServerError (silent rfl) fun _ _ => .respond <| silent rfl
  case chatHtml =>
    exact .orBadRequest (silent rfl) fun _ _ => .call fun _ =>
      .orServerError (silent rfl) fun _ _ => .respond <| silent rfl
  all_goals exact .respond <| silent rfl

end Routing

namespace World

variable {w : World} {u v : UserId} {m : Message} {startingPoint : Option MessageId}
  {messages : List Message} {subscription : Subscription}

theorem of_mem_fetchLastMessages [Unicode] [Argon2]
    (h : App.fetchLastMessages w u v startingPoint = .ok messages) (hm : m ∈ messages) :
    m.Concerns u ∧ m ∈ w.messages := by
  change (w.db.fetchLastMessagesInChat u v startingPoint).mapError _ = _ at h
  rw [MockDb.fetchLastMessagesInChat] at h
  cases hl : w.db.messages.lock <;> rw [hl] at h <;> cases h
  case ok ms =>
    cases (Mutex.lock_eq_ok_iff.mp hl).right
    exact MockDb.of_mem_lastMessagesInChat hm

theorem of_mem_subscribeToNewMessages
    (h : (w.subscribeToNewMessages u startingPoint).1 = .ok subscription)
    (hm : m ∈ subscription.queue) : m.Concerns u ∧ m ∈ w.messages := by
  cases startingPoint
  case none =>
    cases h
    cases hm
  case some id =>
    rw [subscribeToNewMessages] at h
    cases hf : w.db.fetchUsersMessagesSince u id <;> rw [hf] at h <;> cases h
    exact MockDb.of_mem_usersMessagesSince <| Stream.fetchUsersMessagesSince_eq hf ▸ hm

variable [Unicode] [Argon2] [UrlEscape] [UuidText] [SerdeJson]

-- A message that is delivered on a subscription, or is part of the response to a request, is one of
-- the user's and has been sent before.
theorem messages_genuine (es : List Event) :
    (∀ i st m, (system.run es).streams[i]? = some st → m ∈ st.received →
      ∃ es₁ es₂, es = es₁ ++ .stream i .recv :: es₂ ∧ Genuine es₁ st.userId m) ∧
    ∀ sessions calls request draws,
      ∀ response ∈
        ((Routing.route request draws).run request.content ⟨system.run es, sessions, calls⟩).1,
      ∀ message ∈ response.messages,
        ∃ userId m, getAuthorization sessions request.headers = some userId ∧
          message = .ofMessage m ∧ Genuine es userId m := by
  refine ⟨fun i st m => received_genuine, fun sessions calls request draws response hr message h => ?_⟩
  have ⟨userId, m, hu, he, hm⟩ := Routing.route_messages _ request draws response hr message h
  refine ⟨userId, m, hu, he, genuine_iff.mpr ?_⟩
  obtain ⟨_, _, _, hf, hm⟩ | ⟨_, _, hs, hm⟩ := hm
  · exact of_mem_fetchLastMessages hf hm
  · exact of_mem_subscribeToNewMessages hs hm

end World

namespace World

-- The second of the messages that are delivered comes live.
theorem messages_genuine_example :
    let _ := asciiUnicode
    let _ := clearText
    let _ := noEscapes
    let _ := decimalIds
    let _ := plainText
    let m (id : MessageId) : Message := ⟨id, 1, 2, "hello", 0⟩
    let es : List Event := [
      .create (m 10), .announce (m 10), .create (m 11), .register 2 (some 10), .stream 0 .fetch,
      .create (m 12), .announce (m 12), .stream 0 .pipe, .stream 0 .redirect, .stream 0 .recv,
      .stream 0 .recv]
    ∃ es₁ es₂, es = es₁ ++ .stream 0 .recv :: es₂ ∧ Genuine es₁ 2 (m 12) := by
  intro _ _ _ _ _ m es
  let st : Stream := ⟨2, some 10, 0, .streaming, [11], .new, .new, none, [m 10, m 11], [m 11],
    [m 11, m 12]⟩
  have hi : (system.run es).streams[0]? = some st := by decide +kernel
  exact (messages_genuine es).left 0 st (m 12) hi (by decide)

end World
end Pheidippides
