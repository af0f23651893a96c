import Pheidippides.Objects.Theorems.Messages
import Pheidippides.Web.Theorems.Sessions

namespace Pheidippides

namespace Handler

variable {α β ε : Type} [App α ε] {server₁ server₂ : Server α} {content : Option String}

-- Two runs come to the same response.
def Agree (server₁ server₂ : Server α) (content : Option String)
    (handler₁ handler₂ : Handler Response) : Prop :=
  (handler₁.run content server₁).1 = (handler₂.run content server₂).1

namespace Agree

theorem respond (response : Response) :
    Agree server₁ server₂ content (pure response) (pure response) :=
  rfl

theorem orBadRequest {value : Option β} {f₁ f₂ : β → Handler Response}
    (h : ∀ v, value = some v → Agree server₁ server₂ content (f₁ v) (f₂ v)) :
    Agree server₁ server₂ content (Handler.orBadRequest value >>= f₁)
      (Handler.orBadRequest value >>= f₂) :=
  match value with
  | none   => rfl
  | some v => h v rfl

theorem orServerError {value₁ value₂ : Option β} {f₁ f₂ : β → Handler Response}
    (he : value₁ = value₂) (h : ∀ v, Agree server₁ server₂ content (f₁ v) (f₂ v)) :
    Agree server₁ server₂ content (Handler.orServerError value₁ >>= f₁)
      (Handler.orServerError value₂ >>= f₂) :=
  match value₁, he with
  | none, rfl   => rfl
  | some v, rfl => h v

theorem form {value : Except FormData.Error β} {f₁ f₂ : β → Handler Response}
    (h : ∀ v, value.toOption = some v → Agree server₁ server₂ content (f₁ v) (f₂ v)) :
    Agree server₁ server₂ content (Handler.form value >>= f₁) (Handler.form value >>= f₂) := by
  rcases value with (_ | _ | _ | _) | v
  case ok => exact h v rfl
  all_goals rfl

theorem authorization [Unicode] {request : Request} {f₁ f₂ : Option UserId → Handler Response}
    (h : Agree server₁ server₂ content (f₁ (getAuthorization server₁.sessions request.headers))
      (f₂ (getAuthorization server₂.sessions request.headers))) :
    Agree server₁ server₂ content (Routing.authorization request >>= f₁)
      (Routing.authorization request >>= f₂) :=
  h

theorem call {c : Call} {f₁ f₂ : Option c.Answer → Handler Response}
    (h : Agree { server₁ with app := (c.perform server₁.app).2, calls := server₁.calls ++ [c] }
      { server₂ with app := (c.perform server₂.app).2, calls := server₂.calls ++ [c] } content
      (f₁ (c.perform server₁.app).1.toOption) (f₂ (c.perform server₂.app).1.toOption)) :
    Agree server₁ server₂ content (Handler.call c >>= f₁) (Handler.call c >>= f₂) :=
  h

end Agree
end Handler

open Handler Server

-- The message after or before which a request wants messages.
def Service.startingPoint : Service → Option MessageId
  | fetchLastMessages _ startingPoint => startingPoint
  | subscribe startingPoint           => startingPoint
  | _                                 => none

-- Requests for messages, for the list of chats, and for a subscription.
def Endpoint.Reads : Endpoint → Prop
  | chat _ | chatsHtml | subscribeNewMessages _ | messagesJson _ _ => True
  | _                                                              => False

namespace World

variable {w₁ w₂ : World} {u : UserId}

-- Two worlds whose stores are the same to a user, and which number a new subscription alike.
structure SameFor (u : UserId) (w₁ w₂ : World) : Prop where
  db      : MockDb.SameFor u w₁.db w₂.db
  streams : w₁.streams.length = w₂.streams.length

namespace SameFor

variable {startingPoint : Option MessageId}

theorem subscribeToNewMessages (h : SameFor u w₁ w₂)
    (own₁ : ∀ id, startingPoint = some id → w₁.db.Owns u id)
    (own₂ : ∀ id, startingPoint = some id → w₂.db.Owns u id) :
    (w₁.subscribeToNewMessages u startingPoint).1 = (w₂.subscribeToNewMessages u startingPoint).1 := by
  cases startingPoint
  case none    => simp [World.subscribeToNewMessages, h.streams]
  case some id =>
    have fetch := h.db.fetchUsersMessagesSince (own₁ id rfl) (own₂ id rfl)
    rw [World.subscribeToNewMessages, World.subscribeToNewMessages, fetch, h.streams]
    cases w₂.db.fetchUsersMessagesSince u id <;> rfl

variable [Unicode] [Argon2]

theorem fetchUser (h : SameFor u w₁ w₂) (v : UserId) : App.fetchUser w₁ v = App.fetchUser w₂ v := by
  change (w₁.db.users.lock.map _).mapError _ = (w₂.db.users.lock.map _).mapError _
  rw [h.db.users]

theorem fetchUsersChats (h : SameFor u w₁ w₂) :
    App.fetchUsersChats w₁ u = App.fetchUsersChats w₂ u := by
  change (w₁.db.findUsersChats u).mapError _ = (w₂.db.findUsersChats u).mapError _
  rw [h.db.findUsersChats]

theorem fetchLastMessages (h : SameFor u w₁ w₂) (v : UserId)
    (own₁ : ∀ id, startingPoint = some id → w₁.db.Owns u id)
    (own₂ : ∀ id, startingPoint = some id → w₂.db.Owns u id) :
    App.fetchLastMessages w₁ u v startingPoint = App.fetchLastMessages w₂ u v startingPoint := by
  change (w₁.db.fetchLastMessagesInChat u v startingPoint).mapError _ =
    (w₂.db.fetchLastMessagesInChat u v startingPoint).mapError _
  rw [h.db.fetchLastMessagesInChat own₁ own₂]

end SameFor
end World

namespace Routing

variable [Unicode] [Argon2] [UrlEscape] [UuidText] [SerdeJson] {w₁ w₂ : World} {u : UserId}
  {request : Request} {draws : Draws} {sessions : Sessions} {calls₁ calls₂ : List Call}

-- No message between other users has the id from which the request starts.
def StartsFromOwn (w : World) (u : UserId) (request : Request) : Prop :=
  ∀ service id, asks request = some service → service.startingPoint = some id → w.db.Owns u id

theorem messagesJson_agree {chatId params : String} (h : request.endpoint = .messagesJson chatId params)
    (hu : getAuthorization sessions request.headers = some u) (same : w₁.SameFor u w₂)
    (own₁ : StartsFromOwn w₁ u request) (own₂ : StartsFromOwn w₂ u request) :
    Agree ⟨w₁, sessions, calls₁⟩ ⟨w₂, sessions, calls₂⟩ request.content
      (messagesJson request chatId params) (messagesJson request chatId params) := by
  refine .orBadRequest fun otherUser ho => .form fun params hp => .orBadRequest fun startingFrom hs =>
    .authorization ?_
  have asked : asks request = some (.fetchLastMessages otherUser startingFrom) := by
    simp [asks, h, ho, hp, hs]
  have fetch := same.fetchLastMessages otherUser (own₁ _ · asked) (own₂ _ · asked)
  simp only [hu]
  exact .call <| .orServerError (congrArg _ fetch) fun _ => .respond _

theorem subscribeNewMessages_agree {params : String}
    (h : request.endpoint = .subscribeNewMessages params)
    (hu : getAuthorization sessions request.headers = some u) (same : w₁.SameFor u w₂)
    (own₁ : StartsFromOwn w₁ u request) (own₂ : StartsFromOwn w₂ u request) :
    Agree ⟨w₁, sessions, calls₁⟩ ⟨w₂, sessions, calls₂⟩ request.content
      (subscribeNewMessages request params) (subscribeNewMessages request params) := by
  refine .authorization ?_
  simp only [hu]
  refine .orBadRequest fun _ hv => .form fun params hp => .orBadRequest fun idParams hi =>
    .orBadRequest fun idHeader hh => .call <| .orServerError ?_ fun _ => .respond _
  cases hv
  have asked : asks request = some (.subscribe (idHeader.or idParams)) := by simp [asks, h, hp, hi, hh]
  exact congrArg _ <| same.subscribeToNewMessages (own₁ _ · asked) (own₂ _ · asked)

omit [UrlEscape] [UuidText] [SerdeJson] in
theorem chat_agree (hu : getAuthorization sessions request.headers = some u) (same : w₁.SameFor u w₂) :
    Agree ⟨w₁, sessions, calls₁⟩ ⟨w₂, sessions, calls₂⟩ request.content (chat request)
      (chat request) := by
  refine .authorization ?_
  simp only [hu]
  exact .call <| .orServerError (congrArg _ <| same.fetchUser u) fun user => .orBadRequest fun _ _ =>
    .call <| .orServerError (congrArg _ same.fetchUsersChats) fun _ => .respond _

omit [UrlEscape] [UuidText] [SerdeJson] in
theorem chatsHtml_agree (hu : getAuthorization sessions request.headers = some u)
    (same : w₁.SameFor u w₂) :
    Agree ⟨w₁, sessions, calls₁⟩ ⟨w₂, sessions, calls₂⟩ request.content
      (chatsHtml request) (chatsHtml request) := by
  refine .authorization ?_
  simp only [hu]
  exact .call <| .orServerError (congrArg _ same.fetchUsersChats) fun _ => .respond _

-- What a user sees does not depend on the messages between other users, as long as no request starts
-- from one of them.
theorem route_isolated (same : w₁.SameFor u w₂)
    (hu : getAuthorization sessions request.headers = some u) (reads : request.endpoint.Reads)
    (own₁ : StartsFromOwn w₁ u request) (own₂ : StartsFromOwn w₂ u request) :
    ((route request draws).run request.content ⟨w₁, sessions, calls₁⟩).1 =
      ((route request draws).run request.content ⟨w₂, sessions, calls₂⟩).1 := by
  rw [route]
  cases h : request.endpoint <;> rw [h] at reads
  case chat                 => exact chat_agree hu same
  case chatsHtml            => exact chatsHtml_agree hu same
  case subscribeNewMessages => exact subscribeNewMessages_agree h hu same own₁ own₂
  case messagesJson         => exact messagesJson_agree h hu same own₁ own₂
  all_goals cases reads

end Routing

-- A world with these messages and no subscriptions.
def World.storing (messages : List Message) : World :=
  { World.empty with db := { MockDb.empty with messages := .new messages } }

namespace Routing

-- The older messages of a chat, in a store with and without messages between others.
theorem route_isolated_example :
    let _ := asciiUnicode
    let _ := clearText
    let _ := noEscapes
    let _ := decimalIds
    let _ := plainText
    let m (id : MessageId) (sender receiver : UserId) : Message := ⟨id, sender, receiver, "hello", 0⟩
    let w₁ : World := .storing [m 10 1 2, m 11 3 4, m 12 2 1, m 13 4 3]
    let w₂ : World := .storing [m 10 1 2, m 12 2 1]
    let sessions := Sessions.empty.updateSessionInfo "a" ⟨1⟩
    let request : Request :=
      ⟨.get, "/json/messages/2?from=12", cookie "_pheidippides_sid=a", none⟩
    let draws : Draws := ⟨"b", 0, none, 0, 0⟩
    ((route request draws).run none ⟨w₁, sessions, []⟩).1 =
      ((route request draws).run none ⟨w₂, sessions, []⟩).1 := by
  intro _ _ _ _ _ m w₁ w₂ sessions request draws
  have endpoint : request.endpoint = .messagesJson "2" "from=12" := by decide +kernel
  have asked : asks request = some (.fetchLastMessages 2 (some 12)) := by decide +kernel
  have own {w : World} (h : w.db.Owns 1 12) : StartsFromOwn w 1 request := by
    intro service id hs hi
    cases asked.symm.trans hs
    cases hi
    exact h
  have own₁ : w₁.db.Owns 1 12 := by unfold MockDb.Owns; decide
  have own₂ : w₂.db.Owns 1 12 := by unfold MockDb.Owns; decide
  exact route_isolated (u := 1) ⟨⟨rfl, rfl, by decide⟩, rfl⟩ (by decide +kernel) (endpoint ▸ trivial)
    (own own₁) (own own₂)

-- The id is that of a message between others, which one of the stores has and the other has not.
theorem not_route_isolated :
    let _ := asciiUnicode
    let _ := clearText
    let _ := noEscapes
    let _ := decimalIds
    let _ := plainText
    let m (id : MessageId) (sender receiver : UserId) : Message := ⟨id, sender, receiver, "hello", 0⟩
    let w₁ : World := .storing [m 10 3 4, m 11 1 2, m 12 3 4]
    let w₂ : World := .storing [m 11 1 2]
    let sessions := Sessions.empty.updateSessionInfo "a" ⟨1⟩
    let headers := cookie "_pheidippides_sid=a"
    let draws : Draws := ⟨"b", 0, none, 0, 0⟩
    let response (w : World) (url : String) : Option Response :=
      ((route ⟨.get, url, headers, none⟩ draws).run none ⟨w, sessions, []⟩).1
    w₁.SameFor 1 w₂ ∧ getAuthorization sessions headers = some 1 ∧
      (response w₁ "/json/messages/2?from=12" =
          some (.json (.messages true [.ofMessage <| m 11 1 2] none) []) ∧
        response w₂ "/json/messages/2?from=12" = some (.json (.messages true [] none) [])) ∧
      response w₁ "/subscribe/new_messages?last_message_id=10" =
          some (.eventSource none 0 [⟨.ofMessage <| m 11 1 2, 11, none⟩]) ∧
        response w₂ "/subscribe/new_messages?last_message_id=10" =
          some (.eventSource none 0 []) := by
  intro _ _ _ _ _ m w₁ w₂ sessions headers draws response
  refine ⟨⟨⟨rfl, rfl, by decide⟩, rfl⟩, ?_⟩
  decide +kernel

end Routing
end Pheidippides
