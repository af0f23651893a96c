import Pheidippides.Web.Contract

namespace Pheidippides

namespace Handler

open Routing Server

variable {β : Type} [Unicode] [UrlEscape] [UuidText] [SerdeJson] {request : Request} {draws : Draws}
  {user : Option UserId} {n : Nat} {stage : Stage} {response : Response}

def Keeps (request : Request) (draws : Draws) (t : Progress) (handler : Handler Response) : Prop :=
  Program.Meets (contract request draws) t handler

namespace Keeps

theorem respond (given : response.Given draws.sessionId) (other : response ≠ accepted)
    (hs : stage ≠ .stored) : Keeps request draws ⟨user, n, stage⟩ (pure response) :=
  Ends.ok given <| iff_of_false other hs

theorem accept : Keeps request draws ⟨user, n, .stored⟩ (pure accepted) :=
  Ends.ok .html <| iff_of_true rfl rfl

theorem stop (given : response.Given draws.sessionId) (other : response ≠ accepted)
    (hs : stage ≠ .stored) : Keeps request draws ⟨user, n, stage⟩ (throw (.respond response)) :=
  Ends.respond given <| iff_of_false other hs

theorem orBadRequest {value : Option β} {f : β → Handler Response}
    (h : ∀ v, value = some v → Keeps request draws ⟨user, n, .working⟩ (f v)) :
    Keeps request draws ⟨user, n, .working⟩ (Handler.orBadRequest value >>= f) :=
  match value with
  | none   => stop .badRequest nofun nofun
  | some v => h v rfl

theorem orServerError {value : Option β} {f : β → Handler Response} (hs : value = none → stage ≠ .stored)
    (h : ∀ v, value = some v → Keeps request draws ⟨user, n, stage⟩ (f v)) :
    Keeps request draws ⟨user, n, stage⟩ (Handler.orServerError value >>= f) :=
  match value with
  | none   => stop .internalServerError nofun (hs rfl)
  | some v => h v rfl

theorem form {value : Except FormData.Error β} {f : β → Handler Response}
    (h : ∀ v, value.toOption = some v → Keeps request draws ⟨user, n, .working⟩ (f v)) :
    Keeps request draws ⟨user, n, .working⟩ (Handler.form value >>= f) := by
  rcases value with (_ | _ | _ | _) | v
  case ok            => exact h v rfl
  case error.notUtf8 => exact Ends.crash rfl
  all_goals exact stop .badRequest nofun nofun

theorem authorization {f : Option UserId → Handler Response}
    (h : ∀ user, Keeps request draws ⟨user, n, .working⟩ (f user)) :
    Keeps request draws ⟨user, n, .working⟩ (Routing.authorization request >>= f) := by
  refine ⟨⟨rfl, nofun, nofun⟩, fun sessions t gets => ?_⟩
  cases gets
  exact h _

theorem setSessions {change : Sessions → Sessions} {f : Unit → Handler Response}
    (h : Keeps request draws ⟨user, n, .changed⟩ (f ())) :
    Keeps request draws ⟨user, n, .working⟩ (Handler.setSessions change >>= f) := by
  refine ⟨⟨rfl, nofun, nofun⟩, fun sessions t gets => ?_⟩
  cases gets
  exact h

theorem content {f : Option String → Handler Response}
    (h : Keeps request draws ⟨user, n, .working⟩ (f request.content)) :
    Keeps request draws ⟨user, n + 1, .working⟩ (Handler.content >>= f) := by
  refine ⟨⟨rfl, fun _ => n.succ_pos, nofun⟩, fun sessions t gets => ?_⟩
  cases gets
  case content => exact h
  case other   => contradiction

theorem spawnBlocking {f : Unit → Handler Response}
    (h : Keeps request draws ⟨user, n, .working⟩ (f ())) :
    Keeps request draws ⟨user, n + 1, .working⟩ (Handler.spawnBlocking >>= f) := by
  refine ⟨⟨rfl, fun _ => n.succ_pos, nofun⟩, fun sessions t gets => ?_⟩
  cases gets
  exact h

theorem of_call {c : Call} {f : Option c.Answer → Handler Response} (authorized : c.Authorized request user)
    (drawn : c.Drawn draws)
    (h : ∀ answer, Keeps request draws
      ⟨user, n, if c.message.isSome && answer.isSome then .stored else .working⟩ (f answer)) :
    Keeps request draws ⟨user, n + 1, .working⟩ (Handler.call c >>= f) := by
  refine ⟨⟨rfl, fun _ => n.succ_pos, ?_⟩, fun sessions t gets => ?_⟩
  · rintro _ ⟨⟩
    exact ⟨authorized, drawn⟩
  · cases gets
    exact h _

-- A call which stores no message.
theorem call {c : Call} {f : Option c.Answer → Handler Response} (silent : c.message = none)
    (authorized : c.Authorized request user)
    (h : ∀ answer, Keeps request draws ⟨user, n, .working⟩ (f answer)) :
    Keeps request draws ⟨user, n + 1, .working⟩ (Handler.call c >>= f) :=
  of_call authorized (by simp [Call.Drawn, silent]) fun answer => by simpa [silent] using h answer

end Keeps
end Handler

namespace Routing

open Handler Server

variable [Unicode] [UrlEscape] [UuidText] [SerdeJson] {request : Request} {draws : Draws}
  {user : Option UserId} {n : Nat}

theorem logout_keeps : Keeps request draws ⟨user, n, .working⟩ (logout request) := by
  refine .orBadRequest fun cookies _ => ?_
  split
  · exact .respond (.redirect <| .inr rfl) nofun nofun
  · exact .setSessions <| .respond (.redirect <| .inr rfl) nofun nofun

theorem authorize_keeps : Keeps request draws ⟨user, n + 4, .working⟩ (authorize draws) := by
  simp only [authorize, verifyUser, bind_assoc]
  refine .content <| .orServerError nofun fun content _ => .form fun params _ => .form fun login _ =>
    .form fun password _ => .call rfl nofun fun _ => .orServerError nofun fun found _ => ?_
  cases found
  case none => exact .respond .html nofun nofun
  case some =>
    simp only [bind_assoc]
    refine .call rfl nofun fun _ => .orServerError nofun fun verified _ => .spawnBlocking ?_
    cases verified
    case false => exact .respond .html nofun nofun
    case true  => exact .setSessions <| .respond .login nofun nofun

theorem signup_keeps : Keeps request draws ⟨user, n + 3, .working⟩ (signup draws) := by
  simp only [signup, createUser, bind_assoc]
  refine .content <| .orServerError nofun fun content _ => .orBadRequest fun params _ =>
    .call rfl nofun fun _ => .orServerError nofun fun inserted _ => ?_
  cases inserted
  case none => exact .respond .json nofun nofun
  case some =>
    simp only [bind_assoc]
    refine .call rfl nofun fun _ => .orServerError nofun fun authorized _ => ?_
    cases authorized
    case none => exact .respond .json nofun nofun
    case some => exact .setSessions <| .respond .signup nofun nofun

theorem sendMessage_keeps {receiver : String} (h : request.endpoint = .sendMessage receiver) :
    Keeps request draws ⟨user, n + 2, .working⟩ (sendMessage request draws receiver) := by
  refine .orBadRequest fun id hr => .authorization fun user => ?_
  cases user
  case none        => exact .respond (.redirect <| .inr rfl) nofun nofun
  case some userId =>
    refine .content <| .orServerError nofun fun content hc => .orBadRequest fun params hp =>
      .of_call ?_ ?_ fun answer => ?_
    · rintro _ _ ⟨⟩
      exact ⟨rfl, by simp [asks, h, hr, hc, hp]⟩
    · rintro _ ⟨⟩
      exact ⟨rfl, rfl⟩
    · cases answer
      case none => exact .orServerError nofun nofun
      case some => exact .orServerError nofun fun _ _ => .accept

theorem subscribeNewMessages_keeps {params : String} (h : request.endpoint = .subscribeNewMessages params) :
    Keeps request draws ⟨user, n + 1, .working⟩ (subscribeNewMessages request params) := by
  refine .authorization fun user => .orBadRequest fun userId hu => .form fun fields hf =>
    .orBadRequest fun idParams hi => .orBadRequest fun idHeader hh => .call rfl ?_ fun _ =>
    .orServerError nofun fun _ _ => .respond .eventSource nofun nofun
  rintro _ _ ⟨⟩
  exact ⟨hu, by simp [asks, h, hf, hi, hh]⟩

theorem messagesJson_keeps {chatId params : String} (h : request.endpoint = .messagesJson chatId params) :
    Keeps request draws ⟨user, n + 1, .working⟩ (messagesJson request chatId params) := by
  refine .orBadRequest fun otherUser ho => .form fun fields hf => .orBadRequest fun startingFrom hs =>
    .authorization fun user => ?_
  cases user
  case none => exact .respond .json nofun nofun
  case some userId =>
    refine .call rfl ?_ fun _ => .orServerError nofun fun _ _ => .respond .json nofun nofun
    rintro _ _ ⟨⟩
    exact ⟨rfl, by simp [asks, h, ho, hf, hs]⟩

theorem chat_keeps {chatId : Option String} (h : request.endpoint = .chat chatId) :
    Keeps request draws ⟨user, n + 2, .working⟩ (chat request) := by
  refine .authorization fun user => ?_
  cases user
  case none => exact .respond (.redirect <| .inr rfl) nofun nofun
  case some userId =>
    refine .call rfl nofun fun _ => .orServerError nofun fun _ _ => .orBadRequest fun _ _ =>
      .call rfl ?_ fun _ => .orServerError nofun fun _ _ => .respond .html nofun nofun
    rintro _ _ ⟨⟩
    exact ⟨rfl, by simp [asks, h]⟩

theorem chatsHtml_keeps (h : request.endpoint = .chatsHtml) :
    Keeps request draws ⟨user, n + 1, .working⟩ (chatsHtml request) := by
  refine .authorization fun user => ?_
  cases user
  case none => exact .respond .html nofun nofun
  case some userId =>
    refine .call rfl ?_ fun _ => .orServerError nofun fun _ _ => .respond .html nofun nofun
    rintro _ _ ⟨⟩
    exact ⟨rfl, by simp [asks, h]⟩

omit [Unicode] in
theorem chatsearchHtml_keeps [Unicode] {params : String} :
    Keeps request draws ⟨user, n + 1, .working⟩ (chatsearchHtml params) :=
  .form fun _ _ => .form fun _ _ => .call rfl nofun fun _ => .orServerError nofun fun _ _ =>
    .respond .html nofun nofun

theorem chatHtml_keeps {chatId : String} :
    Keeps request draws ⟨user, n + 1, .working⟩ (chatHtml chatId) :=
  .orBadRequest fun _ _ => .call rfl nofun fun _ => .orServerError nofun fun _ _ =>
    .respond .html nofun nofun

theorem route_keeps (request : Request) (draws : Draws) :
    Keeps request draws .start (route request draws) := by
  rw [route]
  cases h : request.endpoint
  case main                 => exact .respond (.redirect <| .inl rfl) nofun nofun
  case logout               => exact logout_keeps
  case authorize            => exact authorize_keeps
  case signup               => exact signup_keeps
  case sendMessage          => exact sendMessage_keeps h
  case subscribeNewMessages => exact subscribeNewMessages_keeps h
  case chat                 => exact chat_keeps h
  case chatsHtml            => exact chatsHtml_keeps h
  case chatsearchHtml       => exact chatsearchHtml_keeps
  case chatHtml             => exact chatHtml_keeps
  case messagesJson         => exact messagesJson_keeps h
  case favicon              => exact .respond .empty nofun nofun
  case badRequest           => exact .respond .badRequest nofun nofun
  all_goals exact .respond .html nofun nofun

end Routing

namespace Handler

open Routing Server

variable {α ε : Type} [App α ε] {server : Server α} {content content' : Option String} {op : Operation}
  {next : op.Result → Rest}

-- For the messenger nothing happens before the handler has to wait.
theorem advance_same (p : Rest) :
    (p.advance Operation.waits (perform content) server).2.app = server.app ∧
      (p.advance Operation.waits (perform content) server).2.calls = server.calls := by
  refine Program.advance_induction (P := fun s : Server α => s.app = server.app ∧ s.calls = server.calls) p
    ⟨rfl, rfl⟩ fun op s hw h => ?_
  cases op
  case getSessions => exact h
  case setSessions => exact h
  all_goals cases hw

theorem perform_called (op : Operation) :
    (perform content op server).2.app = op.called.elim server.app (fun c => (c.perform server.app).2) ∧
      (perform content op server).2.calls = server.calls ++ op.called.toList := by
  cases op
  case call => exact ⟨rfl, rfl⟩
  all_goals exact ⟨rfl, (List.append_nil _).symm⟩

-- What a handler does to the messenger as it goes on is the call for which it has waited.
theorem resume_called :
    (Program.resume Operation.waits (perform content) (.op op next) server).2.app =
        op.called.elim server.app (fun c => (c.perform server.app).2) ∧
      (Program.resume Operation.waits (perform content) (.op op next) server).2.calls =
        server.calls ++ op.called.toList := by
  rw [Program.resume, (advance_same _).left, (advance_same _).right]
  exact perform_called op

theorem eq_call_of_called {c : Call} (h : c ∈ op.called) : op = .call c := by
  cases op <;> cases h
  rfl

theorem advance_content (p : Rest) : p.advance Operation.waits (perform content) server =
    p.advance Operation.waits (perform content') server :=
  Program.advance_congr (fun op _ hw => by cases op <;> first | rfl | cases hw) p

theorem resume_content (h : op = .content → content = content') :
    Program.resume Operation.waits (perform content) (.op op next) server =
      Program.resume Operation.waits (perform content') (.op op next) server := by
  have same : perform content op server = perform content' op server := by
    cases op
    case content => rw [h rfl]
    all_goals rfl
  rw [Program.resume, Program.resume, same]
  exact advance_content _

variable [Unicode] {sent : Request} {draws : Draws} {t t' : Progress} {sessions : Sessions}

-- What a handler does as far as it need not wait. It looks at the sessions, or it changes them.
structure Ahead (sent : Request) (sessions : Sessions) (t t' : Progress) : Prop where
  user   : ∀ userId ∈ t'.user, userId ∈ t.user ∨ getAuthorization sessions sent.headers = some userId
  waits  : t'.waits = t.waits
  stored : t'.stage = .stored ↔ t.stage = .stored

theorem Ahead.refl : Ahead sent sessions t t :=
  ⟨fun _ => .inl, rfl, .rfl⟩

theorem after_of_waits (sent : Request) (t : Progress) (res : op.Result) (hw : op.waits = true) :
    (t.after sent op res).user = t.user ∧ (t.after sent op res).waits = t.waits - 1 := by
  cases op <;> first | exact ⟨rfl, rfl⟩ | cases hw

-- A message is stored by a call of which it is the message, and which succeeds.
theorem after_stored_iff (working : t.stage = .working) :
    (t.after sent op (perform content op server).1).stage = .stored ↔
      ∃ c ∈ op.called, c.message.isSome ∧ (c.perform server.app).1.toOption.isSome := by
  cases op
  case call c =>
    rw [Progress.after, perform_call]
    simp only [Operation.called, Option.mem_some_iff, exists_eq_left']
    cases c.message <;> cases (c.perform server.app).1.toOption <;> simp
  all_goals simp [Progress.after, Progress.wait, Operation.called, working]

variable [UrlEscape] [UuidText] [SerdeJson]

theorem advance_meets {p : Rest} (content : Option String) (server : Server α)
    (h : p.Meets (contract sent draws) t) :
    ∃ t', (p.advance Operation.waits (perform content) server).1.Meets (contract sent draws) t' ∧
      Ahead sent server.sessions t t' := by
  refine (Program.Meets.advance (G := fun t' (s : Server α) => Ahead sent server.sessions t t' ∧
    (t'.stage = .working → s.sessions = server.sessions)) h ⟨.refl, fun _ => rfl⟩ ?_).imp
    fun _ ⟨meets, ahead, _⟩ => ⟨meets, ahead⟩
  intro op t₁ s hw ⟨working, _⟩ ⟨ahead, same⟩
  cases op
  case getSessions =>
    refine ⟨_, .other nofun, ⟨fun userId hu => .inr ?_, ahead.waits, ahead.stored⟩, same⟩
    rw [← same working]
    exact hu
  case setSessions =>
    refine ⟨_, .other nofun, ⟨ahead.user, ahead.waits, iff_of_false nofun fun h => ?_⟩, nofun⟩
    cases working.symm.trans <| ahead.stored.mpr h
  all_goals cases hw

theorem resume_meets (server : Server α) (h : Program.Meets (contract sent draws) t (.op op next))
    (hw : op.waits = true) :
    ∃ t', (Program.resume Operation.waits (perform sent.content) (.op op next) server).1.Meets
        (contract sent draws) t' ∧
      Ahead sent server.sessions (t.after sent op (perform sent.content op server).1) t' := by
  have gets : Gets sent t op (perform sent.content op server).1
      (t.after sent op (perform sent.content op server).1) := by
    cases op
    case content => exact .content
    all_goals exact .other nofun
  have sessions : (perform sent.content op server).2.sessions = server.sessions := by
    cases op
    case setSessions => cases hw
    all_goals rfl
  exact sessions ▸ advance_meets _ _ (h.right _ _ gets)

end Handler
end Pheidippides
