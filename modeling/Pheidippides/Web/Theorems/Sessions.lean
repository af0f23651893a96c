import Pheidippides.Messenger.Theorems.Credentials
import Pheidippides.Utils.Theorems.Http
import Pheidippides.Web.InMemory
import Pheidippides.Web.Theorems.Routing

namespace Pheidippides.Server

variable {α ε : Type} [App α ε] [Unicode] [UrlEscape] [UuidText] [SerdeJson]
  {server : Server α} {app : α} {request : Request} {draws : Draws} {userId : UserId}
  {sessionId : SessionId} {service : Service}

theorem effect_eq_serve_iff : effect server request draws = some (.serve userId service) ↔
    getAuthorization server.sessions request.headers = some userId ∧ asks request = some service ∧
      Finds server request userId := by
  rw [effect, asks, Finds]
  cases request.endpoint <;> simp [Option.bind_eq_some_iff]
  -- The authorization comes after the receiver, and after the parameters of a request for messages.
  case sendMessage  => grind
  case messagesJson => grind
  case chat         =>
    rw [and_comm]
    simp [Except.toOption_eq_some_iff]

theorem effect_eq_logout_iff : effect server request draws = some (.logout sessionId) ↔
    request.endpoint = .logout ∧ Presents request sessionId := by
  rw [effect]
  cases request.endpoint <;> simp [Option.bind_eq_some_iff]
  case logout =>
    rw [Presents]
    cases getCookiesHashmap request.headers <;> simp [Except.toOption]

-- The id of a new session is the one that was drawn.
theorem sessionId_of_login (h : effect server request draws = some (.login userId sessionId)) :
    sessionId = draws.sessionId := by
  rw [effect] at h
  revert h
  cases request.endpoint <;> simp [Option.bind_eq_some_iff]
  case signup    => exact fun _ _ _ _ _ h => h.symm
  case authorize => exact fun _ _ _ _ _ _ _ _ _ h => h.symm

omit [UrlEscape] [UuidText] [SerdeJson] in
theorem getAuthorization_eq_some_iff {sessions : Sessions} :
    getAuthorization sessions request.headers = some userId ↔
      ∃ sessionId, Presents request sessionId ∧ sessions sessionId = some ⟨userId⟩ := by
  simp only [getAuthorization, Presents]
  cases getCookiesHashmap request.headers
  case error => simp
  case ok cookies =>
    simp only [Except.ok.injEq, exists_eq_left']
    cases cookies sessionIdCookie
    case none           => simp
    case some sessionId =>
      simp only [Sessions.getSessionInfo, Option.map_eq_some_iff, Option.some.injEq, exists_eq_left']
      exact ⟨fun ⟨info, h, hu⟩ => hu ▸ h, fun h => ⟨_, h, rfl⟩⟩

theorem Event.sessionId_of_logsIn {e : Event α} (h : e.LogsIn userId sessionId server) :
    e.sessionId = some sessionId :=
  match e with
  | .request .. => congrArg some (sessionId_of_login h).symm

-- Ids which are drawn but once are fresh.
theorem fresh_of_nodup {es : List (Event α)} (h : (es.filterMap Event.sessionId).Nodup) :
    Fresh app es := by
  rintro es₁ e es₂ rfl userId userId' sessionId hl ⟨es₃, e', es₄, rfl, hl', _⟩
  rw [List.filterMap_append, List.nodup_append] at h
  have mem' : sessionId ∈ (es₃ ++ e' :: es₄).filterMap Event.sessionId :=
    List.mem_filterMap.mpr ⟨e', by simp, e'.sessionId_of_logsIn hl'⟩
  have mem : sessionId ∈ (e :: es₂).filterMap Event.sessionId :=
    List.mem_filterMap.mpr ⟨e, by simp, e.sessionId_of_logsIn hl⟩
  exact h.right.right _ mem' _ mem rfl

-- The sessions which are known are those of the users who have logged in and not logged out since.
theorem sessions_run_iff {es : List (Event α)} (fresh : Fresh app es) :
    ((system app).run es).sessions sessionId = some ⟨userId⟩ ↔
      (system app).Since (fun server e => e.LogsIn userId sessionId server) (¬·.LogsOut sessionId)
        es := by
  induction es using List.reverseRecOn
  case nil => exact iff_of_false (by simp [system, start, Sessions.empty]) System.Since.not_nil
  case append_singleton es e ih =>
    have ih := ih fun es₁ e' es₂ he => fresh es₁ e' (es₂ ++ [e]) (by simp [he])
    have unknown {userId'} (hl : e.LogsIn userId' sessionId ((system app).run es)) :
        ((system app).run es).sessions sessionId ≠ some ⟨userId⟩ := by
      intro h
      have ⟨es₁, e', es₂, he, hl', _⟩ := ih.mp h
      exact fresh es e [] rfl _ _ _ hl ⟨es₁, e', es₂, he, hl', fun _ _ => trivial⟩
    rw [System.Since.concat_iff, ← ih, System.run_concat]
    generalize (system app).run es = server at unknown
    cases e
    case app app => simp [system, step, Event.LogsIn, Event.LogsOut]
    case request request draws =>
      have sessions := (Routing.route_spec server request draws).sessions
      have logsOut : effect server request draws = some (.logout sessionId) ↔ _ :=
        effect_eq_logout_iff
      simp only [system, step, Event.LogsIn, Event.LogsOut, ← logsOut, sessions]
      cases he : effect server request draws
      case none        => simp
      case some effect =>
        cases effect
        case serve            => simp [Effect.onSessions]
        case logout sessionId' =>
          simp only [Effect.onSessions, Sessions.removeSessionInfo, Option.elim_some,
            Function.update_apply]
          split
          case isTrue h  => simp [h]
          case isFalse h => simp [Ne.symm h]
        case login userId' sessionId' =>
          simp only [Effect.onSessions, Sessions.updateSessionInfo, Option.elim_some,
            Function.update_apply]
          split
          case isTrue h  =>
            subst h
            simp [unknown he]
          case isFalse h => simp [Ne.symm h]

theorem getAuthorization_run_iff {es : List (Event α)} (fresh : Fresh app es) :
    getAuthorization ((system app).run es).sessions request.headers = some userId ↔
      LoggedIn app es request userId := by
  simp only [getAuthorization_eq_some_iff, sessions_run_iff fresh, LoggedIn]

omit [Unicode] [UrlEscape] [UuidText] [SerdeJson] in
-- What a handler does to the messenger are the calls which it makes.
theorem run_calls (handler : Handler Response) (content : Option String) (server : Server α) :
    ∃ calls, (handler.run content server).2.calls = server.calls ++ calls ∧
      (handler.run content server).2.app = Call.performAll server.app calls := by
  have step (op : Operation) (server' : Server α) (h : ∃ calls, server'.calls = server.calls ++ calls ∧
      server'.app = Call.performAll server.app calls) :
      ∃ calls, (perform content op server').2.calls = server.calls ++ calls ∧
        (perform content op server').2.app = Call.performAll server.app calls := by
    cases op
    case call c =>
      have ⟨calls, log, app⟩ := h
      refine ⟨calls ++ [c], by simp [log], ?_⟩
      simp [Call.performAll, app]
    all_goals exact h
  exact Program.run_induction handler ⟨[], (List.append_nil _).symm, rfl⟩ step

-- After any run, a request is authorized as a user if and only if the user is logged in with the session
-- id in its cookies. On behalf of this user it calls the messenger for what it asks, and this once.
theorem served_iff {es : List (Event α)} (fresh : Fresh app es) :
    (∀ request userId,
      getAuthorization ((system app).run es).sessions request.headers = some userId ↔
        LoggedIn app es request userId) ∧
    ∀ request draws, ∃ calls,
      ((Routing.route request draws).run request.content ((system app).run es)).2.calls =
        ((system app).run es).calls ++ calls ∧
      ((Routing.route request draws).run request.content ((system app).run es)).2.app =
        Call.performAll ((system app).run es).app calls ∧
      (calls.filterMap Call.service).length ≤ 1 ∧
      ∀ userId service, (userId, service) ∈ calls.filterMap Call.service ↔
        LoggedIn app es request userId ∧ asks request = some service ∧
          Finds ((system app).run es) request userId := by
  refine ⟨fun _ _ => getAuthorization_run_iff fresh, fun request draws => ?_⟩
  have ⟨calls, log, performed⟩ :=
    run_calls (Routing.route request draws) request.content ((system app).run es)
  have served : calls.filterMap Call.service =
      (effect ((system app).run es) request draws).elim [] (·.onServed) := by
    have spec := (Routing.route_spec ((system app).run es) request draws).served
    rwa [log, List.filterMap_append, List.append_cancel_left_eq] at spec
  refine ⟨calls, log, performed, ?_, fun userId service => ?_⟩ <;> rw [served]
  · cases effect ((system app).run es) request draws
    case none        => exact Nat.zero_le _
    case some effect => cases effect <;> simp [Effect.onServed]
  · have serves : effect ((system app).run es) request draws = some (.serve userId service) ↔ _ :=
      effect_eq_serve_iff
    rw [← getAuthorization_run_iff fresh, ← serves]
    cases effect ((system app).run es) request draws
    case none        => simp
    case some effect => cases effect <;> simp [Effect.onServed, eq_comm]

end Pheidippides.Server

namespace Pheidippides

section Cookies

variable [Unicode] {before after cookies : List (String × String)} {sessionId : SessionId}
  {headers : Headers}

theorem exists_isLast (ne : cookies ≠ []) (hc : ∀ cookie ∈ cookies, IsCookie cookie)
    (h : headers (.ofString "Cookie") = some (cookieHeader cookies)) :
    ∃ found, getCookiesHashmap headers = .ok found ∧
      ∀ name value, found name = some value ↔ Assignments.IsLast cookies name value :=
  ⟨_, getCookiesHashmap_cookieHeader ne hc h, fun _ _ => Assignments.collect_eq_some_iff⟩

theorem getAuthorization_eq {found : String → Option String} {sessions : Sessions}
    (h : getCookiesHashmap headers = .ok found) (hs : found sessionIdCookie = some sessionId) :
    getAuthorization sessions headers = (sessions.getSessionInfo sessionId).map (·.userId) := by
  simp only [getAuthorization, h, hs]

omit [Unicode] in
theorem isCookie_session (h : ¬"; ".toList <:+: sessionId.toList) :
    IsCookie (sessionIdCookie, sessionId) where
  name      := show '=' ∉ sessionIdCookie.toList by decide
  nameEnds  := show ¬"; ".toList <:+: sessionIdCookie.toList by decide
  valueEnds := h

-- Every name in the `Cookie` header gets the last of its values, so that a session is found wherever its
-- cookie stands. A header is refused if and only if there is no `=` in one of its pieces.
theorem cookies_roundTrip :
    (∀ {cookies : List (String × String)} {headers : Headers}, cookies ≠ [] →
      (∀ cookie ∈ cookies, IsCookie cookie) →
      headers (.ofString "Cookie") = some (cookieHeader cookies) →
      ∃ found, getCookiesHashmap headers = .ok found ∧
        ∀ name value, found name = some value ↔ Assignments.IsLast cookies name value) ∧
    (∀ {before after : List (String × String)} {sessionId : SessionId} {headers : Headers},
      (∀ cookie ∈ before ++ after, IsCookie cookie) → sessionIdCookie ∉ after.map (·.1) →
      ¬"; ".toList <:+: sessionId.toList →
      headers (.ofString "Cookie") = some ("; ".intercalate <| before.map cookiePair ++
        (headerSetCookie sessionIdCookie sessionId).2 :: after.map cookiePair) →
      (∃ found, getCookiesHashmap headers = .ok found ∧ found sessionIdCookie = some sessionId) ∧
        ∀ sessions, getAuthorization sessions headers =
          (sessions.getSessionInfo sessionId).map (·.userId)) ∧
    ∀ {headers : Headers} {cookieList : String}, headers (.ofString "Cookie") = some cookieList →
      ((∃ e, getCookiesHashmap headers = .error e) ↔
        ∃ piece ∈ Str.split "; " cookieList, '=' ∉ piece.toList) := by
  refine ⟨exists_isLast, fun {before after sessionId _} hc last hs h => ?_,
    getCookiesHashmap_eq_error_iff⟩
  have cookies : ∀ cookie ∈ before ++ (sessionIdCookie, sessionId) :: after, IsCookie cookie := by
    intro cookie hm
    simp only [List.mem_append, List.mem_cons] at hc hm
    obtain hm | rfl | hm := hm
    · exact hc cookie <| .inl hm
    · exact isCookie_session hs
    · exact hc cookie <| .inr hm
  have header : cookieHeader (before ++ (sessionIdCookie, sessionId) :: after) = "; ".intercalate
      (before.map cookiePair ++ (headerSetCookie sessionIdCookie sessionId).2 ::
        after.map cookiePair) := by
    rw [cookieHeader, List.map_append, List.map_cons]
    rfl
  have ⟨found, read, value⟩ := exists_isLast (by simp) cookies <| header ▸ h
  have session := (value _ _).mpr ⟨before, after, rfl, last⟩
  exact ⟨⟨found, read, session⟩, fun _ => getAuthorization_eq read session⟩

end Cookies

-- Requests for the examples, in which nothing is escaped and ids are decimal numbers.
@[reducible]
def noEscapes : UrlEscape where
  decode text := some text

@[reducible]
def decimalIds : UuidText where
  parse text := text.toList.foldlM (fun n c =>
    if c.isDigit then some (10 * n + (c.toNat - 48)) else none) 0

@[reducible]
def plainText : SerdeJson where
  signupParams content := (Str.splitOnce ' ' content).map fun (login, password) => ⟨login, password⟩
  sendMessageParams content := some ⟨content⟩

def cookie [Unicode] (value : String) : Headers :=
  fun name => if name = .ofString "Cookie" then some value else none

-- The name of a cookie begins with a part of the separator, and the value in front of it ends with one.
theorem cookies_roundTrip_example :
    let _ := asciiUnicode
    let cookies := [("a", "1"), ("", "b=;"), (" c;", ""), ("a", "2")]
    (∃ found, getCookiesHashmap (cookie (cookieHeader cookies)) = .ok found ∧
      found "a" = some "2" ∧ found "" = some "b=;" ∧ found " c;" = some "" ∧ found "c" = none) ∧
    (∀ sessions : Sessions, getAuthorization sessions
      (cookie "a=;; _pheidippides_sid=x=y; b=") = (sessions "x=y").map (·.userId)) ∧
    ∃ e, getCookiesHashmap (cookie "a=1; b;c; d=2") = .error e := by
  intro _ cookies
  have given (value : String) : cookie value (.ofString "Cookie") = some value := if_pos rfl
  refine ⟨?_, ?_, (cookies_roundTrip.right.right <| given _).mpr ⟨"b;c", by decide, by decide⟩⟩
  · have isCookie : ∀ cookie ∈ cookies, IsCookie cookie := by decide
    have ⟨found, read, value⟩ := cookies_roundTrip.left (List.cons_ne_nil _ _) isCookie <| given _
    refine ⟨found, read, (value ..).mpr ⟨cookies.take 3, [], rfl, by decide⟩,
      (value ..).mpr ⟨cookies.take 1, cookies.drop 2, rfl, by decide⟩,
      (value ..).mpr ⟨cookies.take 2, cookies.drop 3, rfl, by decide⟩, ?_⟩
    refine Option.eq_none_iff_forall_ne_some.mpr fun v hv => ?_
    have ⟨before, after, h, _⟩ := (value ..).mp hv
    have key : ("c", v) ∈ cookies := List.mem_iff_append.mpr ⟨before, after, h⟩
    simp [cookies] at key
  · have isCookie : ∀ cookie ∈ [("a", ";")] ++ [("b", "")], IsCookie cookie := by decide
    have header : "a=;; _pheidippides_sid=x=y; b=" = "; ".intercalate ([("a", ";")].map cookiePair ++
        (headerSetCookie sessionIdCookie "x=y").2 :: [("b", "")].map cookiePair) := by decide
    rw [header]
    exact (cookies_roundTrip.right.left isCookie (by decide) (by decide) <| given _).right

namespace Server

-- Two sessions, one of which ends, a failed login, and a logout without a cookie.
theorem served_iff_example :
    let _ := asciiUnicode
    let _ := clearText
    let _ := noEscapes
    let _ := decimalIds
    let _ := plainText
    let draws (sessionId : SessionId) : Draws := ⟨sessionId, 1, some "salt", 0, 0⟩
    let es : List (Event World) := [
      .request ⟨.post, "/signup", cookie "", some "Ada x"⟩ (draws "a"),
      .request ⟨.post, "/authorize", cookie "theme=dark", some "login=ada&password=x"⟩ (draws "b"),
      .request ⟨.post, "/authorize", cookie "", some "login=ada&password=y"⟩ (draws "c"),
      .request ⟨.get, "/logout", cookie "_pheidippides_sid=a", none⟩ (draws "d"),
      .request ⟨.get, "/logout", cookie "", none⟩ (draws "e")]
    let request (sessionId : SessionId) : Request :=
      ⟨.post, "/message/2", cookie ("theme=dark; _pheidippides_sid=" ++ sessionId), some "hello"⟩
    LoggedIn .empty es (request "b") 1 ∧
      ¬LoggedIn .empty es (request "a") 1 ∧ ¬LoggedIn .empty es (request "c") 1 := by
  intro _ _ _ _ _ draws es request
  have fresh : Fresh World.empty es := fresh_of_nodup (by decide +kernel)
  have authorized := (served_iff fresh).left
  refine ⟨(authorized ..).mp ?_, mt (authorized ..).mpr ?_, mt (authorized ..).mpr ?_⟩
  all_goals decide +kernel

end Server
end Pheidippides
