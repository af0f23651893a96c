import Pheidippides.HttpServer.Theorems.EventSource
import Pheidippides.HttpServer.Theorems.Response
import Pheidippides.Web.Rendering
import Pheidippides.Web.Theorems.Listener

open Pheidippides.HttpServer (Iteration IsToken Framed Unframed respond)

namespace Pheidippides

namespace HttpServer

variable [Unicode] [LawfulUnicode]

-- Of an event stream the head can be told from what comes behind it.
theorem handleEventStream_unframed (iteration : Iteration) (retry : Option Int)
    (branches : List (Branch EventSourceEvent)) : ∃ parsed body,
      HttpMessage.parse (respond iteration (.eventSource retry branches)) = some parsed ∧
      Unframed parsed "200 OK" [("Content-Type", "text/event-stream; charset=utf-8")] body := by
  refine ⟨_, _, parse_handleEventStream, rfl, rfl, List.nodup_singleton _, fun name value => ?_, rfl⟩
  have lower : Str.toAsciiLowercase "content-type" = Str.toAsciiLowercase "Content-Type" := by decide
  simp [lower, lastSet]

end HttpServer

namespace Response

variable [BodyText] [Unicode] [LawfulUnicode] {sessionId : SessionId} {response : Response}
  {status : String} {settings : List (String × String)} {body : Option String}
  (branches : List (HttpServer.Branch HttpServer.EventSourceEvent))

-- What a client makes of an answer.
def Read (parsed : HttpMessage.Response) (status : String) (settings : List (String × String)) :
    Option String → Prop
  | some body => Framed parsed status settings body
  | none      => Unframed parsed status settings []

omit [LawfulUnicode] in
theorem Given.answers (h : response.Given sessionId) :
    (∃ stream events, response = .eventSource none stream events) ∨
      ∃ status settings body, response.Answers sessionId status settings body := by
  cases h
  case eventSource         => exact .inl ⟨_, _, rfl⟩
  case html                => exact .inr ⟨_, _, _, .html⟩
  case json                => exact .inr ⟨_, _, _, .json⟩
  case signup              => exact .inr ⟨_, _, _, .signup⟩
  case login               => exact .inr ⟨_, _, _, .login⟩
  case redirect h          => exact .inr ⟨_, _, _, .redirect h⟩
  case badRequest          => exact .inr ⟨_, _, _, .badRequest⟩
  case internalServerError => exact .inr ⟨_, _, _, .internalServerError⟩
  case empty               => exact .inr ⟨_, _, _, .empty⟩

-- A header which a client reads as it is.
def IsSetting (header : String × String) : Prop :=
  IsToken header.1 ∧ ('\r' ∉ header.2.toList ∧ '\n' ∉ header.2.toList) ∧ HttpMessage.IsStripped header.2

instance (header : String × String) : Decidable (IsSetting header) :=
  inferInstanceAs (Decidable (_ ∧ _ ∧ _))

omit [BodyText] [Unicode] [LawfulUnicode] in
theorem isSetting_cookie (plain : IsPlain sessionId) :
    IsSetting ("Set-Cookie", sessionIdCookie ++ "=" ++ sessionId) := by
  have all : IsPlain (sessionIdCookie ++ "=" ++ sessionId) := by
    have front : IsPlain (sessionIdCookie ++ "=") := by decide
    intro c hc
    rw [String.toList_append] at hc
    exact (List.mem_append.mp hc).elim (front c) (plain c)
  exact ⟨show IsToken "Set-Cookie" by decide,
    ⟨fun hc => (all _ hc).left rfl, fun hc => (all _ hc).right.left rfl⟩,
    fun c hc => (all c <| List.mem_of_mem_head? hc).right.right,
    fun c hc => (all c <| List.mem_of_getLast? hc).right.right⟩

omit [LawfulUnicode] in
theorem Answers.headers (h : response.Answers sessionId status settings body) (plain : IsPlain sessionId) :
    ∀ header ∈ settings, IsSetting header := by
  have cookie := isSetting_cookie plain
  have type : IsSetting ("Content-Type", "text/html; charset=utf-8") ∧
      IsSetting ("Content-Type", "application/json; charset=utf-8") := by decide +kernel
  have location : IsSetting ("Location", "/chat") ∧ IsSetting ("Location", "/login") := by
    decide +kernel
  cases h
  case redirect hl => obtain rfl | rfl := hl <;> simp [location]
  all_goals simp [type, location, cookie]

omit [LawfulUnicode] in
theorem Answers.sends {text : String} (h : response.Answers sessionId status settings (some text)) :
    (response.rendered branches).Sends status settings text := by
  cases h
  case html                => exact @HttpServer.Response.Sends.html _ _ []
  case json                => exact @HttpServer.Response.Sends.json _ _ []
  case signup              => exact @HttpServer.Response.Sends.json _ _ [("Set-Cookie", _)]
  case badRequest          => exact .badRequest
  case internalServerError => exact .internalServerError

omit [LawfulUnicode] in
theorem Answers.closes (h : response.Answers sessionId status settings none) :
    (response.rendered branches).Closes status settings [] := by
  cases h
  case login    => exact @HttpServer.Response.Closes.redirect _ "/chat" [("Set-Cookie", _)]
  case redirect => exact @HttpServer.Response.Closes.redirect _ _ []
  case empty    => exact .empty

theorem Answers.read (h : response.Answers sessionId status settings body) (plain : IsPlain sessionId)
    (iteration : Iteration) :
    ∃ parsed, HttpMessage.parse (respond iteration (response.rendered branches)) = some parsed ∧
      Read parsed status settings body := by
  have headers := h.headers plain
  have token := fun header hm => (headers header hm).left
  have line := fun header hm => (headers header hm).right.left
  have stripped := fun header hm => (headers header hm).right.right
  cases body
  case none      => exact HttpServer.respond_unframed (h.closes branches) token line stripped iteration
  case some text =>
    have ⟨parsed, parse, _, framed⟩ := HttpServer.respond_framed (h.sends branches) token line iteration
    exact ⟨parsed, parse, framed stripped⟩

end Response

namespace Listener

section Answered

variable {α ε : Type} [App α ε] [BodyText] [Unicode] [HttpServer.Allocator] [UrlEscape] [UuidText]
  [SerdeJson] {app : α} {es : List (Event α)} {i : Nat} {c : Connection} {response : Response}

omit [BodyText] in
-- A connection is answered with what has been drawn for in a run of its task.
theorem given_of_answered (hc : ((system app).run es).connections[i]? = some c)
    (ha : c.task = .answered response) :
    ∃ draws, .run i draws ∈ es ∧ response.Given draws.sessionId := by
  have stands := stands_run es i c hc
  rw [ha] at stands
  obtain _ | _ | ⟨hr, draws, hm, sends⟩ := stands
  have ⟨_, _, _, kept⟩ := sends.exists_request
  refine ⟨draws, hm, ?_⟩
  obtain ⟨given, _⟩ | ⟨given, _⟩ | _ := kept.meets <;> cases hr <;> exact given

-- Whatever a connection is answered with is one well-formed message, whose parts are those of the answer:
-- the headers, each of them once, and the body with its length. There is neither a body nor a length in a
-- redirect and in the answer about the icon, and no length in front of a stream of events.
theorem answer_read [LawfulUnicode]
    (plain : ∀ i draws, .run i draws ∈ es → Response.IsPlain draws.sessionId)
    (hc : ((system app).run es).connections[i]? = some c) (ha : c.task = .answered response)
    (branches : List (HttpServer.Branch HttpServer.EventSourceEvent)) (iteration : Iteration) :
    ∃ parsed, HttpMessage.parse (respond iteration (response.rendered branches)) = some parsed ∧
      ((∃ stream events body, response = .eventSource none stream events ∧
          Unframed parsed "200 OK" [("Content-Type", "text/event-stream; charset=utf-8")] body) ∨
        ∃ draws status settings body, .run i draws ∈ es ∧
          response.Answers draws.sessionId status settings body ∧
          Response.Read parsed status settings body) := by
  have ⟨draws, hm, given⟩ := given_of_answered hc ha
  obtain ⟨stream, events, rfl⟩ | ⟨status, settings, body, h⟩ := given.answers
  · have ⟨parsed, body, parse, unframed⟩ :=
      HttpServer.handleEventStream_unframed iteration none branches
    exact ⟨parsed, parse, .inl ⟨stream, events, body, rfl, unframed⟩⟩
  · have ⟨parsed, parse, read⟩ := h.read branches (plain i draws hm) iteration
    exact ⟨parsed, parse, .inr ⟨draws, status, settings, body, hm, h, read⟩⟩

end Answered

-- The answer to a signup, which sets a cookie.
theorem answer_read_example :
    let _ := asciiUnicode
    let _ := clearText
    let _ := noEscapes
    let _ := decimalIds
    let _ := plainText
    let _ := HttpServer.Request.addressSpace
    let _ : BodyText := ⟨fun _ => "<html></html>", fun _ => "\x7b\"success\":true,\"errors\":[]\x7d"⟩
    let draws : Draws := ⟨"0a", 1, some "salt", 10, 0⟩
    let es : List (Event World) := [
      .accept, .receive 0 (Utf8.encode "POST /signup HTTP/1.1\r\nContent-Length: 5\r\n\r\nAda x"),
      .run 0 draws, .run 0 draws, .run 0 draws, .run 0 draws]
    let response : Response := .json (.signup true []) [headerSetCookie sessionIdCookie "0a"]
    ∃ parsed, HttpMessage.parse (respond .entries (response.rendered [])) = some parsed ∧
      ((∃ stream events body, response = .eventSource none stream events ∧
          Unframed parsed "200 OK" [("Content-Type", "text/event-stream; charset=utf-8")] body) ∨
        ∃ draws status settings body, .run 0 draws ∈ es ∧
          response.Answers draws.sessionId status settings body ∧
          Response.Read parsed status settings body) := by
  intro _ _ _ _ _ _ _ draws es response
  have := asciiUnicode_lawful
  have plain (i : Nat) (draws' : Draws) (hm : .run i draws' ∈ es) : Response.IsPlain draws'.sessionId := by
    obtain ⟨_, rfl⟩ : i = 0 ∧ draws' = draws := by simpa [es] using hm
    decide
  have answered : (((system World.empty).run es).connections[0]?.bind (·.task.response)) =
      some response := by
    decide +kernel
  have ⟨c, hc, hr⟩ := Option.bind_eq_some_iff.mp answered
  exact answer_read plain hc (Connection.Task.response_eq_some_iff.mp hr) [] .entries

end Listener
end Pheidippides
