import Pheidippides.HttpServer.Grammar
import Pheidippides.Web.Contract

namespace Pheidippides

-- What is used of the `askama` and `serde_json` crates to write the body of a response: `render` of a
-- template, and `to_string` of `serde_json::json!`.
class BodyText where
  template : HtmlContent → String
  json     : JsonContent → String

variable [BodyText]

def HtmlContent.rendered : HtmlContent → String
  | text s  => s
  | content => BodyText.template content

namespace Response

-- What `respond` gets. An event stream comes with the branches which its loop is going to take.
def rendered (branches : List (HttpServer.Branch HttpServer.EventSourceEvent)) :
    Response → HttpServer.Response
  | html content headers      => .html content.rendered headers
  | json content headers      => .json (BodyText.json content) headers
  | redirect location headers => .redirect location headers
  | eventSource retry _ _     => .eventSource retry branches
  | badRequest                => .badRequest
  | internalServerError       => .internalServerError
  | empty                     => .empty

-- The answers to requests which are no event streams: the status, the headers that are set, and the body
-- if there is one. The session id is the one which has been drawn.
inductive Answers [Unicode] (sessionId : SessionId) :
    Response → String → List (String × String) → Option String → Prop
  | html {content : HtmlContent} : Answers sessionId (.html content []) "200 OK"
      [("Content-Type", "text/html; charset=utf-8")] (some content.rendered)
  | json {content : JsonContent} : Answers sessionId (.json content []) "200 OK"
      [("Content-Type", "application/json; charset=utf-8")] (some <| BodyText.json content)
  | signup : Answers sessionId (.json (.signup true []) [headerSetCookie sessionIdCookie sessionId])
      "200 OK"
      [("Content-Type", "application/json; charset=utf-8"),
        ("Set-Cookie", sessionIdCookie ++ "=" ++ sessionId)]
      (some <| BodyText.json <| .signup true [])
  | login : Answers sessionId (.redirect "/chat" [headerSetCookie sessionIdCookie sessionId])
      "303 See Other" [("Location", "/chat"), ("Set-Cookie", sessionIdCookie ++ "=" ++ sessionId)] none
  | redirect {location : String} : location = "/chat" ∨ location = "/login" →
    Answers sessionId (.redirect location []) "303 See Other" [("Location", location)] none
  | badRequest : Answers sessionId .badRequest "400 Bad Request" [] (some "Bad request")
  | internalServerError : Answers sessionId .internalServerError "500 Internal Server Error" []
      (some "Internal Server Error")
  | empty : Answers sessionId .empty "200 OK" [] none

-- As in the text of a UUID there is no blank and no line break.
def IsPlain (sessionId : SessionId) : Prop :=
  ∀ c ∈ sessionId.toList, c ≠ '\r' ∧ c ≠ '\n' ∧ HttpMessage.isBlank c = false

instance (sessionId : SessionId) : Decidable (IsPlain sessionId) :=
  List.decidableBAll _ _

end Response
end Pheidippides
