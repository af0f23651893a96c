import Pheidippides.Primitives.Utf8
import Pheidippides.Utils.Http
import Mathlib.Data.List.AList

namespace Pheidippides.HttpServer

inductive HttpStatusCode
  | ok
  | badRequest
  | seeOther
  | internalServerError
  deriving DecidableEq, Repr

def HttpStatusCode.text : HttpStatusCode → String
  | ok                  => "200 OK"
  | badRequest          => "400 Bad Request"
  | seeOther            => "303 See Other"
  | internalServerError => "500 Internal Server Error"

inductive HttpVersion
  | http11
  deriving DecidableEq, Repr

def HttpVersion.text : HttpVersion → String
  | http11 => "HTTP/1.1"

abbrev HeaderMap := AList fun _ : CaseInsensitiveString => String

-- An order in which maps are iterated.
structure Iteration where
  order : HeaderMap → List Header
  perm  : ∀ headers, (order headers).Perm (headers.entries.map fun entry => (entry.1, entry.2))

-- The order of the entries of the model.
def Iteration.entries : Iteration where
  order headers := headers.entries.map fun entry => (entry.1, entry.2)
  perm _        := .refl _

structure HttpResponseBuilder where
  version : HttpVersion
  status  : HttpStatusCode
  headers : HeaderMap
  body    : Option String

namespace HttpResponseBuilder

def new : HttpResponseBuilder where
  version := .http11
  status  := .ok
  headers := ∅
  body    := none

def headerLine (header : Header) : String :=
  header.1.lowercase ++ ": " ++ header.2 ++ "\r\n"

variable [Unicode] (builder : HttpResponseBuilder)

-- The headers of which `build` writes the lines.
def sentHeaders : HeaderMap :=
  match builder.body with
  | some body => builder.headers.insert (.ofString "Content-Length") (toString (Utf8.encode body).length)
  | none      => builder.headers

def build (iteration : Iteration) : List UInt8 :=
  let lines := [Utf8.encode (builder.version.text ++ " " ++ builder.status.text ++ "\r\n")]
  let lines := lines ++ (iteration.order builder.sentHeaders).map (Utf8.encode <| headerLine ·)
  let lines := lines ++ [Utf8.encode "\r\n"]
  let lines := lines ++ (builder.body.map Utf8.encode).toList
  lines.flatten

def setStatus (status : HttpStatusCode) : HttpResponseBuilder :=
  { builder with status }

def header (header : Header) : HttpResponseBuilder :=
  { builder with headers := builder.headers.insert header.1 header.2 }

def setBody (body : String) : HttpResponseBuilder :=
  { builder with body := some body }

def contentText : HttpResponseBuilder :=
  builder.header (.ofString "Content-Type", "text/plain; charset=utf-8")

def contentHtml : HttpResponseBuilder :=
  builder.header (.ofString "Content-Type", "text/html; charset=utf-8")

def contentJson : HttpResponseBuilder :=
  builder.header (.ofString "Content-Type", "application/json; charset=utf-8")

def contentEventStream : HttpResponseBuilder :=
  builder.header (.ofString "Content-Type", "text/event-stream; charset=utf-8")

end HttpResponseBuilder
end Pheidippides.HttpServer
