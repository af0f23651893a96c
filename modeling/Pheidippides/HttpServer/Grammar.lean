import Pheidippides.Primitives.EventStream
import Pheidippides.Primitives.HttpMessage
import Pheidippides.HttpServer.Request
import Pheidippides.HttpServer.Response

-- What is well formed, independently of how it is read.
namespace Pheidippides.HttpServer

-- Some text up to its first line break.
def IsLine (text : String) : Prop :=
  ∃ l, text = l ++ "\n" ∧ '\n' ∉ l.toList

namespace Request

variable [Unicode]

-- The bytes of some header lines with the empty line behind them, and what they make of the headers.
inductive HeaderLines : Headers → List UInt8 → Headers → Prop
  | nil {headers : Headers} : HeaderLines headers (Utf8.encode "\r\n") headers
  | cons {headers headers' : Headers} {line key value : String} {bytes : List UInt8} :
    IsLine line → line ≠ "\r\n" → Str.splitOnceStr ": " line = some (key, value) →
    HeaderLines (Function.update headers (.ofString key) (some (Str.trimEnd value))) bytes headers' →
    HeaderLines headers (Utf8.encode line ++ bytes) headers'

-- The bytes of a head.
inductive Head : List UInt8 → Method → String → Headers → Prop
  | intro {firstLine name url : String} {method : Method} {bytes : List UInt8} {headers : Headers} :
    IsLine firstLine → (Str.splitWhitespace firstLine)[0]? = some name →
    Method.fromStr name = some method → (Str.splitWhitespace firstLine)[1]? = some url →
    HeaderLines (fun _ => none) bytes headers →
    Head (Utf8.encode firstLine ++ bytes) method url headers

-- The length which these headers announce.
def announced (headers : Headers) : Option Nat :=
  (headers (.ofString "content-length")).bind Str.parseUsize

variable [Allocator]

-- The stream begins with a head which announces more than any buffer holds, or than there is memory for.
def Oversized (stream : List UInt8) : Prop :=
  ∃ head rest method url headers n, stream = head ++ rest ∧ Head head method url headers ∧
    announced headers = some n ∧ ¬Fits n

-- Neither reading the head nor reading the content panics or aborts the process.
structure Safe (stream : List UInt8) : Prop where
  ends   : ∀ {request}, tryFromStream stream = .ok request →
    (∃ res, request.content = .ok res) ∨ ∃ e, request.content = .err e
  within : ∀ {request n}, tryFromStream stream = .ok request → announced request.headers = some n →
    n ≤ isizeMax
  short  : ∀ {request n}, tryFromStream stream = .ok request → announced request.headers = some n →
    request.reader.length < n → ∃ e, request.content = .err e

end Request

-- The characters of the names of headers.
def isTokenChar (c : Char) : Bool :=
  c.isAlphanum || "!#$%&'*+-.^_`|~".toList.contains c

def IsToken (s : String) : Prop :=
  s ≠ "" ∧ ∀ c ∈ s.toList, isTokenChar c

instance (s : String) : Decidable (IsToken s) :=
  inferInstanceAs (Decidable (_ ∧ _))

def methodName : Method → String
  | .get     => "GET"
  | .put     => "PUT"
  | .post    => "POST"
  | .delete  => "DELETE"
  | .patch   => "PATCH"
  | .head    => "HEAD"
  | .options => "OPTIONS"
  | .trace   => "TRACE"
  | .connect => "CONNECT"

-- The header lines and the empty line.
def headerText (headers : List (String × String)) : String :=
  headers.foldr (fun header rest => header.1 ++ ": " ++ header.2 ++ "\r\n" ++ rest) "\r\n"

-- A header which can be written in a line of its own.
structure IsHeader (header : String × String) : Prop where
  name  : IsToken header.1
  line  : '\r' ∉ header.2.toList ∧ '\n' ∉ header.2.toList
  value : ∀ c ∈ header.2.toList.getLast?, Str.isWhitespace c = false

-- A request as it is written, with what comes behind it in the stream. The name of the method is in any
-- letter case, and so are those of the headers.
structure Written where
  method   : Method
  name     : String
  target   : String
  version  : String
  headers  : List (String × String)
  body     : String
  rest     : List UInt8
  named    : Str.toAsciiLowercase name = Str.toAsciiLowercase (methodName method)
  nonempty : target ≠ ""
  word     : ∀ c ∈ target.toList, Str.isWhitespace c = false
  line     : '\n' ∉ version.toList
  header   : ∀ header ∈ headers, IsHeader header
  distinct : (headers.map fun header => Str.toAsciiLowercase header.1).Nodup
  length   : ∃ header ∈ headers, Str.toAsciiLowercase header.1 = "content-length" ∧
    header.2 = toString (Utf8.encode body).length

namespace Written

variable (w : Written)

def firstLine : String :=
  w.name ++ " " ++ w.target ++ " " ++ w.version ++ "\r\n"

def bytes : List UInt8 :=
  Utf8.encode (w.firstLine ++ headerText w.headers) ++ (Utf8.encode w.body ++ w.rest)

-- What is read is what has been written.
def RoundTrip [Unicode] [Allocator] : Prop :=
  ∃ request, Request.tryFromStream w.bytes = .ok request ∧
    request.method = w.method ∧ request.url = w.target ∧
    (∀ header ∈ w.headers, ∀ name, Str.toAsciiLowercase name = Str.toAsciiLowercase header.1 →
      request.headers (.ofString name) = some header.2) ∧
    (∀ key value, request.headers key = some value →
      ∃ header ∈ w.headers, key = .ofString header.1 ∧ value = header.2) ∧
    request.content = .ok (w.body, { request with reader := w.rest })

end Written

-- A header of a response by a name in any letter case.
def namedHeader [Unicode] (header : String × String) : Header :=
  (.ofString header.1, header.2)

-- The status of a response with a body, the headers which are set one after the other, and the body.
inductive Response.Sends [Unicode] : Response → String → List (String × String) → String → Prop
  | text {text : String} {headers : List (String × String)} :
    Sends (.text text <| headers.map namedHeader) "200 OK"
      (("Content-Type", "text/plain; charset=utf-8") :: headers) text
  | html {content : String} {headers : List (String × String)} :
    Sends (.html content <| headers.map namedHeader) "200 OK"
      (("Content-Type", "text/html; charset=utf-8") :: headers) content
  | json {content : String} {headers : List (String × String)} :
    Sends (.json content <| headers.map namedHeader) "200 OK"
      (("Content-Type", "application/json; charset=utf-8") :: headers) content
  | badRequest : Sends .badRequest "400 Bad Request" [] "Bad request"
  | internalServerError :
    Sends .internalServerError "500 Internal Server Error" [] "Internal Server Error"

-- The last value that is set for a header.
def lastSet (settings : List (String × String)) (name : String) : Option String :=
  (settings.filter fun header =>
    Str.toAsciiLowercase header.1 = Str.toAsciiLowercase name).getLast?.map (·.2)

-- What a client makes of a response with a body.
structure Framed (response : HttpMessage.Response) (status : String) (settings : List (String × String))
    (body : String) : Prop where
  version : response.version = "HTTP/1.1"
  status  : response.status = status
  unique  : (response.headers.map fun header => Str.toAsciiLowercase header.1).Nodup
  last    : ∀ name value, Str.toAsciiLowercase name ≠ "content-length" →
    ((∃ header ∈ response.headers, Str.toAsciiLowercase header.1 = Str.toAsciiLowercase name ∧
      header.2 = value) ↔ lastSet settings name = some value)
  length  : (response.headers.filter fun header =>
    Str.toAsciiLowercase header.1 = "content-length").map (·.2) = [toString response.body.length]
  body    : response.body = Utf8.encode body

-- The responses without a length, and what is sent behind the head until the connection ends.
inductive Response.Closes [Unicode] : Response → String → List (String × String) → List UInt8 → Prop
  | redirect {location : String} {headers : List (String × String)} :
    Closes (.redirect location <| headers.map namedHeader) "303 See Other"
      (("Location", location) :: headers) []
  | empty : Closes .empty "200 OK" [] []

-- What a client makes of a response whose end is that of the connection.
structure Unframed (response : HttpMessage.Response) (status : String)
    (settings : List (String × String)) (body : List UInt8) : Prop where
  version : response.version = "HTTP/1.1"
  status  : response.status = status
  unique  : (response.headers.map fun header => Str.toAsciiLowercase header.1).Nodup
  last    : ∀ name value, (∃ header ∈ response.headers,
    Str.toAsciiLowercase header.1 = Str.toAsciiLowercase name ∧ header.2 = value) ↔
    lastSet settings name = some value
  body    : response.body = body

namespace EventSourceEvent

-- A text which stays within its line.
def IsField (text : String) : Prop :=
  '\r' ∉ text.toList ∧ '\n' ∉ text.toList ∧ '\x00' ∉ text.toList

instance (text : String) : Decidable (IsField text) :=
  inferInstanceAs (Decidable (_ ∧ _))

structure WellFormed (event : EventSourceEvent) : Prop where
  id   : IsField event.id
  type : ∀ eventType ∈ event.event, IsField eventType
  data : '\r' ∉ event.data.toList

-- An event without a type is a message.
def intended (event : EventSourceEvent) : EventStream.Event where
  type        := event.event.getD "message"
  data        := event.data
  lastEventId := event.id

-- The server writes no empty line for what is behind the last line end of the data, so that this one gets
-- lost, and a client takes an empty type for none. Without data there is no event.
structure Lossless (event : EventSourceEvent) : Prop where
  data    : event.data ≠ ""
  lineEnd : event.data.toList.getLast? ≠ some '\n'
  type    : event.event ≠ some ""

end EventSourceEvent

-- What the loop gets to see of a stream.
def delivered {α : Type} : List (Branch α) → List α
  | []                             => []
  | .sleep :: branches             => delivered branches
  | .readLine :: _                 => []
  | .recv (some event) :: branches => event :: delivered branches
  | .recv none :: _                => []

end Pheidippides.HttpServer
