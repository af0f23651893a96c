import Pheidippides.HttpServer.EventSource

namespace Pheidippides.HttpServer

-- An event stream is given by the branches which its loop is going to take.
inductive Response
  | html (content : String) (headers : List Header)
  | text (text : String) (headers : List Header)
  | json (content : String) (headers : List Header)
  | redirect (location : String) (headers : List Header)
  | eventSource (retry : Option Int) (stream : List (Branch EventSourceEvent))
  | badRequest
  | internalServerError
  | empty

variable [Unicode]

open HttpResponseBuilder in
-- What is written to the connection.
def respond (iteration : Iteration) : Response → List UInt8
  | .text text headers =>
    let builder := (new.setBody text).contentText
    (headers.foldl header builder).build iteration
  | .html content headers =>
    let builder := (new.setBody content).contentHtml
    (headers.foldl header builder).build iteration
  | .json content headers =>
    let builder := (new.setBody content).contentJson
    (headers.foldl header builder).build iteration
  | .redirect location headers =>
    let builder := (new.setStatus .seeOther).header (.ofString "Location", location)
    (headers.foldl header builder).build iteration
  | .eventSource retry stream => handleEventStream iteration retry stream
  | .badRequest               =>
    ((new.setStatus .badRequest).setBody "Bad request").build iteration
  | .internalServerError      =>
    ((new.setStatus .internalServerError).setBody "Internal Server Error").build iteration
  | .empty => new.build iteration

end Pheidippides.HttpServer
