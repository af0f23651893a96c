import Pheidippides.HttpServer.HttpResponse

namespace Pheidippides.HttpServer

structure EventSourceEvent where
  data  : String
  id    : String
  event : Option String
  deriving DecidableEq, Repr

-- A branch of the `select!` in the loop of `handle_event_stream`. The first is taken after an interval
-- in which nothing else has happened, the second when the client disconnects or sends something.
inductive Branch (α : Type)
  | sleep
  | readLine
  | recv (nextEvent : Option α)
  deriving DecidableEq, Repr

def Branch.map {α β : Type} (f : α → β) : Branch α → Branch β
  | sleep          => sleep
  | readLine       => readLine
  | recv nextEvent => recv (nextEvent.map f)

-- In the functions below `writer` is what has been written so far.

def sendEventToEventSourceStream (writer : List UInt8) (event : EventSourceEvent) : List UInt8 :=
  let responseStr := ""
  let responseStr :=
    match event.event with
    | some eventType => responseStr ++ ("event: " ++ eventType ++ "\n")
    | none           => responseStr
  let responseStr :=
    (Str.lines event.data).foldl (fun responseStr line =>
      responseStr ++ ("data: " ++ line ++ "\n")) responseStr
  let responseStr := responseStr ++ ("id: " ++ event.id ++ "\n")
  let responseStr := responseStr ++ "\n"
  writer ++ Utf8.encode responseStr

-- The loop of `handle_event_stream`, by the branches which are taken.
def eventLoop (writer : List UInt8) : List (Branch EventSourceEvent) → List UInt8
  | []                             => writer
  | .sleep :: branches             => eventLoop (writer ++ Utf8.encode ": keep-alive\n") branches
  | .readLine :: _                 => writer
  | .recv (some event) :: branches => eventLoop (sendEventToEventSourceStream writer event) branches
  | .recv none :: _                => writer

def handleEventStream [Unicode] (iteration : Iteration) (retry : Option Int)
    (branches : List (Branch EventSourceEvent)) : List UInt8 :=
  let writer := HttpResponseBuilder.new.contentEventStream.build iteration
  let writer :=
    match retry with
    | some retryValue => writer ++ Utf8.encode ("retry: " ++ toString retryValue ++ "\n")
    | none            => writer
  eventLoop writer branches

end Pheidippides.HttpServer
