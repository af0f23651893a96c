import Pheidippides.HttpServer.Grammar
import Pheidippides.HttpServer.Reading
import Pheidippides.Web.Routing

open Pheidippides.HttpServer (Reading)

namespace Pheidippides

namespace Connection

-- How far the task of a connection has come. A handler which waits for the result of an operation has got
-- its request as it is by now.
inductive Task
  | reading (reading : Reading)
  | handling (request : HttpServer.Request) (op : Operation) (next : op.Result → Handler.Rest)
  | answered (response : Response)
  | ended

-- The bytes arrive at the request which is read, or behind the one which is handled.
def Task.receive [Unicode] (bytes : List UInt8) : Task → Task
  | reading r                => .reading (r.feed bytes)
  | handling request op next => .handling { request with reader := request.reader ++ bytes } op next
  | task                     => task

def Task.response : Task → Option Response
  | answered response => some response
  | _                 => none

theorem Task.response_eq_some_iff {task : Task} {response : Response} :
    task.response = some response ↔ task = .answered response := by
  cases task <;> simp [Task.response]

end Connection

-- `closed` is whether the client is through with sending. `received` is history: what it has sent.
structure Connection where
  received : List UInt8
  closed   : Bool
  task     : Connection.Task

namespace Connection

variable [Unicode] [HttpServer.Allocator]

def new : Connection where
  received := []
  closed   := false
  task     := .reading .start

def receive (c : Connection) (bytes : List UInt8) : Connection :=
  if c.closed then
    c
  else
    { c with received := c.received ++ bytes, task := c.task.receive bytes }

def close (c : Connection) : Connection :=
  { c with closed := true }

-- Without an answer the client gets to see nothing but the end of the connection.
def fail (c : Connection) : Connection :=
  { c with task := .ended }

-- A task that waits for bytes gets an error, while a handler that waits for something else goes on.
def lose (c : Connection) : Connection :=
  match c.task with
  | .reading _             => c.fail
  | .handling _ .content _ => c.fail
  | _                      => c

-- What `try_from_stream` comes to, if it need not wait.
def read (c : Connection) (reading : Reading) : Option (Except HttpServer.Error HttpServer.Request) :=
  match reading with
  | .done request => some (.ok request)
  | .failed e     => some (.error e)
  | _             => if c.closed then some reading.finish else none

-- `content` need not wait.
def HasContent (c : Connection) (request : HttpServer.Request) : Prop :=
  ∀ n ∈ HttpServer.Request.announced request.headers,
    HttpServer.Request.Fits n → n ≤ request.reader.length ∨ c.closed = true

instance (c : Connection) (request : HttpServer.Request) : Decidable (c.HasContent request) :=
  inferInstanceAs (Decidable (∀ n ∈ HttpServer.Request.announced request.headers, _))

-- The request which the client has sent.
def request (c : Connection) : Option Request :=
  (HttpServer.Request.tryFromStream c.received).toOption.map (·.toRequest)

-- The request has been sent with its content, for which there is room.
def Ready (c : Connection) (request : Request) : Prop :=
  ∃ read, HttpServer.Request.tryFromStream c.received = .ok read ∧ read.toRequest = request ∧
    ∀ n ∈ HttpServer.Request.announced read.headers, HttpServer.Request.Fits n ∧
      (n ≤ read.reader.length ∨ c.closed = true)

end Connection

namespace Listener

-- A connection may get lost at any time. `app` is whatever happens to the messenger between calls.
inductive Event (α : Type)
  | accept
  | receive (i : Nat) (bytes : List UInt8)
  | close (i : Nat)
  | run (i : Nat) (draws : Draws)
  | lose (i : Nat)
  | cancel
  | app (app : α)

-- The task of the connection is run.
def Event.runs {α : Type} (i : Nat) : Event α → Bool
  | run j _ => i == j
  | _       => false

end Listener

-- The server with a task for each connection, in the order in which `run_server` has accepted them.
structure Listener (α : Type) where
  server      : Server α
  connections : List Connection
  cancelled   : Bool
  crashed     : Bool

namespace Listener

variable {α ε : Type}

def start (app : α) : Listener α where
  server      := .start app
  connections := []
  cancelled   := false
  crashed     := false

def setTask (w : Listener α) (i : Nat) (c : Connection) (task : Connection.Task) : Listener α :=
  { w with connections := w.connections.set i { c with task } }

-- The handler of a connection has come to where it waits, or to its end.
def proceed (w : Listener α) (i : Nat) (c : Connection) (request : HttpServer.Request)
    (next : Handler.Rest × Server α) : Listener α :=
  let w := { w with server := next.2 }
  match next.1 with
  | .done res =>
    match Handler.response res with
    | some response => w.setTask i c (.answered response)
    | none          => { w with crashed := true }
  | .op op next => w.setTask i c (.handling request op next)

variable [App α ε] [Unicode] [HttpServer.Allocator] [UrlEscape] [UuidText] [SerdeJson]

-- The request is given to its handler.
def handle (w : Listener α) (i : Nat) (c : Connection) (request : HttpServer.Request) (draws : Draws) :
    Listener α :=
  w.proceed i c request <|
    Program.advance Operation.waits (Server.perform request.toRequest.content)
      (Routing.route request.toRequest draws) w.server

-- What the handler waits for is there.
def resume (w : Listener α) (i : Nat) (c : Connection) (request : HttpServer.Request)
    (op : Operation) (next : op.Result → Handler.Rest) : Listener α :=
  w.proceed i c request <|
    Program.resume Operation.waits (Server.perform request.toRequest.content) (.op op next) w.server

-- The task of a connection goes on to where it has to wait next.
def run (w : Listener α) (i : Nat) (draws : Draws) : Listener α :=
  match w.connections[i]? with
  | none => w
  | some c =>
    match c.task with
    | .reading reading =>
      match c.read reading with
      | none               => w
      | some (.error _)    => w.setTask i c .ended
      | some (.ok request) => w.handle i c request draws
    | .handling request .content next =>
      if c.HasContent request then
        match request.content with
        | .capacityOverflow => w.setTask i c .ended
        | .aborted          => { w with crashed := true }
        | _                 => w.resume i c request .content next
      else
        w
    | .handling request op next => w.resume i c request op next
    | _ => w

-- Nothing happens any more when the process has died.
def step (w : Listener α) (e : Event α) : Listener α :=
  if w.crashed then
    w
  else match e with
    | .accept          => if w.cancelled then w else { w with connections := w.connections ++ [.new] }
    | .receive i bytes => { w with connections := w.connections.modify i (·.receive bytes) }
    | .close i         => { w with connections := w.connections.modify i .close }
    | .run i draws     => w.run i draws
    | .lose i          => { w with connections := w.connections.modify i .lose }
    | .cancel          => { w with cancelled := true }
    | .app app         => { w with server := { w.server with app } }

def system (app : α) : System (Listener α) (Event α) where
  init := start app
  step := step

-- What is left of the handler of a request, when its pieces have been run in these states of the server.
def pieces (request : Request) (draws : Draws) (servers : List (Server α)) : Handler.Rest :=
  Program.pieces Operation.waits (Server.perform request.content) (Routing.route request draws) servers

-- The states of the server in which the task of the connection has been run.
def turns (i : Nat) : Listener α → List (Event α) → List (Server α)
  | _, []      => []
  | w, e :: es => if e.runs i then w.server :: turns i (w.step e) es else turns i (w.step e) es

end Listener
end Pheidippides
