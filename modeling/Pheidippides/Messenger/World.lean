import Pheidippides.Messenger.Stream

open Broadcast

namespace Pheidippides

-- The messaging half of a server over the in-memory store: `pending` are the messages whose
-- `send_message` has stored them and not yet gone on to `handle_new_message`, `streams` the calls of
-- `subscribe_new_messages` in the order of their registrations.
structure World where
  db      : MockDb
  handler : SubscriptionsHandler
  pending : List Message
  streams : List Stream

namespace World

def empty : World where
  db      := .empty
  handler := .new
  pending := []
  streams := []

abbrev hub (w : World) : Hub Message :=
  w.handler.hub

def messages (w : World) : List Message :=
  w.db.messages.value

-- The points at which the tasks of a server can interleave. A call of `send_message` is a `create` and
-- later an `announce`, a call of `subscribe_new_messages` a `register` and later a `fetch`.
inductive Event
  | create   (m : Message)
  | announce (m : Message)
  | register (userId : UserId) (startingPoint : Option MessageId)
  | stream   (i : Nat) (action : Stream.Action)
  | cleanup

-- What the tasks of a stream and the reader of its receiver do.
def Event.Serves (i : Nat) : Event → Prop
  | stream j action => j = i ∧ action ∈ [.pipe, .redirect, .recv]
  | _               => False

-- The message that an event is about to store.
def Event.stored : Event → Option Message
  | create m => some m
  | _        => none

def create (w : World) (m : Message) : World :=
  match w.db.createMessage m with
  | (.error _, db) => { w with db }
  | (.ok (), db)   => { w with db, pending := w.pending ++ [m] }

-- An error is logged, and the call goes on to return.
def announce (w : World) (m : Message) : World :=
  if m ∈ w.pending then
    { w with handler := (w.handler.handleNewMessage m).2, pending := w.pending.erase m }
  else
    w

def register (w : World) (userId : UserId) (startingPoint : Option MessageId) : World :=
  let (rx, handler) := w.handler.register userId
  { w with handler, streams := w.streams ++ [.new userId startingPoint rx] }

def onStream (w : World) (i : Nat) (action : Stream.Action) : World :=
  match w.streams[i]? with
  | none => w
  | some st =>
    let (hub, st) := st.act w.db w.hub action
    { w with handler := { w.handler with hub }, streams := w.streams.set i st }

def step (w : World) : Event → World
  | .create m                      => w.create m
  | .announce m                    => w.announce m
  | .register userId startingPoint => w.register userId startingPoint
  | .stream i action               => w.onStream i action
  | .cleanup                       => { w with handler := w.handler.cleanup }

def system : System World Event where
  init := empty
  step := step

-- What an event sends on the channel which the map has for the user.
def broadcast (w : World) (userId : UserId) (e : Event) : List Message :=
  match w.handler.newMessages userId with
  | none        => []
  | some sender => ((w.step e).hub.sentOn sender).drop (w.hub.sentOn sender).length

-- What the events send on it one after the other.
def broadcasts (w : World) (userId : UserId) : List Event → List Message
  | []      => []
  | e :: es => w.broadcast userId e ++ (w.step e).broadcasts userId es

-- The step is no broadcast which ends early at a stale entry.
def Unblocked (w : World) (e : Event) : Prop :=
  ∀ {m}, e = .announce m → ¬w.handler.Blocked m

end World
end Pheidippides
