import Pheidippides.Messenger.AsyncUtils
import Pheidippides.Messenger.SubscriptionsHandler
import Pheidippides.Objects.MockDb

open Broadcast

namespace Pheidippides

namespace Stream

-- How far a call of `subscribe_new_messages` has come.
inductive Phase
  | registered -- The fetch is still to come.
  | streaming  -- The call has returned a receiver.
  | abandoned  -- The fetch has failed, or the call was cancelled before it.
  deriving DecidableEq, Repr

end Stream

-- A call of `subscribe_new_messages` with the tasks it has spawned. With a starting point the messages
-- go from `rx` to `filtered` and on to `out`, without one directly from `rx` to `out`, whose receiver
-- is what the call returns. The last three fields are history: what the store held when it was
-- fetched from, what the fetch returned, and what has been taken out of the returned receiver.
structure Stream where
  userId        : UserId
  startingPoint : Option MessageId
  rx            : ReceiverId
  phase         : Stream.Phase
  sentMessages  : List MessageId
  filtered      : Unbounded Message
  out           : Unbounded Message
  exit          : Option Exit
  stored        : List Message
  fetched       : List Message
  received      : List Message
  deriving DecidableEq, Repr

namespace Stream

-- The call right after the registration, which is all there is to it if there is no starting point.
def new (userId : UserId) (startingPoint : Option MessageId) (rx : ReceiverId) : Stream where
  userId        := userId
  startingPoint := startingPoint
  rx            := rx
  phase         := if startingPoint.isSome then .registered else .streaming
  sentMessages  := []
  filtered      := .new
  out           := .new
  exit          := none
  stored        := []
  fetched       := []
  received      := []

-- The closure given to `pipe_broadcast`. It keeps all messages if there is no starting point, since
-- then `sentMessages` stays empty.
def keep (st : Stream) (m : Message) : Option Message :=
  if m.id ∈ st.sentMessages then none else some m

inductive Action
  | fetch
  | abandon
  | pipe
  | redirect
  | recv
  | disconnect
  deriving DecidableEq, Repr

def abandon (hub : Hub Message) (st : Stream) : Hub Message × Stream :=
  match st.phase with
  | .registered => (hub.drop st.rx, { st with phase := .abandoned })
  | _           => (hub, st)

-- The rest of the call after the registration, for calls with a starting point.
def fetch (db : MockDb) (hub : Hub Message) (st : Stream) : Hub Message × Stream :=
  match st.phase, st.startingPoint with
  | .registered, some startingPoint =>
    match db.fetchUsersMessagesSince st.userId startingPoint with
    | .error _ => st.abandon hub
    | .ok previousMessages =>
      (hub, { st with
        phase        := .streaming
        sentMessages := previousMessages.map (·.id)
        out          := { st.out with queue := previousMessages }
        stored       := db.messages.value
        fetched      := previousMessages })
  | _, _ => (hub, st)

-- An iteration of the task of `pipe_broadcast`.
def pipe (hub : Hub Message) (st : Stream) : Hub Message × Stream :=
  match st.phase, st.exit, st.startingPoint with
  | .streaming, none, none =>
    let (exit, hub, out) := pipeBroadcast st.keep hub st.rx st.out
    (hub, { st with exit, out })
  | .streaming, none, some _ =>
    let (exit, hub, filtered) := pipeBroadcast st.keep hub st.rx st.filtered
    (hub, { st with exit, filtered })
  | _, _, _ => (hub, st)

-- An iteration of the task of `redirect_unbounded_channel`, which exists if there is a starting point
-- and runs for as long as it holds the receiver of `filtered`.
def redirect (st : Stream) : Stream :=
  if st.phase = .streaming ∧ st.startingPoint.isSome ∧ ¬st.filtered.receiverDropped then
    let (filtered, out) := redirectUnboundedChannel st.filtered st.out
    { st with filtered, out }
  else
    st

def recv (st : Stream) : Stream :=
  match st.out.receiverDropped, st.out.queue with
  | false, m :: queue => { st with out := { st.out with queue }, received := st.received ++ [m] }
  | _, _              => st

def disconnect (st : Stream) : Stream :=
  { st with out := st.out.dropReceiver }

def act (db : MockDb) (hub : Hub Message) (st : Stream) : Action → Hub Message × Stream
  | .fetch      => st.fetch db hub
  | .abandon    => st.abandon hub
  | .pipe       => st.pipe hub
  | .redirect   => (hub, st.redirect)
  | .recv       => (hub, st.recv)
  | .disconnect => (hub, st.disconnect)

-- The call has returned, and neither has its receiver been dropped nor has it lagged.
structure Undisturbed (st : Stream) : Prop where
  streaming : st.phase = .streaming
  unlagged  : st.exit ≠ some .lagged
  connected : st.out.receiverDropped = false

-- Nothing is on its way to the returned receiver, or waits there, any more.
structure Drained (hub : Hub Message) (st : Stream) : Prop where
  rx       : hub.queue st.rx = []
  filtered : st.filtered.queue = []
  out      : st.out.queue = []

-- What has come live, after the messages that were fetched.
def live (st : Stream) (hub : Hub Message) : List Message :=
  (hub.arrived st.rx).filter (·.id ∉ st.sentMessages)

end Stream
end Pheidippides
