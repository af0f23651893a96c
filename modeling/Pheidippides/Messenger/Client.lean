import Pheidippides.Messenger.World

namespace Pheidippides

-- An event source of a user, in a browser. `connections` are the streams it has had in their order, of
-- which only the last one can be open still.
structure Client where
  world       : World
  connections : List Nat

namespace Client

def receivedOn (w : World) (i : Nat) : List Message :=
  (w.streams[i]?.map (·.received)).getD []

-- The events of all connections so far.
def received (c : Client) : List Message :=
  c.connections.flatMap (receivedOn c.world)

-- The value of the `Last-Event-ID` header. Without an event the page's own starting point is used.
def lastEventId (c : Client) (startingPoint : MessageId) : MessageId :=
  (c.received.getLast?.map (·.id)).getD startingPoint

inductive Event
  | connect
  | server (e : World.Event)

def connect (c : Client) (userId : UserId) (startingPoint : MessageId) : Client where
  world       := c.world.register userId <| some <| c.lastEventId startingPoint
  connections := c.connections ++ [c.world.streams.length]

-- A browser reads from no connection once it has opened another one. The server may go on with it.
def onServer (c : Client) (e : World.Event) : Client :=
  match e with
  | .stream i .recv =>
    if i ∈ c.connections.dropLast then c else { c with world := c.world.step e }
  | e => { c with world := c.world.step e }

def step (userId : UserId) (startingPoint : MessageId) (c : Client) : Event → Client
  | .connect  => c.connect userId startingPoint
  | .server e => c.onServer e

def system (userId : UserId) (startingPoint : MessageId) : System Client Event where
  init := ⟨.empty, []⟩
  step := step userId startingPoint

def Unblocked (c : Client) (e : Event) : Prop :=
  ∀ {e'}, e = .server e' → c.world.Unblocked e'

-- All sends are finished, and the last connection has nothing more to give.
structure Settled (c : Client) : Prop where
  sent    : c.world.pending = []
  drained : ∃ i st, c.connections.getLast? = some i ∧ c.world.streams[i]? = some st ∧
    st.Undisturbed ∧ st.Drained c.world.hub

def Lossless (c : Client) (userId : UserId) (startingPoint : MessageId) : Prop :=
  ∀ m ∈ c.world.messages.skipPast (·.id == startingPoint), m.Concerns userId → c.received.count m = 1

-- The page has its starting point from the store.
def Started (startingPoint : MessageId) (c : Client) : Event → Prop
  | .connect  => startingPoint ∈ c.world.messages.map (·.id)
  | .server _ => True

-- The stream of the last connection.
def current (c : Client) : Option Stream :=
  c.connections.getLast?.bind (c.world.streams[·]?)

-- Nothing of the user that is stored up to the last event still waits for its broadcast.
def CaughtUp (userId : UserId) (startingPoint : MessageId) (c : Client) : Prop :=
  ∀ m ∈ c.world.pending, m.Concerns userId →
    m ∈ c.world.messages.skipPast (·.id == c.lastEventId startingPoint)

-- Nothing of the user that was stored before the message, and after the fetch of the open connection, still
-- waits for its broadcast.
def InOrder (userId : UserId) (c : Client) (m : Message) : Prop :=
  ∀ st ∈ c.current, st.phase = .streaming → c.world.hub.Live st.rx →
    m ∈ c.world.pending → m.Concerns userId → m ∉ st.stored →
      ∀ m' ∈ c.world.pending, m'.Concerns userId → m' ∉ st.stored →
        m ∉ c.world.messages.skipPast (·.id == m'.id)

-- A client connects when it is caught up, and is sent what is stored later in the order of the store.
def Orderly (userId : UserId) (startingPoint : MessageId) (c : Client) : Event → Prop
  | .connect              => c.CaughtUp userId startingPoint
  | .server (.announce m) => c.InOrder userId m
  | .server _             => True

section

variable (userId : UserId) (startingPoint : MessageId) (c : Client)

instance : ∀ e, Decidable (c.Started startingPoint e)
  | .connect  => inferInstanceAs (Decidable (_ ∈ _))
  | .server _ => isTrue trivial

instance : Decidable (c.CaughtUp userId startingPoint) :=
  inferInstanceAs (Decidable (∀ m ∈ c.world.pending, _ → _))

instance (m : Message) : Decidable (c.InOrder userId m) :=
  inferInstanceAs <| Decidable <|
    ∀ st ∈ c.current, _ → _ → _ → _ → _ → ∀ m' ∈ c.world.pending, _ → _ → _

instance : ∀ e, Decidable (c.Orderly userId startingPoint e)
  | .connect              => inferInstanceAs (Decidable (c.CaughtUp userId startingPoint))
  | .server (.announce m) => inferInstanceAs (Decidable (c.InOrder userId m))
  | .server (.create _) | .server (.register ..) | .server (.stream ..) | .server .cleanup => isTrue trivial

end

end Client
end Pheidippides
