import Pheidippides.Objects.Basic
import Pheidippides.Primitives.Broadcast
import Pheidippides.Primitives.System

open Broadcast

namespace Pheidippides

-- The capacity `subscribe_new_messages` asks for.
def subscriptionCapacity : Nat := 100

-- `registered` is history: the user for whom each receiver of the hub was created. The lock around the
-- map is not modelled, since no operation panics while it holds it.
structure SubscriptionsHandler where
  newMessages : UserId → Option ChannelId
  hub         : Hub Message
  registered  : List UserId

namespace SubscriptionsHandler

-- "Couldn't send subscription events for {user}"
inductive Error
  | couldntSend (user : UserId)
  deriving DecidableEq, Repr

def new : SubscriptionsHandler where
  newMessages _ := none
  hub           := .empty
  registered    := []

-- Sends to the subscribers of one user, if the map has an entry for them.
def sendTo (h : SubscriptionsHandler) (userId : UserId) (m : Message) :
    Except Error Unit × SubscriptionsHandler :=
  match h.newMessages userId with
  | none => (.ok (), h)
  | some sender =>
    match h.hub.send sender m with
    | .ok hub  => (.ok (), { h with hub })
    | .error _ => (.error <| .couldntSend userId, h)

def handleNewMessage (h : SubscriptionsHandler) (m : Message) :
    Except Error Unit × SubscriptionsHandler :=
  match h.sendTo m.sender m with
  | (.error e, h) => (.error e, h)
  | (.ok (), h)   => if m.sender ≠ m.receiver then h.sendTo m.receiver m else (.ok (), h)

-- One pass of the job that `spawn_cleanup_job` starts. The sender in an entry is the only one of its
-- channel, so a channel is closed when its entry is removed. Channels without an entry are closed already.
def cleanup (h : SubscriptionsHandler) : SubscriptionsHandler :=
  { h with
    newMessages := fun userId => (h.newMessages userId).filter (h.hub.receiverCount · > 0)
    hub         := h.hub.close (h.hub.receiverCount · = 0) }

-- The map entry of a user, made on demand. The channel which the source makes for an occupied entry
-- as well is dropped before anyone can hold a receiver of it.
def entry (h : SubscriptionsHandler) (userId : UserId) : ChannelId × SubscriptionsHandler :=
  match h.newMessages userId with
  | some sender => (sender, h)
  | none =>
    let (sender, hub) := h.hub.create subscriptionCapacity
    (sender, { h with newMessages := Function.update h.newMessages userId (some sender), hub })

-- The registration in `subscribe_new_messages`, which happens under the write lock.
def register (h : SubscriptionsHandler) (userId : UserId) : ReceiverId × SubscriptionsHandler :=
  let (sender, h)   := h.entry userId
  let (rx, hub) := h.hub.subscribe sender
  (rx, { h with hub, registered := h.registered ++ [userId] })

-- What can happen to the handler, in any order. A subscription whose fetch fails is a `subscribe`
-- followed by a `drop`.
inductive Event
  | subscribe (userId : UserId)
  | drop      (rx : ReceiverId)
  | recv      (rx : ReceiverId)
  | cleanup
  | message   (m : Message)

def step (h : SubscriptionsHandler) : Event → SubscriptionsHandler
  | .subscribe userId => (h.register userId).2
  | .drop rx          => { h with hub := h.hub.drop rx }
  | .recv rx          => { h with hub := (h.hub.recv rx).2 }
  | .cleanup          => h.cleanup
  | .message m        => (h.handleNewMessage m).2

def system : System SubscriptionsHandler Event where
  init := new
  step := step

-- A receiver that was created for the user and has not been dropped.
def Subscribed (h : SubscriptionsHandler) (rx : ReceiverId) (userId : UserId) : Prop :=
  h.hub.Live rx ∧ h.registered[rx]? = some userId

-- An entry of the map all of whose receivers are gone.
def Stale (h : SubscriptionsHandler) (userId : UserId) : Prop :=
  ∃ sender, h.newMessages userId = some sender ∧ h.hub.receiverCount sender = 0

-- The users whose subscribers `handle_new_message` gets to: a stale entry of the sender ends it early.
def Reaches (h : SubscriptionsHandler) (m : Message) (userId : UserId) : Prop :=
  userId = m.sender ∨ (userId = m.receiver ∧ ¬h.Stale m.sender)

-- The subscribers of the two users of a message each get it once.
def Delivers (h : SubscriptionsHandler) (m : Message) : Prop :=
  ∀ {rx userId}, h.Subscribed rx userId → m.Concerns userId →
    (h.handleNewMessage m).2.hub.queue rx = h.hub.queue rx ++ [m]

-- The sender's entry is stale, and there is someone else to be reached behind it.
def Blocked (h : SubscriptionsHandler) (m : Message) : Prop :=
  m.sender ≠ m.receiver ∧ h.Stale m.sender ∧ ∃ rx, h.Subscribed rx m.receiver

-- The message reaches a live receiver of the user.
def Gets (h : SubscriptionsHandler) (m : Message) (rx : ReceiverId) (userId : UserId) : Prop :=
  h.Subscribed rx userId ∧ (h.handleNewMessage m).2.hub.queue rx = h.hub.queue rx ++ [m]

-- All live receivers of a user are on the channel of the user, nobody else's, and after any further events
-- a message gets to the same ones of them whether or not there is a pass of the cleanup job now.
structure Undisturbed (h : SubscriptionsHandler) (es : List Event) (m : Message) : Prop where
  current : ∀ {r userId rx}, h.Subscribed r userId → h.hub.receivers[r]? = some rx →
    h.newMessages userId = some rx.channel
  owned   : ∀ {r userId userId' rx}, h.Subscribed r userId → h.hub.receivers[r]? = some rx →
    h.newMessages userId' = some rx.channel → userId' = userId
  shared  : ∀ {r r' userId rx rx'}, h.Subscribed r userId → h.Subscribed r' userId →
    h.hub.receivers[r]? = some rx → h.hub.receivers[r']? = some rx' → rx.channel = rx'.channel
  reached : ∀ {r userId}, (system.exec h es).Gets m r userId ↔ (system.exec h.cleanup es).Gets m r userId

end SubscriptionsHandler
end Pheidippides
