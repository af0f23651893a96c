import Pheidippides.Messenger.AsyncUtils
import Pheidippides.Primitives.System

open Broadcast

namespace Pheidippides

namespace Unbounded

variable {α : Type}

def recv (c : Unbounded α) : Recv α × Unbounded α :=
  match c.queue with
  | x :: queue => (.value x, { c with queue })
  | []         => (if c.senderDropped then .closed else .empty, c)

end Unbounded

-- What the scheduler lets a task do next. It tries a branch of its `select!`, or sends what it has
-- got from the last branch. Other tasks may run in between.
inductive Turn
  | closed
  | recv
  | send
  deriving DecidableEq, Repr

-- A task of `async_utils`. What it has taken from its input and what it has sent are history.
structure Forwarder (α β : Type) where
  taken : List α
  held  : Option β
  sent  : List β
  exit  : Option Exit
  deriving DecidableEq, Repr

namespace Forwarder

variable {α β σ : Type}

def new : Forwarder α β where
  taken := []
  held  := none
  sent  := []
  exit  := none

-- A turn of the loop which the functions of `async_utils` share. When it ends, the task drops its ends
-- of the two channels.
def turn (recv : σ → Recv α × σ) (drop : σ → σ) (f : α → Option β) (t : Forwarder α β) (input : σ)
    (sender : Unbounded β) : Turn → Forwarder α β × σ × Unbounded β
  | .closed =>
    match t.exit, t.held, sender.receiverDropped with
    | none, none, true => ({ t with exit := some .dropped }, drop input, sender.dropSender)
    | _, _, _          => (t, input, sender)
  | .recv =>
    match t.exit, t.held with
    | none, none =>
      match recv input with
      | (.value x, input)  => ({ t with taken := t.taken ++ [x], held := f x }, input, sender)
      | (.empty, input)    => (t, input, sender)
      | (.lagged _, input) => ({ t with exit := some .lagged }, drop input, sender.dropSender)
      | (.closed, input)   => ({ t with exit := some .closed }, drop input, sender.dropSender)
    | _, _ => (t, input, sender)
  | .send =>
    match t.held, sender.receiverDropped with
    | none, _       => (t, input, sender)
    | some y, false => ({ t with held := none, sent := t.sent ++ [y] }, input, sender.send y)
    | some _, true  =>
      ({ t with held := none, exit := some .dropped }, drop input, sender.dropSender)

def pipeBroadcast (inChannel : ReceiverId) : (α → Option β) → Forwarder α β → Hub α → Unbounded β →
    Turn → Forwarder α β × Hub α × Unbounded β :=
  turn (·.recv inChannel) (·.drop inChannel)

def pipeUnboundedChannel : (α → Option β) → Forwarder α β → Unbounded α → Unbounded β →
    Turn → Forwarder α β × Unbounded α × Unbounded β :=
  turn Unbounded.recv Unbounded.dropReceiver

def redirectUnboundedChannel : Forwarder α α → Unbounded α → Unbounded α →
    Turn → Forwarder α α × Unbounded α × Unbounded α :=
  turn Unbounded.recv Unbounded.dropReceiver some

end Forwarder

-- What a chain is built from: a channel that someone is about to subscribe to, the functions which the
-- two pipes are given, and the messages to catch up on if there is a starting point.
structure Chain.Setup (α β γ : Type) where
  hub        : Hub α
  channel    : ChannelId
  keep       : α → Option β
  f          : β → Option γ
  catchUp    : Option (List β)
  wellFormed : hub.WellFormed
  opened     : channel < hub.opened

-- The tasks between a broadcast and the one who reads `stream`, and the channels between them. With a
-- starting point `broadcast` feeds `filtered`, and `redirect` goes on from there to `subscription`.
-- Without one `broadcast` feeds `subscription` itself. `received` is history.
structure Chain (α β γ : Type) where
  hub          : Hub α
  filtered     : Unbounded β
  subscription : Unbounded β
  stream       : Unbounded γ
  broadcast    : Forwarder α β
  redirect     : Forwarder β β
  unbounded    : Forwarder β γ
  received     : List γ

namespace Chain

variable {α β γ : Type}

inductive Event (α : Type)
  | send      (x : α)
  | close
  | broadcast (turn : Turn)
  | redirect  (turn : Turn)
  | unbounded (turn : Turn)
  | recv
  | disconnect

-- The turns of the tasks, and reading from the stream.
def Event.Scheduled : Event α → Prop
  | broadcast _ | redirect _ | unbounded _ | recv => True
  | send _ | close | disconnect                   => False

variable (s : Setup α β γ)

def Setup.rx : ReceiverId :=
  s.hub.receivers.length

def start : Chain α β γ where
  hub          := (s.hub.subscribe s.channel).2
  filtered     := .new
  subscription := { queue := s.catchUp.getD [], senderDropped := false, receiverDropped := false }
  stream       := .new
  broadcast    := .new
  redirect     := .new
  unbounded    := .new
  received     := []

-- A source which is closed does not send any more. A reader which has disconnected may still drain what
-- has come before, as `respond` does.
def step (c : Chain α β γ) : Event α → Chain α β γ
  | .send x =>
    if (c.hub.channel s.channel).closed then c else
    match c.hub.send s.channel x with
    | .ok hub  => { c with hub }
    | .error _ => c
  | .close => { c with hub := c.hub.close (· = s.channel) }
  | .broadcast turn =>
    match s.catchUp with
    | none =>
      let (broadcast, hub, subscription) :=
        Forwarder.pipeBroadcast s.rx s.keep c.broadcast c.hub c.subscription turn
      { c with broadcast, hub, subscription }
    | some _ =>
      let (broadcast, hub, filtered) :=
        Forwarder.pipeBroadcast s.rx s.keep c.broadcast c.hub c.filtered turn
      { c with broadcast, hub, filtered }
  | .redirect turn =>
    match s.catchUp with
    | none => c
    | some _ =>
      let (redirect, filtered, subscription) :=
        Forwarder.redirectUnboundedChannel c.redirect c.filtered c.subscription turn
      { c with redirect, filtered, subscription }
  | .unbounded turn =>
    let (unbounded, subscription, stream) :=
      Forwarder.pipeUnboundedChannel s.f c.unbounded c.subscription c.stream turn
    { c with unbounded, subscription, stream }
  | .recv =>
    match c.stream.queue with
    | []         => c
    | x :: queue => { c with stream := { c.stream with queue }, received := c.received ++ [x] }
  | .disconnect => { c with stream := c.stream.dropReceiver }

def system : System (Chain α β γ) (Event α) where
  init := start s
  step := step s

-- What comes of the messages to catch up on and these values.
def Setup.expected (xs : List α) : List γ :=
  (s.catchUp.getD [] ++ xs.filterMap s.keep).filterMap s.f

variable (c : Chain α β γ)

-- All that the source has sent since the subscription.
def Setup.arrived : List α :=
  c.hub.arrived s.rx

def Lagged : Prop :=
  c.broadcast.exit = some .lagged

-- The reader is told that there is nothing more to come.
def Ended : Prop :=
  c.stream.senderDropped ∧ c.stream.queue = []

def Connected : Prop :=
  c.stream.receiverDropped = false

end Chain
end Pheidippides
