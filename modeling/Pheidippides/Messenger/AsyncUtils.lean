import Pheidippides.Primitives.Broadcast

open Broadcast

namespace Pheidippides

-- An unbounded channel with one receiver.
structure Unbounded (α : Type) where
  queue           : List α
  senderDropped   : Bool
  receiverDropped : Bool
  deriving DecidableEq, Repr

namespace Unbounded

variable {α : Type}

def new : Unbounded α where
  queue           := []
  senderDropped   := false
  receiverDropped := false

def send (c : Unbounded α) (x : α) : Unbounded α :=
  { c with queue := c.queue ++ [x] }

def dropSender (c : Unbounded α) : Unbounded α :=
  { c with senderDropped := true }

def dropReceiver (c : Unbounded α) : Unbounded α :=
  { c with receiverDropped := true }

end Unbounded

-- Why the task of a `pipe_broadcast` has ended.
inductive Exit
  | dropped
  | lagged
  | closed
  deriving DecidableEq, Repr

variable {α β : Type}

-- The functions below run the tasks which the functions of the source spawn for one iteration of their
-- loop. Where a receiver has been dropped the `select!` of the source may still take a message before
-- it notices. Nobody can tell, so here the task ends at once.

def pipeBroadcast (f : α → Option β) (hub : Hub α) (inChannel : ReceiverId) (sender : Unbounded β) :
    Option Exit × Hub α × Unbounded β :=
  if sender.receiverDropped then
    (some .dropped, hub.drop inChannel, sender.dropSender)
  else match hub.recv inChannel with
    | (.value messageIn, hub) =>
      match f messageIn with
      | some messageOut => (none, hub, sender.send messageOut)
      | none            => (none, hub, sender)
    | (.empty, hub)    => (none, hub, sender)
    | (.lagged _, hub) => (some .lagged, hub.drop inChannel, sender.dropSender)
    | (.closed, hub)   => (some .closed, hub.drop inChannel, sender.dropSender)

def pipeUnboundedChannel (f : α → Option β) (channel : Unbounded α) (sender : Unbounded β) :
    Unbounded α × Unbounded β :=
  if sender.receiverDropped then
    (channel.dropReceiver, sender.dropSender)
  else match channel.queue with
    | messageIn :: queue =>
      match f messageIn with
      | some messageOut => ({ channel with queue }, sender.send messageOut)
      | none            => ({ channel with queue }, sender)
    | [] =>
      if channel.senderDropped then (channel.dropReceiver, sender.dropSender) else (channel, sender)

def redirectUnboundedChannel (source target : Unbounded α) : Unbounded α × Unbounded α :=
  pipeUnboundedChannel some source target

end Pheidippides
