import Mathlib.Data.List.Basic
import Mathlib.Data.Nat.Init
import Mathlib.Order.Nat
import Mathlib.Logic.Function.Basic

-- Broadcast channels: every value which is sent reaches every receiver that exists at that moment.
-- A channel is the log of the values sent on it, a receiver is a position in the log of its channel.
-- The channels and receivers of a program live in one `Hub`, which names them by number.
namespace Broadcast

abbrev ChannelId  := Nat
abbrev ReceiverId := Nat

structure Channel (α : Type*) where
  capacity : Nat
  sent     : List α
  closed   : Bool

structure Receiver where
  channel : ChannelId
  start   : Nat -- the length of the log when the receiver was created
  next    : Nat
  live    : Bool

structure Hub (α : Type*) where
  opened    : Nat
  channel   : ChannelId → Channel α
  receivers : List Receiver

inductive Recv (α : Type*)
  | value  (x : α)
  | lagged (missed : Nat)
  | empty
  | closed

inductive SendError
  | noReceiver
  deriving DecidableEq, Repr

namespace Hub

variable {α : Type*}

def empty : Hub α where
  opened    := 0
  channel _ := { capacity := 0, sent := [], closed := true }
  receivers := []

-- A channel retains the smallest power of two number of values that is at least the one asked for.
def create (hub : Hub α) (capacity : Nat) : ChannelId × Hub α :=
  let channel := { capacity := capacity.nextPowerOfTwo, sent := [], closed := false }
  (hub.opened, { hub with
    opened  := hub.opened + 1
    channel := Function.update hub.channel hub.opened channel })

def sentOn (hub : Hub α) (c : ChannelId) : List α :=
  (hub.channel c).sent

def subscribe (hub : Hub α) (c : ChannelId) : ReceiverId × Hub α :=
  let position := (hub.sentOn c).length
  let receiver := { channel := c, start := position, next := position, live := true }
  (hub.receivers.length, { hub with receivers := hub.receivers ++ [receiver] })

def receiverCount (hub : Hub α) (c : ChannelId) : Nat :=
  hub.receivers.countP fun r => r.live && r.channel == c

def push (hub : Hub α) (c : ChannelId) (x : α) : Hub α :=
  { hub with
    channel := Function.update hub.channel c { hub.channel c with sent := hub.sentOn c ++ [x] } }

def send (hub : Hub α) (c : ChannelId) (x : α) : Except SendError (Hub α) :=
  if hub.receiverCount c = 0 then .error .noReceiver else .ok (hub.push c x)

def moveTo (hub : Hub α) (r : ReceiverId) (next : Nat) : Hub α :=
  { hub with receivers := hub.receivers.modify r ({ · with next }) }

-- A receiver which has fallen behind by more than the capacity learns that once, and goes on with the
-- oldest value the channel has retained.
def recv (hub : Hub α) (r : ReceiverId) : Recv α × Hub α :=
  match hub.receivers[r]? with
  | none => (.empty, hub)
  | some rx =>
    let channel := hub.channel rx.channel
    let oldest  := channel.sent.length - channel.capacity
    if rx.next < oldest then
      (.lagged (oldest - rx.next), hub.moveTo r oldest)
    else match channel.sent[rx.next]? with
      | some x => (.value x, hub.moveTo r (rx.next + 1))
      | none   => (if channel.closed then .closed else .empty, hub)

def drop (hub : Hub α) (r : ReceiverId) : Hub α :=
  { hub with receivers := hub.receivers.modify r ({ · with live := false }) }

-- Closes a set of channels, as dropping their last senders does.
def close (hub : Hub α) (p : ChannelId → Bool) : Hub α :=
  { hub with channel := fun c => { hub.channel c with closed := (hub.channel c).closed || p c } }

def Live (hub : Hub α) (r : ReceiverId) : Prop :=
  ∃ rx, hub.receivers[r]? = some rx ∧ rx.live

instance (hub : Hub α) (r : ReceiverId) : Decidable (hub.Live r) :=
  decidable_of_iff (∃ rx ∈ hub.receivers[r]?, rx.live) .rfl

-- All that has been sent to a receiver since it was created.
def arrived (hub : Hub α) (r : ReceiverId) : List α :=
  match hub.receivers[r]? with
  | none    => []
  | some rx => (hub.sentOn rx.channel).drop rx.start

-- What has been sent to a receiver and not been received yet.
def queue (hub : Hub α) (r : ReceiverId) : List α :=
  match hub.receivers[r]? with
  | none    => []
  | some rx => (hub.sentOn rx.channel).drop rx.next

structure WellFormed (hub : Hub α) : Prop where
  opened   : ∀ {r : ReceiverId} {rx : Receiver}, hub.receivers[r]? = some rx → rx.channel < hub.opened
  start_le : ∀ {r : ReceiverId} {rx : Receiver}, hub.receivers[r]? = some rx → rx.start ≤ rx.next
  next_le  : ∀ {r : ReceiverId} {rx : Receiver}, hub.receivers[r]? = some rx →
    rx.next ≤ (hub.sentOn rx.channel).length

section Accessors

variable (hub : Hub α)

@[simp]
theorem create_receivers (n : Nat) : (hub.create n).2.receivers = hub.receivers :=
  rfl

@[simp]
theorem create_opened (n : Nat) : (hub.create n).2.opened = hub.opened + 1 :=
  rfl

@[simp]
theorem create_fst (n : Nat) : (hub.create n).1 = hub.opened :=
  rfl

theorem create_sentOn (n : Nat) (c : ChannelId) :
    (hub.create n).2.sentOn c = if c = hub.opened then [] else hub.sentOn c := by
  simp only [create, sentOn, Function.update_apply]
  split <;> rfl

theorem create_closed (n : Nat) (c : ChannelId) :
    ((hub.create n).2.channel c).closed = (if c = hub.opened then false else (hub.channel c).closed) := by
  simp only [create, Function.update_apply]
  split <;> rfl

@[simp]
theorem subscribe_fst (c : ChannelId) : (hub.subscribe c).1 = hub.receivers.length :=
  rfl

@[simp]
theorem subscribe_opened (c : ChannelId) : (hub.subscribe c).2.opened = hub.opened :=
  rfl

@[simp]
theorem subscribe_channel (c : ChannelId) : (hub.subscribe c).2.channel = hub.channel :=
  rfl

@[simp]
theorem subscribe_sentOn (c : ChannelId) : (hub.subscribe c).2.sentOn = hub.sentOn :=
  rfl

@[simp]
theorem push_opened (c : ChannelId) (x : α) : (hub.push c x).opened = hub.opened :=
  rfl

@[simp]
theorem push_receivers (c : ChannelId) (x : α) : (hub.push c x).receivers = hub.receivers :=
  rfl

theorem push_sentOn (c : ChannelId) (x : α) (c' : ChannelId) :
    (hub.push c x).sentOn c' = if c' = c then hub.sentOn c ++ [x] else hub.sentOn c' := by
  simp only [push, sentOn, Function.update_apply]
  split <;> rfl

theorem mem_sentOn_push {hub : Hub α} {c c' : ChannelId} {x y : α} :
    y ∈ (hub.push c x).sentOn c' ↔ y ∈ hub.sentOn c' ∨ (c' = c ∧ y = x) := by
  rw [push_sentOn]
  split <;> simp_all

@[simp]
theorem push_closed (c : ChannelId) (x : α) (c' : ChannelId) :
    ((hub.push c x).channel c').closed = (hub.channel c').closed := by
  simp only [push, Function.update_apply]
  split
  case isTrue h => rw [h]
  case isFalse  => rfl

@[simp]
theorem moveTo_opened (r : ReceiverId) (n : Nat) : (hub.moveTo r n).opened = hub.opened :=
  rfl

@[simp]
theorem moveTo_channel (r : ReceiverId) (n : Nat) : (hub.moveTo r n).channel = hub.channel :=
  rfl

@[simp]
theorem moveTo_sentOn (r : ReceiverId) (n : Nat) : (hub.moveTo r n).sentOn = hub.sentOn :=
  rfl

theorem moveTo_receivers (r : ReceiverId) (n : Nat) (r' : ReceiverId) :
    (hub.moveTo r n).receivers[r']? =
      hub.receivers[r']?.map fun rx => if r = r' then { rx with next := n } else rx := by
  simp only [moveTo, List.getElem?_modify]
  split <;> simp

@[simp]
theorem drop_opened (r : ReceiverId) : (hub.drop r).opened = hub.opened :=
  rfl

@[simp]
theorem drop_channel (r : ReceiverId) : (hub.drop r).channel = hub.channel :=
  rfl

@[simp]
theorem drop_sentOn (r : ReceiverId) : (hub.drop r).sentOn = hub.sentOn :=
  rfl

theorem drop_receivers (r r' : ReceiverId) :
    (hub.drop r).receivers[r']? =
      hub.receivers[r']?.map fun rx => if r = r' then { rx with live := false } else rx := by
  simp only [drop, List.getElem?_modify]
  split <;> simp

@[simp]
theorem close_opened (p : ChannelId → Bool) : (hub.close p).opened = hub.opened :=
  rfl

@[simp]
theorem close_receivers (p : ChannelId → Bool) : (hub.close p).receivers = hub.receivers :=
  rfl

@[simp]
theorem close_sentOn (p : ChannelId → Bool) : (hub.close p).sentOn = hub.sentOn :=
  rfl

@[simp]
theorem close_closed (p : ChannelId → Bool) (c : ChannelId) :
    ((hub.close p).channel c).closed = ((hub.channel c).closed || p c) :=
  rfl

theorem subscribe_receivers (c : ChannelId) (r : ReceiverId) :
    (hub.subscribe c).2.receivers[r]? = if r = hub.receivers.length
      then some ⟨c, (hub.sentOn c).length, (hub.sentOn c).length, true⟩
      else hub.receivers[r]? := by
  simp only [subscribe, List.getElem?_append]
  split
  case isTrue h => rw [if_neg h.ne]
  case isFalse h =>
    split
    case isTrue e  => simp [e]
    case isFalse e =>
      have hl := lt_of_le_of_ne (not_lt.mp h) (Ne.symm e)
      rw [List.getElem?_eq_none (by simp; omega), List.getElem?_eq_none hl.le]

theorem receiverCount_pos_iff {hub : Hub α} {c : ChannelId} :
    0 < hub.receiverCount c ↔
      ∃ (r : ReceiverId) (rx : Receiver), hub.receivers[r]? = some rx ∧ rx.live ∧ rx.channel = c := by
  simp only [receiverCount, List.countP_pos_iff, Bool.and_eq_true, beq_iff_eq]
  constructor
  case mp =>
    intro ⟨rx, hm, h⟩
    have ⟨r, hr⟩ := List.mem_iff_getElem?.mp hm
    exact ⟨r, rx, hr, h⟩
  case mpr =>
    intro ⟨r, rx, hr, h⟩
    exact ⟨rx, List.mem_of_getElem? hr, h⟩

end Accessors

section Live

variable {hub : Hub α} {r r' : ReceiverId}

theorem live_of_receivers_eq {hub' : Hub α} (h : hub'.receivers = hub.receivers) :
    hub'.Live r ↔ hub.Live r := by
  simp [Live, h]

theorem live_subscribe {c : ChannelId} :
    (hub.subscribe c).2.Live r ↔ r = hub.receivers.length ∨ hub.Live r := by
  simp only [Live, subscribe_receivers]
  split <;> simp_all

@[simp]
theorem live_moveTo {n : Nat} : (hub.moveTo r n).Live r' ↔ hub.Live r' := by
  simp only [Live, moveTo_receivers, Option.map_eq_some_iff]
  constructor
  case mp =>
    rintro ⟨_, ⟨rx, h, rfl⟩, hl⟩
    split at hl <;> exact ⟨rx, h, hl⟩
  case mpr =>
    rintro ⟨rx, h, hl⟩
    refine ⟨_, ⟨rx, h, rfl⟩, ?_⟩
    split <;> exact hl

theorem live_drop : (hub.drop r).Live r' ↔ hub.Live r' ∧ r ≠ r' := by
  simp only [Live, drop_receivers, Option.map_eq_some_iff]
  constructor
  case mp =>
    rintro ⟨_, ⟨rx, h, rfl⟩, hl⟩
    split at hl
    case isTrue    => contradiction
    case isFalse e => exact ⟨⟨rx, h, hl⟩, e⟩
  case mpr =>
    rintro ⟨⟨rx, h, hl⟩, e⟩
    exact ⟨_, ⟨rx, h, rfl⟩, by simp [e, hl]⟩

end Live

section Logs

variable {hub : Hub α} {r r' : ReceiverId} {rx : Receiver} {c : ChannelId}

theorem arrived_eq (h : hub.receivers[r]? = some rx) :
    hub.arrived r = (hub.sentOn rx.channel).drop rx.start := by
  simp [arrived, h]

theorem queue_eq (h : hub.receivers[r]? = some rx) :
    hub.queue r = (hub.sentOn rx.channel).drop rx.next := by
  simp [queue, h]

theorem arrived_subscribe (h : r ≠ hub.receivers.length) :
    (hub.subscribe c).2.arrived r = hub.arrived r := by
  simp [arrived, subscribe_receivers, h]

theorem arrived_subscribe_self : (hub.subscribe c).2.arrived hub.receivers.length = [] := by
  simp [arrived, subscribe_receivers]

theorem queue_subscribe (h : r ≠ hub.receivers.length) :
    (hub.subscribe c).2.queue r = hub.queue r := by
  simp [queue, subscribe_receivers, h]

theorem queue_subscribe_self : (hub.subscribe c).2.queue hub.receivers.length = [] := by
  simp [queue, subscribe_receivers]

@[simp]
theorem arrived_drop : (hub.drop r).arrived r' = hub.arrived r' := by
  simp only [arrived, drop_receivers]
  cases hub.receivers[r']? <;> simp
  split <;> rfl

@[simp]
theorem queue_drop : (hub.drop r).queue r' = hub.queue r' := by
  simp only [queue, drop_receivers]
  cases hub.receivers[r']? <;> simp
  split <;> rfl

@[simp]
theorem arrived_moveTo {n : Nat} : (hub.moveTo r n).arrived r' = hub.arrived r' := by
  simp only [arrived, moveTo_receivers]
  cases hub.receivers[r']? <;> simp
  split <;> rfl

theorem queue_moveTo_self {n : Nat} (h : hub.receivers[r]? = some rx) :
    (hub.moveTo r n).queue r = (hub.sentOn rx.channel).drop n := by
  simp [queue, moveTo_receivers, h]

end Logs

namespace WellFormed

variable {hub : Hub α} {r r' : ReceiverId} {rx : Receiver} {c : ChannelId}

theorem empty : (Hub.empty : Hub α).WellFormed where
  opened   := by simp [Hub.empty]
  start_le := by simp [Hub.empty]
  next_le  := by simp [Hub.empty]

theorem create (h : hub.WellFormed) (n : Nat) : (hub.create n).2.WellFormed where
  opened hr   := Nat.lt_succ_of_lt <| h.opened hr
  start_le hr := h.start_le hr
  next_le hr  := by
    rw [create_sentOn, if_neg (h.opened hr).ne]
    exact h.next_le hr

theorem subscribe (h : hub.WellFormed) (hc : c < hub.opened) : (hub.subscribe c).2.WellFormed where
  opened hr := by
    rw [subscribe_receivers] at hr
    split at hr
    case isTrue  => cases hr; exact hc
    case isFalse => exact h.opened hr
  start_le hr := by
    rw [subscribe_receivers] at hr
    split at hr
    case isTrue  => cases hr; exact le_rfl
    case isFalse => exact h.start_le hr
  next_le hr := by
    rw [subscribe_receivers] at hr
    split at hr
    case isTrue  => cases hr; exact le_rfl
    case isFalse => exact h.next_le hr

theorem push (h : hub.WellFormed) (c : ChannelId) (x : α) : (hub.push c x).WellFormed where
  opened hr   := h.opened hr
  start_le hr := h.start_le hr
  next_le hr  := by
    rw [push_sentOn]
    split
    case isTrue e =>
      have := e ▸ h.next_le hr
      simp only [List.length_append, List.length_singleton]
      omega
    case isFalse => exact h.next_le hr

theorem drop (h : hub.WellFormed) (r : ReceiverId) : (hub.drop r).WellFormed := by
  constructor <;> intro r' rx hr <;> rw [drop_receivers, Option.map_eq_some_iff] at hr
  all_goals
    obtain ⟨rx', hr, rfl⟩ := hr
  case opened   => split <;> exact (h.opened hr :)
  case start_le => split <;> exact (h.start_le hr :)
  case next_le  => split <;> exact (h.next_le hr :)

theorem close (h : hub.WellFormed) (p : ChannelId → Bool) : (hub.close p).WellFormed where
  opened   := h.opened
  start_le := h.start_le
  next_le  := h.next_le

theorem moveTo (h : hub.WellFormed) {n : Nat} (hr : hub.receivers[r]? = some rx)
    (hs : rx.start ≤ n) (hn : n ≤ (hub.sentOn rx.channel).length) : (hub.moveTo r n).WellFormed := by
  constructor <;> intro r' rx' hr' <;> rw [moveTo_receivers, Option.map_eq_some_iff] at hr'
  all_goals
    obtain ⟨rx'', hr', rfl⟩ := hr'
    split
  case opened.isTrue     => exact (h.opened hr' :)
  case opened.isFalse    => exact h.opened hr'
  case start_le.isTrue e => cases e; cases hr ▸ hr'; exact hs
  case start_le.isFalse  => exact h.start_le hr'
  case next_le.isTrue e  => cases e; cases hr ▸ hr'; exact hn
  case next_le.isFalse   => exact h.next_le hr'

-- A value which is sent is appended to what has arrived at, and is queued for, the channel's receivers.
theorem queue_push (h : hub.WellFormed) (hr : hub.receivers[r]? = some rx) (x : α) :
    (hub.push c x).queue r = hub.queue r ++ if rx.channel = c then [x] else [] := by
  have hr' : (hub.push c x).receivers[r]? = some _ := hr
  rw [queue_eq hr, queue_eq hr', push_sentOn]
  split
  case isTrue e  => rw [e, List.drop_append_of_le_length (e ▸ h.next_le hr)]
  case isFalse   => rw [List.append_nil]

theorem arrived_push (h : hub.WellFormed) (hr : hub.receivers[r]? = some rx) (x : α) :
    (hub.push c x).arrived r = hub.arrived r ++ if rx.channel = c then [x] else [] := by
  have hr' : (hub.push c x).receivers[r]? = some _ := hr
  rw [arrived_eq hr, arrived_eq hr', push_sentOn]
  split
  case isTrue e =>
    rw [e, List.drop_append_of_le_length (e ▸ (h.start_le hr).trans (h.next_le hr))]
  case isFalse => rw [List.append_nil]

theorem queue_suffix (h : hub.WellFormed) (r : ReceiverId) : hub.queue r <:+ hub.arrived r := by
  rw [queue, arrived]
  split
  case h_1    => exact List.suffix_rfl
  case h_2 hr =>
    rw [← Nat.add_sub_cancel' <| h.start_le hr, ← List.drop_drop]
    exact List.drop_suffix ..

end WellFormed

-- More has been sent to a receiver since `hub`, and all of it is still queued.
def Grows (r : ReceiverId) (hub hub' : Hub α) : Prop :=
  ∃ xs, hub'.queue r = hub.queue r ++ xs ∧ hub'.arrived r = hub.arrived r ++ xs

namespace Grows

variable {r : ReceiverId} {hub hub₁ hub₂ : Hub α}

theorem refl : Grows r hub hub :=
  ⟨[], by simp⟩

theorem trans : Grows r hub hub₁ → Grows r hub₁ hub₂ → Grows r hub hub₂
  | ⟨xs, hq, ha⟩, ⟨ys, hq', ha'⟩ => ⟨xs ++ ys, by simp [hq, hq', ha, ha']⟩

end Grows

theorem WellFormed.push_grows {hub : Hub α} (h : hub.WellFormed) (c : ChannelId) (x : α)
    (r : ReceiverId) : Grows r hub (hub.push c x) := by
  cases hr : hub.receivers[r]?
  case none    => exact ⟨[], by simp [queue, hr], by simp [arrived, hr]⟩
  case some rx => exact ⟨_, h.queue_push hr x, h.arrived_push hr x⟩

-- What `recv` can find, and what it leaves behind.
inductive Received (hub : Hub α) (r : ReceiverId) : Recv α × Hub α → Prop
  | value {x : α} {n : Nat} :
    hub.queue r = x :: (hub.moveTo r n).queue r → Received hub r (.value x, hub.moveTo r n)
  | lagged {missed n : Nat} : Received hub r (.lagged missed, hub.moveTo r n)
  | empty : hub.queue r = [] → Received hub r (.empty, hub)
  | closed {rx : Receiver} : hub.queue r = [] → hub.receivers[r]? = some rx →
    (hub.channel rx.channel).closed → Received hub r (.closed, hub)

theorem recv_spec (hub : Hub α) (r : ReceiverId) : Received hub r (hub.recv r) := by
  rw [recv]
  split
  case h_1 h => exact .empty <| by simp [queue, h]
  case h_2 rx h =>
    dsimp only
    split
    case isTrue => exact .lagged
    case isFalse =>
      split
      case h_1 x hx =>
        refine .value ?_
        rw [queue_eq h, queue_moveTo_self h]
        exact List.drop_eq_getElem?_toList_append.trans <| by simp [sentOn, hx]
      case h_2 hx =>
        have hq : hub.queue r = [] := by
          rw [queue_eq h, List.drop_eq_nil_iff]
          exact List.getElem?_eq_none_iff.mp hx
        split
        case isTrue hc => exact .closed hq h hc
        case isFalse   => exact .empty hq

-- `recv` changes nothing but the position of its receiver, and moves it forwards within the log.
theorem recv_snd (hub : Hub α) (r : ReceiverId) :
    (hub.recv r).2 = hub ∨ ∃ (rx : Receiver) (n : Nat), hub.receivers[r]? = some rx ∧ rx.next ≤ n ∧
      n ≤ (hub.sentOn rx.channel).length ∧ (hub.recv r).2 = hub.moveTo r n := by
  rw [recv]
  split
  case h_1 => exact .inl rfl
  case h_2 rx h =>
    dsimp only
    split
    case isTrue hl => exact .inr ⟨rx, _, h, hl.le, Nat.sub_le .., rfl⟩
    case isFalse =>
      split
      case h_1 x hx =>
        exact .inr ⟨rx, _, h, Nat.le_succ _, (List.getElem?_eq_some_iff.mp hx).choose, rfl⟩
      case h_2 => exact .inl rfl

-- `hub'` differs from `hub` at most in the position of one receiver, and in whether it is live.
structure Frame (r : ReceiverId) (hub hub' : Hub α) : Prop where
  channel : hub'.channel = hub.channel
  others  : ∀ {r' : ReceiverId}, r' ≠ r → hub'.receivers[r']? = hub.receivers[r']?
  arrived : hub'.arrived r = hub.arrived r
  lives   : hub'.Live r → hub.Live r

namespace Frame

variable {r r' : ReceiverId} {hub hub₁ hub₂ : Hub α}

theorem refl : Frame r hub hub where
  channel  := rfl
  others _ := rfl
  arrived  := rfl
  lives    := id

theorem trans (f₁ : Frame r hub hub₁) (f₂ : Frame r hub₁ hub₂) : Frame r hub hub₂ where
  channel  := f₂.channel.trans f₁.channel
  others h := (f₂.others h).trans (f₁.others h)
  arrived  := f₂.arrived.trans f₁.arrived
  lives    := f₁.lives ∘ f₂.lives

theorem moveTo {n : Nat} : Frame r hub (hub.moveTo r n) where
  channel  := rfl
  others h := by simp [moveTo_receivers, h.symm]
  arrived  := arrived_moveTo
  lives    := live_moveTo.mp

theorem drop : Frame r hub (hub.drop r) where
  channel  := rfl
  others h := by simp [drop_receivers, h.symm]
  arrived  := arrived_drop
  lives h  := (live_drop.mp h).left

theorem sentOn (f : Frame r hub hub₁) : hub₁.sentOn = hub.sentOn := by
  funext c
  rw [Hub.sentOn, f.channel, Hub.sentOn]

theorem live (f : Frame r hub hub₁) (h : r' ≠ r) : hub₁.Live r' ↔ hub.Live r' := by
  simp [Live, f.others h]

theorem lives' (f : Frame r hub hub₁) (r' : ReceiverId) (h : hub₁.Live r') : hub.Live r' := by
  by_cases he : r' = r
  · exact he ▸ f.lives (he ▸ h)
  · exact (f.live he).mp h

theorem queue (f : Frame r hub hub₁) (h : r' ≠ r) : hub₁.queue r' = hub.queue r' := by
  simp [Hub.queue, f.others h, f.sentOn]

theorem arrived' (f : Frame r hub hub₁) (r' : ReceiverId) : hub₁.arrived r' = hub.arrived r' := by
  by_cases h : r' = r
  · exact h ▸ f.arrived
  · simp [Hub.arrived, f.others h, f.sentOn]

end Frame

theorem recv_frame (hub : Hub α) (r : ReceiverId) : Frame r hub (hub.recv r).2 := by
  obtain he | ⟨_, n, _, _, _, he⟩ := hub.recv_snd r <;> rw [he]
  exacts [.refl, .moveTo]

section Recv

variable {hub hub' : Hub α} {r : ReceiverId} {x : α} {missed : Nat}

theorem recv_value (h : hub.recv r = (.value x, hub')) : hub.queue r = x :: hub'.queue r := by
  have spec := hub.recv_spec r
  rw [h] at spec
  cases spec
  assumption

-- A receiver which learns that it has lagged has values before it that it will not get.
theorem recv_lagged (h : hub.recv r = (.lagged missed, hub')) :
    (hub'.queue r).length < (hub.queue r).length := by
  rw [recv] at h
  split at h
  case h_1 => cases h
  case h_2 rx hr =>
    dsimp only at h
    split at h
    case isTrue lt =>
      cases h
      rw [queue_moveTo_self hr, queue_eq hr, List.length_drop, List.length_drop, sentOn]
      omega
    case isFalse =>
      split at h
      case h_1 => cases h
      case h_2 => split at h <;> cases h

theorem recv_closed (h : hub.recv r = (.closed, hub')) : hub' = hub ∧ hub.queue r = [] ∧
    ∃ rx, hub.receivers[r]? = some rx ∧ (hub.channel rx.channel).closed := by
  have spec := hub.recv_spec r
  rw [h] at spec
  cases spec
  case closed rx hq hr hc => exact ⟨rfl, hq, rx, hr, hc⟩

theorem recv_empty (h : hub.recv r = (.empty, hub')) : hub' = hub ∧ hub.queue r = [] ∧
    ∀ {rx : Receiver}, hub.receivers[r]? = some rx → (hub.channel rx.channel).closed = false := by
  have spec := hub.recv_spec r
  rw [h] at spec
  cases spec
  case empty hq =>
    refine ⟨rfl, hq, fun {rx} hr => ?_⟩
    by_contra hc
    simp only [Bool.not_eq_false] at hc
    rw [recv, hr] at h
    dsimp only at h
    split at h
    case isTrue => cases h
    case isFalse =>
      split at h
      case h_1 => cases h
      case h_2 => simp at h

end Recv

theorem WellFormed.recv {hub : Hub α} (h : hub.WellFormed) (r : ReceiverId) :
    (hub.recv r).2.WellFormed := by
  obtain he | ⟨rx, n, hr, hn, hl, he⟩ := hub.recv_snd r
  · rwa [he]
  · rw [he]
    exact h.moveTo hr ((h.start_le hr).trans hn) hl

-- A well-formed hub which has this receiver on this channel.
structure Receives (hub : Hub α) (c : ChannelId) (r : ReceiverId) : Prop where
  wellFormed : hub.WellFormed
  receiver   : ∃ rx, hub.receivers[r]? = some rx ∧ rx.channel = c

namespace Receives

variable {hub hub' : Hub α} {c : ChannelId} {r : ReceiverId}

theorem subscribe (h : hub.WellFormed) (hc : c < hub.opened) :
    (hub.subscribe c).2.Receives c hub.receivers.length :=
  ⟨h.subscribe hc, _, by simp [subscribe_receivers]; rfl, rfl⟩

theorem push (h : hub.Receives c r) (x : α) : (hub.push c x).Receives c r :=
  ⟨h.wellFormed.push c x, h.receiver⟩

theorem close (h : hub.Receives c r) (p : ChannelId → Bool) : (hub.close p).Receives c r :=
  ⟨h.wellFormed.close p, h.receiver⟩

theorem drop (h : hub.Receives c r) : (hub.drop r).Receives c r := by
  have ⟨rx, hr, hc⟩ := h.receiver
  exact ⟨h.wellFormed.drop r, { rx with live := false }, by simp [drop_receivers, hr], hc⟩

theorem recv (h : hub.Receives c r) : (hub.recv r).2.Receives c r := by
  refine ⟨h.wellFormed.recv r, ?_⟩
  obtain he | ⟨_, n, _, _, _, he⟩ := hub.recv_snd r <;> rw [he]
  case inl => exact h.receiver
  case inr =>
    have ⟨rx, hr, hc⟩ := h.receiver
    exact ⟨{ rx with next := n }, by simp [moveTo_receivers, hr], hc⟩

theorem queue_push (h : hub.Receives c r) (x : α) :
    (hub.push c x).queue r = hub.queue r ++ [x] ∧ (hub.push c x).arrived r = hub.arrived r ++ [x] := by
  have ⟨rx, hr, hc⟩ := h.receiver
  rw [h.wellFormed.queue_push hr, h.wellFormed.arrived_push hr, if_pos hc]
  exact ⟨rfl, rfl⟩

theorem of_recv_closed (h : hub.Receives c r) (hr : hub.recv r = (.closed, hub')) :
    hub' = hub ∧ hub.queue r = [] ∧ (hub.channel c).closed := by
  have ⟨rx, hrx, hc⟩ := h.receiver
  have ⟨he, hq, rx', hrx', closed⟩ := recv_closed hr
  cases hrx.symm.trans hrx'
  exact ⟨he, hq, hc ▸ closed⟩

theorem recv_ne_empty (h : hub.Receives c r) (closed : (hub.channel c).closed) :
    (hub.recv r).1 ≠ .empty := by
  intro he
  have ⟨rx, hrx, hc⟩ := h.receiver
  have ⟨_, _, unclosed⟩ := recv_empty <| Prod.ext he rfl
  simp [← hc, unclosed hrx] at closed

end Receives
end Hub
end Broadcast
