import Pheidippides.Messenger.Forwarding

open Broadcast

namespace Pheidippides

theorem Exit.eq_closed {exit : Option Exit} (ended : exit.isSome) (hd : exit ≠ some .dropped)
    (hl : exit ≠ some .lagged) : exit = some .closed := by
  obtain ⟨_ | _ | _, rfl⟩ := Option.isSome_iff_exists.mp ended <;> simp at hd hl ⊢

namespace Unbounded

variable {α : Type} {c c' : Unbounded α} {x : α}

theorem recv_value (h : c.recv = (.value x, c')) :
    ∃ queue, c.queue = x :: queue ∧ c' = { c with queue } := by
  rw [recv] at h
  split at h
  case h_1 hq => cases h; exact ⟨_, hq, rfl⟩
  case h_2    => split at h <;> cases h

theorem recv_empty (h : c.recv = (.empty, c')) : c' = c ∧ c.queue = [] ∧ c.senderDropped = false := by
  rw [recv] at h
  split at h
  case h_1    => cases h
  case h_2 hq => split at h <;> cases h; exact ⟨rfl, hq, by simp_all⟩

theorem recv_closed (h : c.recv = (.closed, c')) : c' = c ∧ c.queue = [] ∧ c.senderDropped := by
  rw [recv] at h
  split at h
  case h_1    => cases h
  case h_2 hq => split at h <;> cases h; exact ⟨rfl, hq, ‹_›⟩

theorem recv_ne_lagged {missed : Nat} : c.recv.1 ≠ .lagged missed := by
  rw [recv]
  split
  case h_1 => nofun
  case h_2 => split <;> nofun

end Unbounded

namespace Forwarder

variable {α β γ σ : Type} {recv : σ → Recv α × σ} {drop : σ → σ} {f : α → Option β}
  {t t' : Forwarder α β} {i i' : σ} {c c' : Unbounded β}

-- All that a turn can come to.
inductive Turned (recv : σ → Recv α × σ) (drop : σ → σ) (f : α → Option β) (t : Forwarder α β)
    (i : σ) (c : Unbounded β) : Forwarder α β × σ × Unbounded β → Prop
  | idle : Turned recv drop f t i c (t, i, c)
  | waited {i' : σ} : recv i = (.empty, i') → Turned recv drop f t i c (t, i', c)
  | took {x : α} {i' : σ} : t.exit = none → t.held = none → recv i = (.value x, i') →
    Turned recv drop f t i c ({ t with taken := t.taken ++ [x], held := f x }, i', c)
  | sent {y : β} : t.held = some y → c.receiverDropped = false →
    Turned recv drop f t i c ({ t with held := none, sent := t.sent ++ [y] }, i, c.send y)
  | dropped : t.exit = none → c.receiverDropped →
    Turned recv drop f t i c
      ({ t with held := none, exit := some .dropped }, drop i, c.dropSender)
  | lagged {missed : Nat} {i' : σ} : t.exit = none → t.held = none →
    recv i = (.lagged missed, i') →
    Turned recv drop f t i c ({ t with exit := some .lagged }, drop i', c.dropSender)
  | closed {i' : σ} : t.exit = none → t.held = none → recv i = (.closed, i') →
    Turned recv drop f t i c ({ t with exit := some .closed }, drop i', c.dropSender)

theorem Turned.receiverDropped :
    Turned recv drop f t i c (t', i', c') → c'.receiverDropped = c.receiverDropped
  | .idle | .waited _ | .took .. | .sent .. | .dropped .. | .lagged .. | .closed .. => rfl

-- A task passes on what it takes in order, all of it unless the receiver behind it is dropped.
structure Sound (f : α → Option β) (t : Forwarder α β) : Prop where
  flow : t.exit ≠ some .dropped → t.sent ++ t.held.toList = t.taken.filterMap f
  cut  : t.sent ++ t.held.toList <+: t.taken.filterMap f
  idle : t.exit.isSome → t.held = none

theorem Sound.new (f : α → Option β) : (Forwarder.new : Forwarder α β).Sound f where
  flow _ := rfl
  cut    := List.prefix_rfl
  idle _ := rfl

theorem Sound.turn_spec (s : t.Sound f) (recv : σ → Recv α × σ) (drop : σ → σ) (i : σ)
    (c : Unbounded β) (turn : Turn) :
    Turned recv drop f t i c (Forwarder.turn recv drop f t i c turn) := by
  cases turn <;> rw [Forwarder.turn]
  case closed =>
    split
    case h_1 he hh hr => simpa [hh] using (.dropped he hr : Turned recv drop f t i c _)
    case h_2          => exact .idle
  case recv =>
    split
    case h_2 => exact .idle
    case h_1 he hh =>
      split
      case h_1 hr => exact .took he hh hr
      case h_2 hr => exact .waited hr
      case h_3 hr => exact .lagged he hh hr
      case h_4 hr => exact .closed he hh hr
  case send =>
    split
    case h_1       => exact .idle
    case h_2 hh hr => exact .sent hh hr
    case h_3 hh hr =>
      refine .dropped ?_ hr
      by_contra he
      simp [s.idle <| Option.isSome_iff_ne_none.mpr he] at hh

theorem Sound.turned (s : t.Sound f) : Turned recv drop f t i c (t', i', c') → t'.Sound f
  | .idle | .waited _ => s
  | .took he hh _ => by
    have flow := s.flow (by simp [he])
    rw [hh, Option.toList_none, List.append_nil] at flow
    have flow' (x : α) : t.sent ++ (f x).toList = (t.taken ++ [x]).filterMap f := by
      rw [List.filterMap_append, flow]
      cases h : f x <;> simp [h]
    exact ⟨fun _ => flow' _, (flow' _).symm ▸ List.prefix_rfl, by simp [he]⟩
  | .sent hh _ => by
    have flow (x : β) : t.sent ++ [x] ++ (none : Option β).toList = t.sent ++ (some x).toList := by simp
    have := s.idle
    exact ⟨fun he => (flow _).trans <| hh ▸ s.flow he, (flow _).symm ▸ hh ▸ s.cut, fun _ => rfl⟩
  | .dropped _ _ => by
    refine ⟨by simp, ?_, fun _ => rfl⟩
    rw [Option.toList_none, List.append_nil]
    exact (List.prefix_append ..).trans s.cut
  | .lagged he hh _ | .closed he hh _ => ⟨fun _ => s.flow (by simp [he]), s.cut, fun _ => hh⟩

theorem Sound.sent_eq (s : t.Sound f) (hc : t.exit = some .closed) : t.sent = t.taken.filterMap f := by
  simpa [s.idle (by simp [hc])] using s.flow (by simp [hc])

-- A task that has ended does not do anything any more.
theorem Sound.turned_eq (s : t.Sound f) (he : t.exit.isSome) :
    Turned recv drop f t i c (t', i', c') → t' = t
  | .idle | .waited _ => rfl
  | .sent hh _        => by simp [s.idle he] at hh
  | .took hn .. | .dropped hn _ | .lagged hn .. | .closed hn .. => by simp [hn] at he

theorem Sound.pipeBroadcast_spec (s : t.Sound f) (r : ReceiverId) (hub : Hub α) (c : Unbounded β)
    (turn : Turn) : Turned (·.recv r) (·.drop r) f t hub c
      (Forwarder.pipeBroadcast r f t hub c turn) :=
  s.turn_spec ..

theorem Sound.pipeUnboundedChannel_spec (s : t.Sound f) (input : Unbounded α) (c : Unbounded β)
    (turn : Turn) : Turned Unbounded.recv Unbounded.dropReceiver f t input c
      (Forwarder.pipeUnboundedChannel f t input c turn) :=
  s.turn_spec ..

theorem Sound.redirectUnboundedChannel_spec {t : Forwarder α α} (s : t.Sound some)
    (input c : Unbounded α) (turn : Turn) : Turned Unbounded.recv Unbounded.dropReceiver some t input c
      (Forwarder.redirectUnboundedChannel t input c turn) :=
  s.turn_spec ..

-- What a task does in one iteration is what it does in some turns.
theorem pipeBroadcast_eq_turns (f : α → Option β) (r : ReceiverId) (hub : Hub α) (c : Unbounded β)
    (he : t.exit = none) (hh : t.held = none) : ∃ (turns : List Turn) (t' : Forwarder α β),
      turns.foldl (fun x => Forwarder.pipeBroadcast r f x.1 x.2.1 x.2.2) (t, hub, c) =
        (t', (Pheidippides.pipeBroadcast f hub r c).2) ∧
      t'.exit = (Pheidippides.pipeBroadcast f hub r c).1 ∧ t'.held = none := by
  by_cases hc : c.receiverDropped
  case pos =>
    refine ⟨[.closed], { t with exit := some .dropped }, ?_, ?_, hh⟩ <;>
      simp [Forwarder.pipeBroadcast, turn, Pheidippides.pipeBroadcast, he, hh, hc]
  case neg =>
    rcases hr : hub.recv r with ⟨x | n | _ | _, hub'⟩
    case value =>
      refine ⟨[.recv, .send], { t with taken := t.taken ++ [x], sent := t.sent ++ (f x).toList }, ?_⟩
      cases hf : f x <;>
        simp [Forwarder.pipeBroadcast, turn, Pheidippides.pipeBroadcast, he, hh, hc, hr, hf]
    case empty =>
      refine ⟨[], t, ?_⟩
      simp [Pheidippides.pipeBroadcast, he, hh, hc, hr, (Hub.recv_empty hr).left]
    case lagged =>
      refine ⟨[.recv], { t with exit := some .lagged }, ?_⟩
      simp [Forwarder.pipeBroadcast, turn, Pheidippides.pipeBroadcast, he, hh, hc, hr]
    case closed =>
      refine ⟨[.recv], { t with exit := some .closed }, ?_⟩
      simp [Forwarder.pipeBroadcast, turn, Pheidippides.pipeBroadcast, he, hh, hc, hr]

theorem pipeUnboundedChannel_eq_turns (f : α → Option β) (channel : Unbounded α) (c : Unbounded β)
    (he : t.exit = none) (hh : t.held = none) : ∃ (turns : List Turn) (t' : Forwarder α β),
      turns.foldl (fun x => Forwarder.pipeUnboundedChannel f x.1 x.2.1 x.2.2) (t, channel, c) =
        (t', Pheidippides.pipeUnboundedChannel f channel c) ∧ t'.held = none := by
  by_cases hc : c.receiverDropped
  case pos =>
    refine ⟨[.closed], { t with exit := some .dropped }, ?_, hh⟩
    simp [Forwarder.pipeUnboundedChannel, turn, Pheidippides.pipeUnboundedChannel, he, hh, hc]
  case neg =>
    cases hq : channel.queue
    case cons x queue =>
      refine ⟨[.recv, .send], { t with taken := t.taken ++ [x], sent := t.sent ++ (f x).toList }, ?_⟩
      cases hf : f x <;> simp [Forwarder.pipeUnboundedChannel, turn,
        Pheidippides.pipeUnboundedChannel, Unbounded.recv, he, hh, hc, hq, hf]
    case nil =>
      by_cases hs : channel.senderDropped
      case pos =>
        refine ⟨[.recv], { t with exit := some .closed }, ?_⟩
        simp [Forwarder.pipeUnboundedChannel, turn, Pheidippides.pipeUnboundedChannel, Unbounded.recv,
          he, hh, hc, hq, hs]
      case neg =>
        refine ⟨[], t, ?_⟩
        simp [Pheidippides.pipeUnboundedChannel, hh, hc, hq, hs]

-- An unbounded channel between what has been sent on it, by a sender which may have ended, and the task
-- which takes from it.
structure Link (log : List α) (exit : Option Exit) (c : Unbounded α) (t : Forwarder α β) : Prop where
  flow     : t.taken ++ c.queue = log
  sender   : c.senderDropped = exit.isSome
  receiver : c.receiverDropped = t.exit.isSome
  dropped  : exit = some .dropped → t.exit.isSome
  closed   : t.exit = some .closed → c.queue = [] ∧ exit.isSome ∧ exit ≠ some .dropped
  unlagged : t.exit ≠ some .lagged

namespace Link

variable {log : List α} {exit : Option Exit} {i i' : Unbounded α} {u : Forwarder β γ}

theorem new (queue : List α) :
    Link queue none ⟨queue, false, false⟩ (Forwarder.new : Forwarder α β) where
  flow     := rfl
  sender   := rfl
  receiver := rfl
  dropped  := nofun
  closed   := nofun
  unlagged := nofun

theorem turned (l : Link log exit i t) :
    Turned Unbounded.recv Unbounded.dropReceiver f t i c (t', i', c') → Link log exit i' t'
  | .idle => l
  | .waited hr => (Unbounded.recv_empty hr).left ▸ l
  | .took he hh hr => by
    obtain ⟨queue, hq, rfl⟩ := Unbounded.recv_value hr
    refine ⟨?_, l.sender, l.receiver, l.dropped, by simp [he], l.unlagged⟩
    rw [← l.flow, hq, List.append_assoc, List.singleton_append]
  | .sent _ _ => ⟨l.flow, l.sender, l.receiver, l.dropped, l.closed, l.unlagged⟩
  | .dropped _ _ => ⟨l.flow, l.sender, rfl, fun _ => rfl, nofun, nofun⟩
  | .lagged _ _ hr => absurd (congrArg Prod.fst hr) Unbounded.recv_ne_lagged
  | .closed he hh hr => by
    obtain ⟨rfl, hq, hs⟩ := Unbounded.recv_closed hr
    rw [l.sender] at hs
    have connected : exit ≠ some .dropped := fun hd => by simpa [he] using l.dropped hd
    exact ⟨l.flow, l.sender, rfl, fun _ => rfl, fun _ => ⟨hq, hs, connected⟩, nofun⟩

-- The same channel after a turn of the task which sends on it.
theorem fed (base : List β) {i i' : σ} (l : Link (base ++ t.sent) t.exit c u) :
    Turned recv drop f t i c (t', i', c') → Link (base ++ t'.sent) t'.exit c' u
  | .idle | .waited _ | .took .. => l
  | .sent hh hr => by
    have open_ : u.exit = none := by simpa [hr] using l.receiver
    refine ⟨?_, l.sender, l.receiver, l.dropped, by simp [open_], l.unlagged⟩
    rw [Unbounded.send, ← List.append_assoc, l.flow, List.append_assoc]
  | .dropped running hr => by
    have stopped : u.exit.isSome := l.receiver ▸ hr
    refine ⟨l.flow, rfl, l.receiver, fun _ => stopped, fun hc => ?_, l.unlagged⟩
    have hs := (l.closed hc).right.left
    simp [running] at hs
  | .lagged he hh _ | .closed he hh _ => by
    refine ⟨l.flow, rfl, l.receiver, nofun, fun hc => ?_, l.unlagged⟩
    simpa [he] using (l.closed hc).right.left

theorem taken_eq (l : Link log exit i t) (hc : t.exit = some .closed) : t.taken = log := by
  rw [← l.flow, (l.closed hc).left, List.append_nil]

end Link

-- The last channel, between a task and the reader.
structure Reads (received : List β) (c : Unbounded β) (t : Forwarder α β) : Prop where
  flow    : received ++ c.queue = t.sent
  ended   : c.senderDropped = t.exit.isSome
  dropped : t.exit = some .dropped → c.receiverDropped

theorem Reads.fed {received : List β} {i i' : σ} (r : Reads received c t) :
    Turned recv drop f t i c (t', i', c') → Reads received c' t'
  | .idle | .waited _       => r
  | .took ..                => ⟨r.flow, r.ended, r.dropped⟩
  | .sent _ _               => ⟨by simp [Unbounded.send, ← r.flow], r.ended, r.dropped⟩
  | .dropped _ hr           => ⟨r.flow, rfl, fun _ => hr⟩
  | .lagged .. | .closed .. => ⟨r.flow, rfl, nofun⟩

-- How much a task has to do, by what is in its input.
def load (a h : Nat) (t : Forwarder α β) (input : Nat) : Nat :=
  a * input + h * t.held.toList.length + if t.exit = none then 1 else 0

-- How taking from an input changes its size.
structure Shrinks (recv : σ → Recv α × σ) (drop : σ → σ) (size : σ → Nat) : Prop where
  value  : ∀ {i i' x}, recv i = (.value x, i') → size i' < size i
  empty  : ∀ {i i'}, recv i = (.empty, i') → i' = i
  lagged : ∀ {i i' n}, recv i = (.lagged n, i') → size i' ≤ size i
  closed : ∀ {i i'}, recv i = (.closed, i') → size i' ≤ size i
  drop   : ∀ {i}, size (drop i) = size i

-- What is passed on weighs less in the task than in front of it, and less still behind it.
theorem Turned.lighter {size : σ → Nat} {a h o : Nat} (shrinks : Shrinks recv drop size) (ha : h < a)
    (ho : o < h) : Turned recv drop f t i c (t', i', c') → (t', i', c') = (t, i, c) ∨
      t'.load a h (size i') + o * c'.queue.length < t.load a h (size i) + o * c.queue.length
  | .idle => .inl rfl
  | .waited hr => by rw [shrinks.empty hr]; exact .inl rfl
  | .took (x := x) he hh hr => by
    have := Nat.mul_le_mul_left a <| Nat.succ_le_of_lt <| shrinks.value hr
    have : (f x).toList.length ≤ 1 := by cases f x <;> simp
    have := Nat.mul_le_mul_left h this
    simp only [load, he, hh, Option.toList_none, List.length_nil, Nat.mul_zero, Nat.mul_succ] at *
    omega
  | .sent hh hr => by
    simp only [load, hh, Unbounded.send, Option.toList_none, Option.toList_some, List.length_nil,
      List.length_append, List.length_cons, Nat.mul_add, Nat.mul_zero, Nat.mul_one]
    omega
  | .dropped he hr => by
    have ended : (some Exit.dropped : Option Exit) ≠ none := nofun
    simp only [load, he, shrinks.drop, Unbounded.dropSender, if_pos, if_neg ended, Option.toList_none,
      List.length_nil, Nat.mul_zero]
    omega
  | .lagged he hh hr => by
    have := Nat.mul_le_mul_left a <| shrinks.lagged hr
    have ended : (some Exit.lagged : Option Exit) ≠ none := nofun
    simp only [load, he, hh, shrinks.drop, Unbounded.dropSender, if_pos, if_neg ended]
    omega
  | .closed he hh hr => by
    have := Nat.mul_le_mul_left a <| shrinks.closed hr
    have ended : (some Exit.closed : Option Exit) ≠ none := nofun
    simp only [load, he, hh, shrinks.drop, Unbounded.dropSender, if_pos, if_neg ended]
    omega

-- A task that has not ended goes on if it holds something or finds something in its input.
theorem exists_turn_ne (recv : σ → Recv α × σ) (drop : σ → σ) (f : α → Option β) (c : Unbounded β)
    (he : t.exit = none) (h : t.held.isSome ∨ (recv i).1 ≠ .empty) :
    ∃ turn, (Forwarder.turn recv drop f t i c turn).1 ≠ t := by
  cases hh : t.held
  case some y =>
    refine ⟨.send, fun heq => ?_⟩
    have := congrArg held heq
    rw [Forwarder.turn, hh] at this
    cases hr : c.receiverDropped <;> simp [hr] at this
  case none =>
    have h : (recv i).1 ≠ .empty := h.resolve_left <| by simp [hh]
    refine ⟨.recv, fun heq => ?_⟩
    rw [Forwarder.turn, he, hh] at heq
    rcases hr : recv i with ⟨_ | _ | _ | _, i'⟩ <;> simp [hr] at heq h
    · simpa using congrArg taken heq
    all_goals simpa [he] using congrArg exit heq

theorem Shrinks.unbounded :
    Shrinks (Unbounded.recv (α := α)) Unbounded.dropReceiver (·.queue.length) where
  value h := by
    obtain ⟨queue, hq, rfl⟩ := Unbounded.recv_value h
    simp [hq]
  empty h  := (Unbounded.recv_empty h).left
  lagged h := absurd (congrArg Prod.fst h) Unbounded.recv_ne_lagged
  closed h := (Unbounded.recv_closed h).left ▸ le_rfl
  drop     := rfl

theorem Shrinks.hub (r : ReceiverId) :
    Shrinks (fun hub : Hub α => hub.recv r) (·.drop r) (fun hub => (hub.queue r).length) where
  value h  := by simp [Hub.recv_value h]
  empty h  := (Hub.recv_empty h).left
  lagged h := (Hub.recv_lagged h).le
  closed h := (Hub.recv_closed h).left ▸ le_rfl
  drop     := by simp

-- The channel of the source as the task which takes from it has it.
structure Source (channel : ChannelId) (r : ReceiverId) (hub : Hub α) (t : Forwarder α β) : Prop extends
    hub.Receives channel r where
  taken  : t.taken <+: hub.arrived r
  flow   : t.exit ≠ some .lagged → t.taken ++ hub.queue r = hub.arrived r
  lagged : t.exit = some .lagged → t.taken.length < (hub.arrived r).length
  closed : t.exit = some .closed → hub.queue r = [] ∧ (hub.channel channel).closed

namespace Source

variable {channel : ChannelId} {r : ReceiverId} {hub hub' : Hub α}

theorem turned (s : Source channel r hub t) :
    Turned (·.recv r) (·.drop r) f t hub c (t', hub', c') → Source channel r hub' t'
  | .idle => s
  | .waited hr => (Hub.recv_empty hr).left ▸ s
  | .sent _ _ => ⟨s.toReceives, s.taken, s.flow, s.lagged, s.closed⟩
  | .took (x := x) he hh hr => by
    have flow := s.flow (by simp [he])
    have frame := hub.recv_frame r
    have receives := s.recv
    rw [Hub.recv_value hr, ← List.singleton_append, ← List.append_assoc] at flow
    rw [hr] at frame receives
    refine ⟨receives, ?_, fun _ => ?_, ?_, ?_⟩
    · exact ⟨hub'.queue r, by rw [frame.arrived, ← flow]⟩
    · rw [frame.arrived, ← flow]
    · simp [he]
    · simp [he]
  | .dropped he _ => by
    refine ⟨s.drop, ?_, fun _ => ?_, nofun, nofun⟩
    · simpa using s.taken
    · simpa using s.flow (by simp [he])
  | .lagged he hh hr => by
    have flow := s.flow (by simp [he])
    have frame := hub.recv_frame r
    have receives := s.recv
    have missed := Hub.recv_lagged hr
    rw [hr] at frame receives
    refine ⟨receives.drop, ?_, by simp, fun _ => ?_, nofun⟩
    · rw [Hub.arrived_drop, frame.arrived]
      exact s.taken
    · rw [Hub.arrived_drop, frame.arrived, ← flow, List.length_append]
      exact Nat.lt_add_of_pos_right <| Nat.zero_lt_of_lt missed
  | .closed he hh hr => by
    obtain ⟨rfl, hq, hc⟩ := s.of_recv_closed hr
    refine ⟨s.drop, ?_, fun _ => ?_, nofun, fun _ => ⟨?_, hc⟩⟩
    · simpa using s.taken
    · simpa using s.flow (by simp [he])
    · simpa using hq

-- After the channel has been closed there is nothing that the source could send.
theorem push (s : Source channel r hub t) (x : α) (open_ : ¬(hub.channel channel).closed) :
    Source channel r (hub.push channel x) t := by
  have ⟨queue, arrived⟩ := s.queue_push x
  refine ⟨s.toReceives.push x, ?_, fun he => ?_, fun he => ?_, fun he => ?_⟩
  · exact s.taken.trans <| arrived ▸ List.prefix_append ..
  · rw [queue, arrived, ← List.append_assoc, s.flow he]
  · exact arrived ▸ (s.lagged he).trans_le (by simp)
  · exact absurd (s.closed he).right open_

theorem close (s : Source channel r hub t) (p : ChannelId → Bool) :
    Source channel r (hub.close p) t where
  toReceives := s.toReceives.close p
  taken      := s.taken
  flow       := s.flow
  lagged     := s.lagged
  closed he  := ⟨(s.closed he).left, by simp [Hub.close_closed, (s.closed he).right]⟩

theorem turned_channel {hub hub' : Hub α} :
    Turned (·.recv r) (·.drop r) f t hub c (t', hub', c') → hub'.channel = hub.channel
  | .idle | .sent .. | .dropped ..                    => rfl
  | .waited hr | .took _ _ hr | .lagged _ _ hr | .closed _ _ hr =>
    (congrArg (·.2.channel) hr).symm.trans (hub.recv_frame r).channel

end Source

end Forwarder

namespace Chain

open Forwarder

variable {α β γ : Type} {s : Setup α β γ} {c c' : Chain α β γ} {e : Event α}

-- With and without a starting point there are other channels between the tasks.
structure Sound (s : Setup α β γ) (c : Chain α β γ) : Prop where
  source     : Source s.channel s.rx c.hub c.broadcast
  broadcast  : c.broadcast.Sound s.keep
  redirect   : c.redirect.Sound some
  unbounded  : c.unbounded.Sound s.f
  direct     : s.catchUp = none →
    Link c.broadcast.sent c.broadcast.exit c.subscription c.unbounded
  filtered   : ∀ l, s.catchUp = some l →
    Link c.broadcast.sent c.broadcast.exit c.filtered c.redirect
  redirected : ∀ l, s.catchUp = some l →
    Link (l ++ c.redirect.sent) c.redirect.exit c.subscription c.unbounded
  reads      : Reads c.received c.stream c.unbounded

theorem Sound.start (s : Setup α β γ) : (start s).Sound s where
  source := by
    refine ⟨.subscribe s.wellFormed s.opened, List.nil_prefix, fun _ => ?_, nofun, nofun⟩
    simp [Setup.rx, Chain.start, Hub.arrived_subscribe_self, Hub.queue_subscribe_self, Forwarder.new]
  broadcast       := .new _
  redirect        := .new _
  unbounded       := .new _
  direct hs       := by simpa [Chain.start, hs] using .new []
  filtered _ _    := .new []
  redirected l hs := by simpa [Chain.start, hs, Forwarder.new] using Link.new l
  reads           := ⟨rfl, rfl, nofun⟩

-- All that a step can come to.
inductive Stepped (s : Setup α β γ) (c : Chain α β γ) : Event α → Chain α β γ → Prop
  | idle {e : Event α} : Stepped s c e c
  | sent {x : α} : ¬(c.hub.channel s.channel).closed →
    Stepped s c (.send x) { c with hub := c.hub.push s.channel x }
  | closed : Stepped s c .close { c with hub := c.hub.close (· = s.channel) }
  | disconnected : Stepped s c .disconnect { c with stream := c.stream.dropReceiver }
  | received {x : γ} {queue : List γ} : c.stream.queue = x :: queue →
    Stepped s c .recv { c with stream := { c.stream with queue }, received := c.received ++ [x] }
  | direct {turn : Turn} {broadcast : Forwarder α β} {hub : Hub α} {subscription : Unbounded β} :
    s.catchUp = none → Turned (·.recv s.rx) (·.drop s.rx) s.keep c.broadcast c.hub c.subscription
      (broadcast, hub, subscription) →
    Stepped s c (.broadcast turn) { c with broadcast, hub, subscription }
  | filtered {l : List β} {turn : Turn} {broadcast : Forwarder α β} {hub : Hub α}
      {filtered : Unbounded β} :
    s.catchUp = some l → Turned (·.recv s.rx) (·.drop s.rx) s.keep c.broadcast c.hub c.filtered
      (broadcast, hub, filtered) →
    Stepped s c (.broadcast turn) { c with broadcast, hub, filtered }
  | redirected {l : List β} {turn : Turn} {redirect : Forwarder β β}
      {filtered subscription : Unbounded β} :
    s.catchUp = some l → Turned Unbounded.recv Unbounded.dropReceiver some c.redirect c.filtered
      c.subscription (redirect, filtered, subscription) →
    Stepped s c (.redirect turn) { c with redirect, filtered, subscription }
  | unbounded {turn : Turn} {unbounded : Forwarder β γ} {subscription : Unbounded β}
      {stream : Unbounded γ} :
    Turned Unbounded.recv Unbounded.dropReceiver s.f c.unbounded c.subscription c.stream
      (unbounded, subscription, stream) →
    Stepped s c (.unbounded turn) { c with unbounded, subscription, stream }

theorem Sound.step_spec (h : c.Sound s) (e : Event α) : Stepped s c e (step s c e) := by
  cases e <;> rw [Chain.step]
  case close      => exact .closed
  case disconnect => exact .disconnected
  case send x =>
    split
    case isTrue        => exact .idle
    case isFalse open_ =>
      rw [Hub.send]
      split
      case h_2 => exact .idle
      case h_1 hs =>
        split at hs <;> cases hs
        exact .sent open_
  case recv =>
    split
    case h_1    => exact .idle
    case h_2 hq => exact .received hq
  case broadcast turn =>
    cases hs : s.catchUp
    case none => exact .direct hs <| h.broadcast.pipeBroadcast_spec s.rx c.hub c.subscription turn
    case some => exact .filtered hs <| h.broadcast.pipeBroadcast_spec s.rx c.hub c.filtered turn
  case redirect turn =>
    cases hs : s.catchUp
    case none => exact .idle
    case some =>
      exact .redirected hs <| h.redirect.redirectUnboundedChannel_spec c.filtered c.subscription turn
  case unbounded turn =>
    exact .unbounded <| h.unbounded.pipeUnboundedChannel_spec c.subscription c.stream turn

theorem Stepped.sound (h : c.Sound s) : Stepped s c e c' → c'.Sound s
  | .idle => h
  | .sent open_ => { h with source := h.source.push _ open_ }
  | .closed => { h with source := h.source.close _ }
  | .disconnected => { h with reads := ⟨h.reads.flow, h.reads.ended, fun _ => rfl⟩ }
  | .received hq =>
    { h with reads := ⟨by simp [← h.reads.flow, hq], h.reads.ended, h.reads.dropped⟩ }
  | .direct hs spec => { h with
    source     := h.source.turned spec
    broadcast  := h.broadcast.turned spec
    direct     := fun _ => (h.direct hs).fed [] spec
    filtered   := by simp [hs]
    redirected := by simp [hs] }
  | .filtered hs spec => { h with
    source    := h.source.turned spec
    broadcast := h.broadcast.turned spec
    direct    := by simp [hs]
    filtered  := fun l hl => (h.filtered l hl).fed [] spec }
  | .redirected hs spec => { h with
    redirect   := h.redirect.turned spec
    direct     := by simp [hs]
    filtered   := fun l hl => (h.filtered l hl).turned spec
    redirected := fun l hl => (h.redirected l hl).fed l spec }
  | .unbounded spec => { h with
    unbounded  := h.unbounded.turned spec
    direct     := fun hs => (h.direct hs).turned spec
    redirected := fun l hl => (h.redirected l hl).turned spec
    reads      := h.reads.fed spec }

theorem sound (s : Setup α β γ) : (system s).Invariant (Sound s) where
  init   := .start s
  step e := fun h => (h.step_spec e).sound h

-- What goes into the pipe behind the subscription.
theorem Sound.taken_isPrefix (h : c.Sound s) :
    c.unbounded.taken <+: s.catchUp.getD [] ++ c.broadcast.taken.filterMap s.keep := by
  have sent : c.broadcast.sent <+: c.broadcast.taken.filterMap s.keep :=
    (List.prefix_append ..).trans h.broadcast.cut
  cases hs : s.catchUp
  case none =>
    have flow := (h.direct hs).flow
    exact (List.prefix_append ..).trans <| flow ▸ sent
  case some l =>
    have filtered := (h.filtered l hs).flow
    have redirected := (h.redirected l hs).flow
    have passed : c.redirect.sent <+: c.redirect.taken := by
      simpa using (List.prefix_append ..).trans h.redirect.cut
    have moved : c.redirect.sent <+: c.broadcast.taken.filterMap s.keep :=
      passed.trans <| (List.prefix_append ..).trans <| filtered ▸ sent
    exact (List.prefix_append ..).trans <| redirected ▸ (List.prefix_append_right_inj l).mpr moved

theorem Sound.received_isPrefix (h : c.Sound s) : c.received <+: s.expected c.broadcast.taken := by
  have sent : c.unbounded.sent <+: c.unbounded.taken.filterMap s.f :=
    (List.prefix_append ..).trans h.unbounded.cut
  exact (List.prefix_append ..).trans <| h.reads.flow ▸ sent.trans <| h.taken_isPrefix.filterMap s.f

theorem expected_isPrefix {xs ys : List α} (h : xs <+: ys) : s.expected xs <+: s.expected ys :=
  ((List.prefix_append_right_inj _).mpr <| h.filterMap s.keep).filterMap s.f

theorem Stepped.broadcast_eq (h : c.Sound s) (he : c.broadcast.exit.isSome) :
    Stepped s c e c' → c'.broadcast = c.broadcast
  | .direct _ spec | .filtered _ spec => h.broadcast.turned_eq he spec
  | .idle | .sent _ | .closed | .disconnected | .received _ | .redirected .. | .unbounded _ => rfl

theorem Sound.broadcast_exec (h : c.Sound s) (he : c.broadcast.exit.isSome) (es : List (Event α)) :
    ((system s).exec c es).broadcast = c.broadcast := by
  let P (c' : Chain α β γ) : Prop := c'.Sound s ∧ c'.broadcast = c.broadcast
  refine ((system s).exec_induction (P := P) es ⟨h, rfl⟩ ?_).right
  intro c' e ⟨h', hb⟩
  have spec := h'.step_spec e
  exact ⟨spec.sound h', (spec.broadcast_eq h' (hb ▸ he)).trans hb⟩

-- If the reader gets to the end without having dropped the receiver, each task has ended since the one
-- before it has, and the first of them because the source was closed.
theorem Sound.complete (h : c.Sound s) (hc : c.Connected) (he : c.Ended) (hl : ¬c.Lagged) :
    (c.hub.channel s.channel).closed ∧ c.received = s.expected (s.arrived c) := by
  have hc : c.stream.receiverDropped = false := hc
  have received : c.received = c.unbounded.sent := by
    rw [← h.reads.flow, he.right, List.append_nil]
  have unbounded (hu : c.unbounded.exit ≠ some .lagged) : c.unbounded.exit = some .closed := by
    refine Exit.eq_closed (h.reads.ended ▸ he.left) (fun hd => ?_) hu
    simpa [hc] using h.reads.dropped hd
  have source (hb : c.broadcast.exit = some .closed) :
      (c.hub.channel s.channel).closed ∧ c.broadcast.taken = s.arrived c := by
    have ⟨queue, closed⟩ := h.source.closed hb
    refine ⟨closed, ?_⟩
    rw [Setup.arrived, ← h.source.flow hl, queue, List.append_nil]
  cases hs : s.catchUp
  case none =>
    have link := h.direct hs
    have hu := unbounded link.unlagged
    have ⟨_, ended, dropped⟩ := link.closed hu
    have hb := Exit.eq_closed ended dropped hl
    have ⟨closed, taken⟩ := source hb
    refine ⟨closed, ?_⟩
    rw [received, h.unbounded.sent_eq hu, link.taken_eq hu, h.broadcast.sent_eq hb, taken,
      Setup.expected, hs, Option.getD_none, List.nil_append]
  case some l =>
    have link := h.redirected l hs
    have hu := unbounded link.unlagged
    have ⟨_, ended, dropped⟩ := link.closed hu
    have filtered := h.filtered l hs
    have hr := Exit.eq_closed ended dropped filtered.unlagged
    have ⟨_, ended, dropped⟩ := filtered.closed hr
    have hb := Exit.eq_closed ended dropped hl
    have ⟨closed, taken⟩ := source hb
    refine ⟨closed, ?_⟩
    rw [received, h.unbounded.sent_eq hu, link.taken_eq hu, h.redirect.sent_eq hr, filtered.taken_eq hr,
      h.broadcast.sent_eq hb, taken, Setup.expected, hs, Option.getD_some, List.filterMap_some]

-- What remains to be done until the reader gets to the end.
def backlog (s : Setup α β γ) (c : Chain α β γ) : Nat :=
  c.broadcast.load 7 6 (c.hub.queue s.rx).length + c.redirect.load 5 4 c.filtered.queue.length +
    c.unbounded.load 3 2 c.subscription.queue.length + c.stream.queue.length

theorem close_of_closed {hub : Hub α} {channel : ChannelId} (h : (hub.channel channel).closed) :
    hub.close (· = channel) = hub := by
  rw [Hub.close]
  congr
  funext c
  by_cases he : c = channel
  case pos => cases he; simp [← h]
  case neg => simp [he]

-- Once the source is closed, whatever happens, unless the reader drops the receiver.
theorem Stepped.lighter (h : Stepped s c e c') (closed : (c.hub.channel s.channel).closed)
    (he : e ≠ .disconnect) : c' = c ∨ backlog s c' < backlog s c := by
  cases h
  case idle         => exact .inl rfl
  case sent open_   => exact absurd closed open_
  case closed       => exact .inl <| by rw [close_of_closed closed]
  case disconnected => exact absurd rfl he
  case received hq  => exact .inr <| by simp [backlog, hq]
  case' direct spec =>
    have lighter := spec.lighter (a := 7) (h := 6) (o := 3) (.hub _) (by decide) (by decide)
  case' filtered spec =>
    have lighter := spec.lighter (a := 7) (h := 6) (o := 5) (.hub _) (by decide) (by decide)
  case' redirected spec =>
    have lighter := spec.lighter (a := 5) (h := 4) (o := 3) .unbounded (by decide) (by decide)
  case' unbounded spec =>
    have lighter := spec.lighter (a := 3) (h := 2) (o := 1) .unbounded (by decide) (by decide)
  all_goals
    refine lighter.imp ?_ fun lt => ?_
    · rintro ⟨⟩; rfl
    · simp only [backlog, load] at lt ⊢
      omega

theorem Stepped.channel_closed (closed : (c.hub.channel s.channel).closed) :
    Stepped s c e c' → (c'.hub.channel s.channel).closed
  | .sent open_ => absurd closed open_
  | .closed => by rwa [close_of_closed closed]
  | .direct _ spec | .filtered _ spec => Source.turned_channel spec ▸ closed
  | .idle | .disconnected | .received _ | .redirected .. | .unbounded _ => closed

-- A task waits only for the one in front of it, which has not ended then.
theorem Sound.progress (h : c.Sound s) (closed : (c.hub.channel s.channel).closed) (he : ¬c.Ended) :
    ∃ e : Event α, e.Scheduled ∧ Chain.step s c e ≠ c := by
  by_cases hq : c.stream.queue = []
  case neg =>
    refine ⟨.recv, trivial, fun eq => ?_⟩
    have ⟨x, queue, hx⟩ := List.exists_cons_of_ne_nil hq
    have := congrArg (·.stream.queue) eq
    simp [Chain.step, hx] at this
  have unbounded : c.unbounded.exit = none := by
    by_contra hn
    exact he ⟨h.reads.ended ▸ Option.isSome_iff_ne_none.mpr hn, hq⟩
  by_cases hu : c.unbounded.held.isSome ∨ c.subscription.recv.1 ≠ .empty
  case pos =>
    have ⟨turn, ne⟩ := exists_turn_ne Unbounded.recv Unbounded.dropReceiver s.f c.stream unbounded hu
    exact ⟨.unbounded turn, trivial, fun eq => ne <| congrArg (·.unbounded) eq⟩
  have ⟨_, _, subscription⟩ := Unbounded.recv_empty <| Prod.ext (not_not.mp (not_or.mp hu).right) rfl
  have source (c' : Unbounded β) (hb : c.broadcast.exit = none) :=
    exists_turn_ne (fun hub : Hub α => hub.recv s.rx) (·.drop s.rx) s.keep c' hb <|
      .inr <| h.source.recv_ne_empty closed
  cases hs : s.catchUp
  case none =>
    have broadcast : c.broadcast.exit = none := by
      simpa using (h.direct hs).sender.symm.trans subscription
    have ⟨turn, ne⟩ := source c.subscription broadcast
    refine ⟨.broadcast turn, trivial, fun eq => ne ?_⟩
    have := congrArg (·.broadcast) eq
    simp only [Chain.step, hs] at this
    exact this
  case some l =>
    have redirect : c.redirect.exit = none := by
      simpa using (h.redirected l hs).sender.symm.trans subscription
    by_cases hr : c.redirect.held.isSome ∨ c.filtered.recv.1 ≠ .empty
    case pos =>
      have ⟨turn, ne⟩ :=
        exists_turn_ne Unbounded.recv Unbounded.dropReceiver some c.subscription redirect hr
      refine ⟨.redirect turn, trivial, fun eq => ne ?_⟩
      have := congrArg (·.redirect) eq
      simp only [Chain.step, hs] at this
      exact this
    have ⟨_, _, filtered⟩ := Unbounded.recv_empty <| Prod.ext (not_not.mp (not_or.mp hr).right) rfl
    have broadcast : c.broadcast.exit = none := by
      simpa using (h.filtered l hs).sender.symm.trans filtered
    have ⟨turn, ne⟩ := source c.filtered broadcast
    refine ⟨.broadcast turn, trivial, fun eq => ne ?_⟩
    have := congrArg (·.broadcast) eq
    simp only [Chain.step, hs] at this
    exact this

theorem Stepped.connected (hc : c.Connected) (he : e ≠ .disconnect) : Stepped s c e c' → c'.Connected
  | .disconnected => absurd rfl he
  | .unbounded spec => spec.receiverDropped.trans hc
  | .idle | .sent _ | .closed | .received _ | .direct .. | .filtered .. | .redirected .. => hc

-- The reader gets to the end if the source is closed, and the tasks and the reader go on and on.
theorem exists_ended {es : ℕ → Event α} (fair : System.Fair Event.Scheduled es)
    (reading : ∀ n, es n ≠ .disconnect) (close : ∃ n, es n = .close) :
    ∃ n, ((system s).states (start s) es n).Connected ∧ ((system s).states (start s) es n).Ended := by
  have ⟨n, hn⟩ := close
  have connected (n : ℕ) : ((system s).states (start s) es n).Connected := by
    induction n
    case zero      => rfl
    case succ n ih =>
      rw [System.states_succ]
      exact ((sound s).run _).step_spec _ |>.connected ih <| reading n
  let I (c : Chain α β γ) : Prop := c.Sound s ∧ (c.hub.channel s.channel).closed
  have reaches := fair.reaches (S := system s) (I := I) (q := (· ≠ .disconnect)) (μ := backlog s)
    (G := Ended) (s := start s) (n := n + 1)
  have ⟨m, _, ended⟩ := reaches ?step ?progress (fun m _ => reading m) ?init
  case step =>
    intro c e ⟨h, closed⟩ he
    have spec := h.step_spec e
    exact ⟨⟨spec.sound h, spec.channel_closed closed⟩, spec.lighter closed he⟩
  case progress =>
    intro c ⟨h, closed⟩ hc
    have ⟨e, he, ne⟩ := h.progress closed hc
    have reading : e ≠ .disconnect := fun hd => by simp [hd, Event.Scheduled] at he
    exact ⟨e, he, (h.step_spec e).lighter closed reading |>.resolve_left ne⟩
  case init =>
    refine ⟨(sound s).run _, ?_⟩
    rw [System.states_succ, hn]
    simp [system, Chain.step]
  exact ⟨m, connected m, ended⟩

-- What the reader has got is at any moment the beginning of what there is to get. If the first task lags
-- it remains within what came before, and if the source is closed instead it becomes all of it.
theorem forwarding_never_skips (s : Setup α β γ) :
    (∀ es, ((system s).run es).received <+: s.expected (s.arrived ((system s).run es))) ∧
    (∀ es, ((system s).run es).Lagged →
      ∃ missed ≠ [], s.arrived ((system s).run es) = ((system s).run es).broadcast.taken ++ missed ∧
        ∀ es', ((system s).run (es ++ es')).received <+:
          s.expected ((system s).run es).broadcast.taken) ∧
    (∀ es, ((system s).run es).Connected → ((system s).run es).Ended → ¬((system s).run es).Lagged →
      ((system s).run es).received = s.expected (s.arrived ((system s).run es))) ∧
    ∀ es, System.Fair Event.Scheduled es → (∀ n, es n ≠ .disconnect) → (∃ n, es n = .close) →
      ∃ n, ((system s).states (start s) es n).Ended ∧
        (¬((system s).states (start s) es n).Lagged → ((system s).states (start s) es n).received =
          s.expected (s.arrived ((system s).states (start s) es n))) := by
  refine ⟨fun es => ?_, fun es hl => ?_, fun es hc he hl => ?_, fun es fair reading close => ?_⟩
  · have h := (sound s).run es
    exact h.received_isPrefix.trans <| expected_isPrefix h.source.taken
  · have h := (sound s).run es
    have ⟨missed, hm⟩ := h.source.taken
    refine ⟨missed, ?_, hm.symm, fun es' => ?_⟩
    · rintro rfl
      have := h.source.lagged hl
      rw [← hm, List.append_nil] at this
      exact lt_irrefl _ this
    · have frozen := h.broadcast_exec (Option.isSome_iff_exists.mpr ⟨_, hl⟩) es'
      rw [System.run_append, ← frozen]
      exact ((sound s).exec h es').received_isPrefix
  · exact ((sound s).run es).complete hc he hl |>.right
  · have ⟨n, hc, he⟩ := exists_ended (s := s) fair reading close
    exact ⟨n, he, fun hl => ((sound s).run _).complete hc he hl |>.right⟩

-- The first message to come live is one that has been caught up on already.
theorem forwarding_never_skips_example :
    let s : Setup Nat Nat String := {
      hub        := (Hub.empty.create 100).2
      channel    := 0
      keep x     := if x = 11 then none else some x
      f x        := some (toString x)
      catchUp    := some [10, 11]
      wellFormed := Hub.WellFormed.empty.create 100
      opened     := by decide }
    let forward : List (Event Nat) := [.unbounded .recv, .unbounded .send, .recv]
    let es : List (Event Nat) := [.send 11, .broadcast .recv, .send 12] ++ forward ++ [.close,
      .broadcast .recv, .broadcast .send, .broadcast .recv, .redirect .recv, .redirect .send] ++ forward ++
      [.redirect .recv] ++ forward ++ [.unbounded .recv]
    ((system s).run es).received = ["10", "11", "12"] := by
  intro s forward es
  have connected : ((system s).run es).stream.receiverDropped = false := by decide +kernel
  have ended : ((system s).run es).stream.senderDropped ∧ ((system s).run es).stream.queue = [] := by
    decide +kernel
  have unlagged : ((system s).run es).broadcast.exit ≠ some .lagged := by decide +kernel
  have expected : s.expected (((system s).run es).hub.arrived s.rx) = ["10", "11", "12"] := by
    decide +kernel
  exact expected ▸ (forwarding_never_skips s).right.right.left es connected ended unlagged

end Chain
end Pheidippides
