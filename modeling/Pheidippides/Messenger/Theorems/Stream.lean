import Pheidippides.Messenger.Stream
import Pheidippides.Messenger.Theorems.SubscriptionsHandler

open Broadcast

namespace Pheidippides

section AsyncUtils

variable {α β : Type} {hub : Hub α} {r : ReceiverId}

-- All that one iteration of `pipe_broadcast` can come to.
inductive Piped (f : α → Option β) (hub : Hub α) (r : ReceiverId) (sender : Unbounded β) :
    Option Exit × Hub α × Unbounded β → Prop
  | taken {x : α} {n : Nat} : hub.queue r = x :: (hub.moveTo r n).queue r →
    Piped f hub r sender
      (none, hub.moveTo r n, { sender with queue := sender.queue ++ (f x).toList })
  | waiting : hub.queue r = [] → Piped f hub r sender (none, hub, sender)
  | dropped : sender.receiverDropped →
    Piped f hub r sender (some .dropped, hub.drop r, sender.dropSender)
  | lagged {n : Nat} :
    Piped f hub r sender (some .lagged, (hub.moveTo r n).drop r, sender.dropSender)
  | closed {rx : Receiver} : hub.receivers[r]? = some rx → (hub.channel rx.channel).closed →
    Piped f hub r sender (some .closed, hub.drop r, sender.dropSender)

theorem pipeBroadcast_spec (f : α → Option β) (hub : Hub α) (r : ReceiverId)
    (sender : Unbounded β) : Piped f hub r sender (pipeBroadcast f hub r sender) := by
  rw [pipeBroadcast]
  split
  case isTrue h => exact .dropped h
  case isFalse =>
    match hub.recv r, hub.recv_spec r with
    | _, .value (x := x) h =>
      have t : Piped f hub r sender _ := .taken h
      cases hf : f x <;> simpa [hf, Unbounded.send] using t
    | _, .lagged        => exact .lagged
    | _, .empty h       => exact .waiting h
    | _, .closed _ h hc => exact .closed h hc

theorem Piped.frame {f : α → Option β} {sender out : Unbounded β} {exit : Option Exit}
    {hub' : Hub α} : Piped f hub r sender (exit, hub', out) → Hub.Frame r hub hub'
  | .taken _              => .moveTo
  | .waiting _            => .refl
  | .dropped _ | .closed .. => .drop
  | .lagged               => Hub.Frame.moveTo.trans .drop

theorem pipeBroadcast_hub (f : α → Option β) (hub : Hub α) (r : ReceiverId) (sender : Unbounded β) :
    (pipeBroadcast f hub r sender).2.1 = hub.drop r ∨
      (pipeBroadcast f hub r sender).2.1 = (hub.recv r).2 ∨
      (pipeBroadcast f hub r sender).2.1 = (hub.recv r).2.drop r := by
  rw [pipeBroadcast]
  split
  case isTrue => exact .inl rfl
  case isFalse =>
    match hub.recv r with
    | (.value x, _)  => cases hf : f x <;> simp [hf]
    | (.empty, _)    => simp
    | (.lagged _, _) => simp
    | (.closed, _)   => simp

-- What is queued for a task that has not ended is taken, or has been missed.
theorem pipeBroadcast_progress (f : α → Option β) (sender : Unbounded β) (hq : hub.queue r ≠ [])
    (connected : ¬sender.receiverDropped)
    (unclosed : ∀ {rx : Receiver}, hub.receivers[r]? = some rx → ¬(hub.channel rx.channel).closed) :
    (pipeBroadcast f hub r sender).1 = some .lagged ∨
      ∃ x n, hub.queue r = x :: (hub.moveTo r n).queue r ∧ pipeBroadcast f hub r sender =
        (none, hub.moveTo r n, { sender with queue := sender.queue ++ (f x).toList }) :=
  match pipeBroadcast f hub r sender, pipeBroadcast_spec f hub r sender with
  | _, .taken h      => .inr ⟨_, _, h, rfl⟩
  | _, .waiting h    => absurd h hq
  | _, .dropped h    => absurd h connected
  | _, .lagged       => .inl rfl
  | _, .closed hr hc => absurd hc <| unclosed hr

-- All that one iteration of `redirect_unbounded_channel` can come to.
inductive Redirected (source target : Unbounded α) : Unbounded α × Unbounded α → Prop
  | moved {x : α} {q : List α} : source.queue = x :: q →
    Redirected source target ({ source with queue := q }, target.send x)
  | waiting : source.queue = [] → Redirected source target (source, target)
  | ended : target.receiverDropped ∨ (source.queue = [] ∧ source.senderDropped) →
    Redirected source target (source.dropReceiver, target.dropSender)

theorem redirectUnboundedChannel_spec (source target : Unbounded α) :
    Redirected source target (redirectUnboundedChannel source target) := by
  rw [redirectUnboundedChannel, pipeUnboundedChannel]
  by_cases ht : target.receiverDropped
  · simpa [ht] using .ended <| .inl ht
  · cases hq : source.queue
    case cons x queue => simpa [ht] using .moved hq
    case nil =>
      by_cases hs : source.senderDropped
      · simpa [ht, hs] using .ended <| .inr ⟨hq, hs⟩
      · simpa [ht, hs] using .waiting hq

theorem redirectUnboundedChannel_progress {source : Unbounded α} (target : Unbounded α)
    (h : source.queue ≠ []) (connected : ¬target.receiverDropped) : ∃ x q, source.queue = x :: q ∧
      redirectUnboundedChannel source target = ({ source with queue := q }, target.send x) :=
  match redirectUnboundedChannel source target, redirectUnboundedChannel_spec source target with
  | _, .moved hq              => ⟨_, _, hq, rfl⟩
  | _, .waiting hq            => absurd hq h
  | _, .ended (.inl hr)       => absurd hr connected
  | _, .ended (.inr ⟨hq, _⟩)  => absurd hq h

end AsyncUtils

namespace Stream

variable {st : Stream} {hub hub' : Hub Message} {db : MockDb}

-- All that an action of a stream can come to.
inductive Acted (db : MockDb) (hub : Hub Message) (st : Stream) :
    Action → Hub Message × Stream → Prop
  | idle {a : Action} : Acted db hub st a (hub, st)
  | abandoned {a : Action} : st.phase = .registered →
    Acted db hub st a (hub.drop st.rx, { st with phase := .abandoned })
  | fetched {s : MessageId} {previousMessages : List Message} : st.phase = .registered →
    st.startingPoint = some s →
    previousMessages = MockDb.usersMessagesSince db.messages.value st.userId s →
    Acted db hub st .fetch (hub, { st with
      phase        := .streaming
      sentMessages := previousMessages.map (·.id)
      out          := { st.out with queue := previousMessages }
      stored       := db.messages.value
      fetched      := previousMessages })
  | piped {exit : Option Exit} {hub' : Hub Message} {out : Unbounded Message} :
    st.phase = .streaming → st.exit = none → st.startingPoint = none →
    Piped st.keep hub st.rx st.out (exit, hub', out) →
    Acted db hub st .pipe (hub', { st with exit, out })
  | filtered {exit : Option Exit} {hub' : Hub Message} {filtered : Unbounded Message} :
    st.phase = .streaming → st.exit = none → st.startingPoint.isSome →
    Piped st.keep hub st.rx st.filtered (exit, hub', filtered) →
    Acted db hub st .pipe (hub', { st with exit, filtered })
  | redirected {filtered out : Unbounded Message} : st.phase = .streaming →
    st.startingPoint.isSome → Redirected st.filtered st.out (filtered, out) →
    Acted db hub st .redirect (hub, { st with filtered, out })
  | received {m : Message} {queue : List Message} : st.out.queue = m :: queue →
    Acted db hub st .recv (hub, { st with
      out      := { st.out with queue }
      received := st.received ++ [m] })
  | disconnected : Acted db hub st .disconnect (hub, { st with out := st.out.dropReceiver })

theorem abandon_spec (db : MockDb) (hub : Hub Message) (st : Stream) (a : Action) :
    Acted db hub st a (st.abandon hub) := by
  rw [abandon]
  split
  case h_1 h => exact .abandoned h
  case h_2   => exact .idle

theorem fetchUsersMessagesSince_eq {u : UserId} {s : MessageId} {ms : List Message}
    (h : db.fetchUsersMessagesSince u s = .ok ms) :
    ms = MockDb.usersMessagesSince db.messages.value u s := by
  cases hl : db.messages.lock
  case error => simp [MockDb.fetchUsersMessagesSince, hl, bind, Except.bind] at h
  case ok    =>
    cases (Mutex.lock_eq_ok_iff.mp hl).right
    simpa [MockDb.fetchUsersMessagesSince, hl, bind, Except.bind, pure, Except.pure, eq_comm] using h

theorem act_spec (db : MockDb) (hub : Hub Message) (st : Stream) (a : Action) :
    Acted db hub st a (st.act db hub a) := by
  cases a <;> rw [act]
  case abandon    => exact abandon_spec ..
  case disconnect => exact .disconnected
  case fetch      =>
    rw [fetch]
    split
    case h_2 => exact .idle
    case h_1 h hs =>
      split
      case h_1    => exact abandon_spec ..
      case h_2 hf => exact .fetched h hs <| fetchUsersMessagesSince_eq hf
  case pipe       =>
    rw [pipe]
    split
    case h_1 hp hx hs => exact .piped hp hx hs <| pipeBroadcast_spec ..
    case h_2 hp hx hs => exact .filtered hp hx (by simp [hs]) <| pipeBroadcast_spec ..
    case h_3          => exact .idle
  case redirect   =>
    rw [redirect]
    split
    case isTrue h => exact .redirected h.left h.right.left <| redirectUnboundedChannel_spec ..
    case isFalse  => exact .idle
  case recv       =>
    rw [recv]
    split
    case h_1 hq => exact .received hq
    case h_2    => exact .idle

-- The messages which have left the broadcast channel, in the order of the returned receiver.
def forwarded (st : Stream) : List Message :=
  st.received ++ st.out.queue ++ st.filtered.queue

-- What the returned receiver yields in the end, if neither side ever goes away or lags.
def expected (st : Stream) (hub : Hub Message) : List Message :=
  st.fetched ++ (hub.arrived st.rx).filterMap st.keep

structure Sound (hub : Hub Message) (st : Stream) : Prop where
  idle      : st.phase ≠ .streaming →
    st.exit = none ∧ st.forwarded = [] ∧ st.sentMessages = [] ∧ st.fetched = []
  untouched : st.phase = .registered → hub.queue st.rx = hub.arrived st.rx
  live      : st.phase ≠ .abandoned → st.exit = none → hub.Live st.rx
  flow      : st.phase = .streaming → st.exit = none →
    st.forwarded ++ (hub.queue st.rx).filterMap st.keep = st.expected hub
  cut       : st.forwarded <+: st.expected hub
  direct    : st.startingPoint = none → st.filtered.queue = []
  ended     : st.exit ≠ none → st.out.receiverDropped ∨ st.exit = some .lagged
  sender    : st.filtered.senderDropped → st.exit ≠ none
  receiver  : st.filtered.receiverDropped → st.out.receiverDropped ∨ st.exit ≠ none

namespace Sound

-- More may be sent to a stream behind its back, as long as it is queued.
theorem grow (s : st.Sound hub) (hl : hub.Live st.rx → hub'.Live st.rx)
    (g : Hub.Grows st.rx hub hub') : st.Sound hub' := by
  have ⟨ms, hq, ha⟩ := g
  constructor
  case idle      => exact s.idle
  case untouched => exact fun h => by rw [hq, s.untouched h, ha]
  case live      => exact fun h e => hl <| s.live h e
  case flow      =>
    intro h e
    have hf := s.flow h e
    rw [expected] at hf
    rw [expected, hq, ha, List.filterMap_append, List.filterMap_append, ← List.append_assoc, hf,
      List.append_assoc]
  case cut       =>
    rw [expected, ha, List.filterMap_append, ← List.append_assoc]
    exact s.cut.trans <| List.prefix_append ..
  case direct    => exact s.direct
  case ended     => exact s.ended
  case sender    => exact s.sender
  case receiver  => exact s.receiver

theorem congr (s : st.Sound hub) (hl : hub'.Live st.rx ↔ hub.Live st.rx)
    (hq : hub'.queue st.rx = hub.queue st.rx) (ha : hub'.arrived st.rx = hub.arrived st.rx) :
    st.Sound hub' :=
  s.grow hl.mpr ⟨[], by simp [hq], by simp [ha]⟩

theorem frame (s : st.Sound hub) {r : ReceiverId} (f : Hub.Frame r hub hub') (h : st.rx ≠ r) :
    st.Sound hub' :=
  s.congr (f.live h) (f.queue h) (f.arrived' _)

theorem new {userId : UserId} {startingPoint : Option MessageId} {r : ReceiverId}
    (hl : hub.Live r) (hq : hub.queue r = []) (ha : hub.arrived r = []) :
    (Stream.new userId startingPoint r).Sound hub := by
  constructor <;> simp [Stream.new, forwarded, expected, Unbounded.new, hl, hq, ha]

theorem abandoned (s : st.Sound hub) (h : st.phase = .registered) :
    { st with phase := .abandoned }.Sound (hub.drop st.rx) := by
  have ⟨hx, hf, hm, hp⟩ := s.idle (by simp [h])
  have hf : st.received = [] ∧ st.out.queue = [] ∧ st.filtered.queue = [] := by
    simpa [forwarded, and_assoc] using hf
  constructor
  case idle     => simp [forwarded, hx, hf, hm, hp]
  case cut      => simp [forwarded, hf]
  case direct   => exact s.direct
  case ended    => exact s.ended
  case sender   => exact s.sender
  case receiver => exact s.receiver
  all_goals simp

theorem fetched (s : st.Sound hub) {startingPoint : MessageId} {previousMessages : List Message}
    (h : st.phase = .registered) (hs : st.startingPoint = some startingPoint) :
    { st with
      phase        := .streaming
      sentMessages := previousMessages.map Message.id
      out          := { st.out with queue := previousMessages }
      stored       := db.messages.value
      fetched      := previousMessages }.Sound hub := by
  have ⟨hx, hf, _⟩ := s.idle (by simp [h])
  have hf : st.received = [] ∧ st.out.queue = [] ∧ st.filtered.queue = [] := by
    simpa [forwarded, and_assoc] using hf
  constructor
  case live     => exact fun _ => s.live (by simp [h])
  case flow     => simp [forwarded, expected, hf, s.untouched h, keep]
  case cut      => simp [forwarded, expected, hf]
  case ended    => exact s.ended
  case sender   => exact s.sender
  case receiver => exact s.receiver
  all_goals simp [hs]

theorem received (s : st.Sound hub) {m : Message} {queue : List Message}
    (hq : st.out.queue = m :: queue) :
    { st with out := { st.out with queue }, received := st.received ++ [m] }.Sound hub := by
  have hf : st.received ++ [m] ++ queue ++ st.filtered.queue = st.forwarded := by
    simp [forwarded, hq]
  constructor
  case idle =>
    intro h
    have ⟨_, hf, _⟩ := s.idle h
    simp [forwarded, hq] at hf
  case flow      => exact fun h e => by rw [forwarded, hf]; exact s.flow h e
  case cut       => rw [forwarded, hf]; exact s.cut
  case untouched => exact s.untouched
  case live      => exact s.live
  case direct    => exact s.direct
  case ended     => exact s.ended
  case sender    => exact s.sender
  case receiver  => exact s.receiver

theorem disconnected (s : st.Sound hub) : { st with out := st.out.dropReceiver }.Sound hub where
  idle       := s.idle
  untouched  := s.untouched
  live       := s.live
  flow       := s.flow
  cut        := s.cut
  direct     := s.direct
  ended _    := .inl rfl
  sender     := s.sender
  receiver _ := .inl rfl

theorem redirected (s : st.Sound hub) {filtered out : Unbounded Message}
    (hp : st.phase = .streaming) (hs : st.startingPoint.isSome) :
    Redirected st.filtered st.out (filtered, out) → { st with filtered, out }.Sound hub
  | .waiting _ => s
  | .moved (x := x) (q := queue) hq => by
    have hf : st.received ++ (st.out.send x).queue ++ queue = st.forwarded := by
      simp [forwarded, Unbounded.send, hq]
    constructor
    case idle      => simp [hp]
    case flow      => exact fun h e => by rw [forwarded, hf]; exact s.flow h e
    case cut       => rw [forwarded, hf]; exact s.cut
    case direct    => exact fun h => by simp [show st.startingPoint = none from h] at hs
    case untouched => exact s.untouched
    case live      => exact s.live
    case ended     => exact s.ended
    case sender    => exact s.sender
    case receiver  => exact s.receiver
  | .ended he => by
    constructor
    case idle      => simp [hp]
    case receiver  => exact fun _ => he.imp_right (s.sender ·.right)
    case untouched => exact s.untouched
    case live      => exact s.live
    case flow      => exact s.flow
    case cut       => exact s.cut
    case direct    => exact s.direct
    case ended     => exact s.ended
    case sender    => exact s.sender

-- The pipe forwards one message, to whichever channel is its target.
theorem taken (s : st.Sound hub) (hp : st.phase = .streaming) (hx : st.exit = none) {m : Message}
    {n : Nat} (hq : hub.queue st.rx = m :: (hub.moveTo st.rx n).queue st.rx)
    {out filtered : Unbounded Message} (ho : out.receiverDropped = st.out.receiverDropped)
    (hs : filtered.senderDropped = st.filtered.senderDropped)
    (hr : filtered.receiverDropped = st.filtered.receiverDropped)
    (hd : st.startingPoint = none → filtered.queue = [])
    (hf : st.received ++ out.queue ++ filtered.queue = st.forwarded ++ (st.keep m).toList) :
    { st with exit := none, out, filtered }.Sound (hub.moveTo st.rx n) := by
  have flow : st.received ++ out.queue ++ filtered.queue ++
      ((hub.moveTo st.rx n).queue st.rx).filterMap st.keep = st.expected hub := by
    rw [hf, ← s.flow hp hx, hq, List.filterMap_cons]
    cases st.keep m <;> simp
  have he : st.expected (hub.moveTo st.rx n) = st.expected hub := by
    rw [expected, expected, Hub.arrived_moveTo]
  constructor
  case idle      => simp [hp]
  case untouched => simp [hp]
  case live      => exact fun h _ => Hub.live_moveTo.mpr <| s.live h hx
  case flow      => exact fun _ _ => flow.trans he.symm
  case cut       => exact ⟨_, flow.trans he.symm⟩
  case direct    => exact hd
  case ended     => simp
  case sender    => exact fun h => absurd hx <| s.sender (hs ▸ h)
  case receiver  => exact fun h => .inl <| ho ▸ (s.receiver (hr ▸ h)).resolve_right (· hx)

theorem stopped (s : st.Sound hub) (hp : st.phase = .streaming) {exit : Exit}
    (f : Hub.Frame st.rx hub hub') (he : st.out.receiverDropped ∨ exit = .lagged)
    {out filtered : Unbounded Message} (ho : out.receiverDropped = st.out.receiverDropped)
    (hqo : out.queue = st.out.queue) (hqf : filtered.queue = st.filtered.queue) :
    { st with exit := some exit, out, filtered }.Sound hub' := by
  constructor
  case idle      => simp [hp]
  case untouched => simp [hp]
  case live      => simp
  case flow      => simp
  case cut       =>
    rw [forwarded, expected, hqo, hqf, f.arrived]
    exact s.cut
  case direct    => exact fun h => hqf.trans <| s.direct h
  case ended     => exact fun _ => by simpa [ho] using he
  case sender    => simp
  case receiver  => simp

-- A live receiver is never told that its channel is closed.
theorem unclosed (s : st.Sound hub)
    (opened : ∀ {rx : Receiver}, hub.receivers[st.rx]? = some rx → rx.live →
      (hub.channel rx.channel).closed = false)
    (hp : st.phase = .streaming) (hx : st.exit = none) {rx : Receiver}
    (hr : hub.receivers[st.rx]? = some rx) : ¬(hub.channel rx.channel).closed := by
  have ⟨rx', hr', hl⟩ := s.live (by simp [hp]) hx
  cases hr' ▸ hr
  simp [opened hr hl]

theorem act (s : st.Sound hub)
    (opened : ∀ {rx : Receiver}, hub.receivers[st.rx]? = some rx → rx.live →
      (hub.channel rx.channel).closed = false) (a : Action) :
    (st.act db hub a).2.Sound (st.act db hub a).1 :=
  match st.act db hub a, st.act_spec db hub a with
  | _, .idle               => s
  | _, .abandoned h        => s.abandoned h
  | _, .fetched h hs _     => s.fetched h hs
  | _, .received hq        => s.received hq
  | _, .disconnected       => s.disconnected
  | _, .redirected hp hs h => s.redirected hp hs h
  | _, .piped hp hx hs h   => by
    have hd := s.direct hs
    cases h
    case waiting      => exact hx ▸ s
    case taken hq     => exact s.taken hp hx hq rfl rfl rfl (fun _ => hd) (by simp [forwarded, hd])
    case dropped hr   => exact s.stopped hp .drop (.inl hr) rfl rfl rfl
    case lagged       => exact s.stopped hp (Hub.Frame.moveTo.trans .drop) (.inr rfl) rfl rfl rfl
    case closed hr hc => exact absurd hc <| s.unclosed opened hp hx hr
  | _, .filtered hp hx hs h => by
    have hn : st.startingPoint ≠ none := Option.isSome_iff_ne_none.mp hs
    cases h
    case waiting      => exact hx ▸ s
    case taken hq     => exact s.taken hp hx hq rfl rfl rfl (absurd · hn) (by simp [forwarded])
    case dropped hr   =>
      exact s.stopped hp .drop (.inl <| (s.receiver hr).resolve_right (· hx)) rfl rfl rfl
    case lagged       => exact s.stopped hp (Hub.Frame.moveTo.trans .drop) (.inr rfl) rfl rfl rfl
    case closed hr hc => exact absurd hc <| s.unclosed opened hp hx hr

end Sound

-- What a stream knows of the store: its fetch has seen a prefix of the messages.
structure Fetched (messages : List Message) (st : Stream) : Prop where
  stored  : st.stored <+: messages
  fetched : st.fetched = match st.startingPoint with
    | none               => []
    | some startingPoint => MockDb.usersMessagesSince st.stored st.userId startingPoint
  sent    : st.sentMessages = st.fetched.map (·.id)

namespace Fetched

variable {messages messages' : List Message}

theorem new {userId : UserId} {startingPoint : Option MessageId} {r : ReceiverId} :
    (Stream.new userId startingPoint r).Fetched messages where
  stored  := List.nil_prefix
  fetched := by cases startingPoint <;> rfl
  sent    := rfl

theorem mono (f : st.Fetched messages) (h : messages <+: messages') : st.Fetched messages' where
  stored  := f.stored.trans h
  fetched := f.fetched
  sent    := f.sent

-- The fields of `Fetched` are written by `fetch` alone.
theorem congr {st' : Stream} (f : st.Fetched messages) (hu : st'.userId = st.userId)
    (hs : st'.startingPoint = st.startingPoint) (hd : st'.stored = st.stored)
    (hf : st'.fetched = st.fetched) (hm : st'.sentMessages = st.sentMessages) :
    st'.Fetched messages where
  stored  := hd ▸ f.stored
  fetched := by rw [hf, hs, hd, hu]; exact f.fetched
  sent    := by rw [hm, hf]; exact f.sent

end Fetched

section Act

theorem act_fetched (f : st.Fetched db.messages.value) (a : Action) :
    (st.act db hub a).2.Fetched db.messages.value :=
  match st.act db hub a, st.act_spec db hub a with
  | _, .idle            => f
  | _, .fetched _ hs he => { stored := List.prefix_rfl, fetched := by simp [hs, he], sent := rfl }
  | _, .abandoned _ | _, .piped .. | _, .filtered .. | _, .redirected .. | _, .received _
  | _, .disconnected    => f.congr rfl rfl rfl rfl rfl

variable (db : MockDb) (hub : Hub Message) (st : Stream) (a : Action)

-- What no action changes.
theorem act_fixed : (st.act db hub a).2.userId = st.userId ∧
    (st.act db hub a).2.startingPoint = st.startingPoint ∧ (st.act db hub a).2.rx = st.rx :=
  match st.act db hub a, st.act_spec db hub a with
  | _, .idle | _, .abandoned _ | _, .fetched .. | _, .piped .. | _, .filtered .. | _, .redirected ..
  | _, .received _ | _, .disconnected => ⟨rfl, rfl, rfl⟩

theorem act_received (h : a ≠ .recv) : (st.act db hub a).2.received = st.received :=
  match a, st.act db hub a, st.act_spec db hub a with
  | _, _, .idle | _, _, .abandoned _ | _, _, .fetched .. | _, _, .piped .. | _, _, .filtered ..
  | _, _, .redirected .. | _, _, .disconnected => rfl
  | _, _, .received _ => absurd rfl h

-- A call that has a receiver to return either had one before or has fetched from the store just now.
theorem act_stored (h : (st.act db hub a).2.phase = .streaming) :
    (st.phase = .streaming ∧ (st.act db hub a).2.stored = st.stored) ∨
      (st.act db hub a).2.stored = db.messages.value :=
  match st.act db hub a, st.act_spec db hub a, h with
  | _, .idle, h | _, .piped h .., _ | _, .filtered h .., _ | _, .redirected h .., _
  | _, .received _, h | _, .disconnected, h => .inl ⟨h, rfl⟩
  | _, .fetched .., _ => .inr rfl

theorem act_frame : Hub.Frame st.rx hub (st.act db hub a).1 :=
  match st.act db hub a, st.act_spec db hub a with
  | _, .piped _ _ _ h | _, .filtered _ _ _ h => h.frame
  | _, .abandoned _ => .drop
  | _, .idle | _, .fetched .. | _, .redirected .. | _, .received _ | _, .disconnected => .refl

-- The actions of a stream drop its receiver and receive on it, and touch the hub in no other way.
theorem act_simulated (h : SubscriptionsHandler) :
    ∃ ds, { h with hub := (st.act db h.hub a).1 } = SubscriptionsHandler.system.exec h ds := by
  have abandon : ∃ ds, { h with hub := (st.abandon h.hub).1 } =
      SubscriptionsHandler.system.exec h ds := by
    rw [Stream.abandon]
    split
    · exact ⟨[.drop st.rx], rfl⟩
    · exact ⟨[], rfl⟩
  have pipe (f : Message → Option Message) (sender : Unbounded Message) :
      ∃ ds, { h with hub := (pipeBroadcast f h.hub st.rx sender).2.1 } =
        SubscriptionsHandler.system.exec h ds := by
    obtain he | he | he := pipeBroadcast_hub f h.hub st.rx sender <;> rw [he]
    · exact ⟨[.drop st.rx], rfl⟩
    · exact ⟨[.recv st.rx], rfl⟩
    · exact ⟨[.recv st.rx, .drop st.rx], rfl⟩
  cases a <;> rw [act]
  case fetch =>
    rw [Stream.fetch]
    split
    · split
      · exact abandon
      · exact ⟨[], rfl⟩
    · exact ⟨[], rfl⟩
  case abandon    => exact abandon
  case pipe       =>
    rw [Stream.pipe]
    split
    · exact pipe ..
    · exact pipe ..
    · exact ⟨[], rfl⟩
  case redirect   => exact ⟨[], rfl⟩
  case recv       => exact ⟨[], rfl⟩
  case disconnect => exact ⟨[], rfl⟩

end Act
end Stream
end Pheidippides
