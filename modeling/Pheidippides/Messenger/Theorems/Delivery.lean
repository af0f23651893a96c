import Pheidippides.Messenger.Theorems.CatchUp

open Broadcast

namespace Pheidippides

namespace Stream

variable {st st₁ st₂ : Stream} {hub hub₁ hub₂ : Hub Message} {db : MockDb} {a : Action}
  {k l : Nat}

-- How many messages have left the broadcast channel.
def taken (hub : Hub Message) (st : Stream) : Nat :=
  (hub.arrived st.rx).length - (hub.queue st.rx).length

-- The messages which have got to the returned receiver.
def passed (st : Stream) : List Message :=
  st.received ++ st.out.queue

-- What becomes of a stream whose receiver is not dropped, as long as it does not lag: nothing goes back.
structure Advances (hub : Hub Message) (st : Stream) (hub' : Hub Message) (st' : Stream) : Prop where
  userId       : st'.userId = st.userId
  rx           : st'.rx = st.rx
  fetched      : st'.fetched = st.fetched
  sentMessages : st'.sentMessages = st.sentMessages
  streaming    : st'.phase = .streaming
  connected    : st'.out.receiverDropped = false
  arrived      : hub.arrived st.rx <+: hub'.arrived st.rx
  taken        : st.taken hub ≤ st'.taken hub'
  forwarded    : st.forwarded.length ≤ st'.forwarded.length
  passed       : st.passed.length ≤ st'.passed.length
  received     : st.received <+: st'.received

namespace Advances

theorem of_grows (streaming : st.phase = .streaming) (connected : st.out.receiverDropped = false)
    (grows : Hub.Grows st.rx hub hub₁) : Advances hub st hub₁ st := by
  have ⟨ms, hq, ha⟩ := grows
  refine ⟨rfl, rfl, rfl, rfl, streaming, connected, ha ▸ List.prefix_append .., ?_, ?_, ?_, ?_⟩
  case refine_1 =>
    rw [Stream.taken, Stream.taken, hq, ha, List.length_append, List.length_append]
    omega
  case refine_2 | refine_3 => exact Nat.le_refl _
  case refine_4            => exact List.prefix_rfl

theorem trans (h : Advances hub st hub₁ st₁) (h' : Advances hub₁ st₁ hub₂ st₂) :
    Advances hub st hub₂ st₂ where
  userId       := h'.userId.trans h.userId
  rx           := h'.rx.trans h.rx
  fetched      := h'.fetched.trans h.fetched
  sentMessages := h'.sentMessages.trans h.sentMessages
  streaming    := h'.streaming
  connected    := h'.connected
  arrived      := h.arrived.trans <| h.rx ▸ h'.arrived
  taken        := Nat.le_trans h.taken h'.taken
  forwarded    := Nat.le_trans h.forwarded h'.forwarded
  passed       := Nat.le_trans h.passed h'.passed
  received     := h.received.trans h'.received

-- The tasks of a stream change nothing but its channels.
theorem of_channels (streaming : st.phase = .streaming) {exit : Option Exit}
    {filtered out : Unbounded Message} (connected : out.receiverDropped = false)
    (arrived : hub₁.arrived st.rx = hub.arrived st.rx)
    (queue : (hub₁.queue st.rx).length ≤ (hub.queue st.rx).length)
    (passed : st.out.queue.length ≤ out.queue.length) (forwarded : st.out.queue.length +
      st.filtered.queue.length ≤ out.queue.length + filtered.queue.length) :
    Advances hub st hub₁ { st with exit, filtered, out } where
  userId       := rfl
  rx           := rfl
  fetched      := rfl
  sentMessages := rfl
  streaming    := streaming
  connected    := connected
  arrived      := arrived ▸ List.prefix_rfl
  taken        := by
    simp only [Stream.taken, arrived]
    omega
  forwarded    := by
    simp only [Stream.forwarded, List.length_append]
    omega
  passed       := by
    simp only [Stream.passed, List.length_append]
    omega
  received     := List.prefix_rfl

end Advances

-- An iteration of the pipe takes from the receiver, and adds to the channel into which it sends.
theorem piped_advances {keep : Message → Option Message} {r : ReceiverId} {exit : Option Exit}
    {sender out : Unbounded Message} (h : Piped keep hub r sender (exit, hub₁, out)) :
    exit = some .lagged ∨ (hub₁.arrived r = hub.arrived r ∧
      (hub₁.queue r).length ≤ (hub.queue r).length ∧ sender.queue.length ≤ out.queue.length ∧
      out.receiverDropped = sender.receiverDropped) := by
  cases h
  case lagged           => exact .inl rfl
  case waiting          => exact .inr ⟨rfl, Nat.le_refl _, Nat.le_refl _, rfl⟩
  case dropped | closed => exact .inr ⟨Hub.arrived_drop, by rw [Hub.queue_drop], Nat.le_refl _, rfl⟩
  case taken hq         =>
    refine .inr ⟨Hub.arrived_moveTo, hq ▸ Nat.le_succ _, ?_, rfl⟩
    exact List.length_append ▸ Nat.le_add_right ..

-- The actions of a stream in which its receiver stays.
theorem act_advances (streaming : st.phase = .streaming) (connected : st.out.receiverDropped = false)
    (stays : a ≠ .disconnect) : (st.act db hub a).2.exit = some .lagged ∨
      Advances hub st (st.act db hub a).1 (st.act db hub a).2 :=
  have idle : Advances hub st hub st := .of_grows streaming connected .refl
  match st.act db hub a, st.act_spec db hub a with
  | _, .idle                  => .inr idle
  | _, .abandoned h           => absurd (streaming.symm.trans h) nofun
  | _, .fetched h ..          => absurd (streaming.symm.trans h) nofun
  | _, .disconnected          => absurd rfl stays
  | _, .received hq           => .inr { idle with
    forwarded := by simp [forwarded, hq]
    passed    := by simp [passed, hq]
    received  := List.prefix_append .. }
  | _, .redirected _ _ h      => .inr <| by
    cases h
    case waiting  => exact .of_channels streaming connected rfl le_rfl le_rfl le_rfl
    case ended    => exact .of_channels streaming connected rfl le_rfl le_rfl le_rfl
    case moved hq =>
      refine .of_channels streaming connected rfl (Nat.le_refl _) ?_ ?_
      all_goals simp only [Unbounded.send, hq, List.length_append, List.length_cons, List.length_nil]
      all_goals omega
  | _, .piped _ _ _ h         => (piped_advances h).imp id fun ⟨arrived, queue, out, dropped⟩ =>
    .of_channels streaming (dropped.trans connected) arrived queue out <| Nat.add_le_add_right out _
  | _, .filtered _ _ _ h      => (piped_advances h).imp id fun ⟨arrived, queue, out, _⟩ =>
    .of_channels streaming connected arrived queue (Nat.le_refl _) <| Nat.add_le_add_left out _

-- What is left to be done until `k` messages have left the broadcast channel and `l` have got to the
-- returned receiver and been received there.
def remaining (hub : Hub Message) (st : Stream) (k l : Nat) : Nat :=
  (k - st.taken hub) + (l - st.passed.length) + (l - st.received.length)

-- The actions which bring that forward.
def Helps (hub : Hub Message) (st : Stream) (k l : Nat) : Action → Prop
  | .pipe     => st.taken hub < k
  | .redirect => st.passed.length < l ∧ st.passed.length < st.forwarded.length
  | .recv     => st.received.length < l ∧ st.received.length < st.passed.length
  | _         => False

namespace Advances

theorem keep (h : Advances hub st hub₁ st₁) : st₁.keep = st.keep := by
  funext m
  rw [Stream.keep, Stream.keep, h.sentMessages]

theorem expected (h : Advances hub st hub₁ st₁) : st.expected hub <+: st₁.expected hub₁ := by
  rw [Stream.expected, Stream.expected, h.fetched, h.keep, h.rx]
  exact (List.prefix_append_right_inj _).mpr <| h.arrived.filterMap _

theorem remaining_le (h : Advances hub st hub₁ st₁) :
    st₁.remaining hub₁ k l ≤ st.remaining hub k l := by
  have := h.taken
  have := h.passed
  have := h.received.length_le
  unfold remaining
  omega

-- What helps goes on to help until there is less left.
theorem helps (h : Advances hub st hub₁ st₁) (help : st.Helps hub k l a) :
    st₁.remaining hub₁ k l < st.remaining hub k l ∨
      st₁.Helps hub₁ k l a := by
  have := h.taken
  have := h.forwarded
  have := h.passed
  have := h.received.length_le
  cases a
  case fetch | abandon | disconnect => exact help.elim
  all_goals
    simp only [Helps, remaining] at help ⊢
    omega

end Advances

theorem received_recv (more : st.received.length < st.passed.length)
    (connected : st.out.receiverDropped = false) :
    (st.act db hub .recv).2.received.length = st.received.length + 1 := by
  cases ho : st.out.queue
  case nil        => simp [passed, ho] at more
  case cons m out => simp [Stream.act, Stream.recv, connected, ho]

theorem Sound.passed_redirect (s : st.Sound hub) (more : st.passed.length < st.forwarded.length)
    (streaming : st.phase = .streaming) (connected : st.out.receiverDropped = false)
    (running : st.exit = none) :
    (st.act db hub .redirect).2.passed.length = st.passed.length + 1 := by
  have hf : st.filtered.queue ≠ [] := by
    intro hf
    unfold passed forwarded at more
    rw [hf, List.append_nil] at more
    exact Nat.lt_irrefl _ more
  have hs : st.startingPoint.isSome := by
    by_contra hs
    exact hf <| s.direct <| by simpa using hs
  have undropped : ¬st.filtered.receiverDropped := fun hr =>
    (s.receiver hr).elim (by simp [connected]) (· running)
  have ⟨m, q, _, hr⟩ := redirectUnboundedChannel_progress st.out hf (by simp [connected])
  simp only [Stream.act, Stream.redirect, if_pos (show _ ∧ _ ∧ _ from ⟨streaming, hs, undropped⟩), hr]
  simp [passed, Unbounded.send]
  omega

-- The next message is taken from the broadcast channel, unless the stream turns out to lag.
theorem Sound.taken_pipe (s : st.Sound hub) (lt : st.taken hub < k) (le : k ≤ (hub.arrived st.rx).length)
    (streaming : st.phase = .streaming) (connected : st.out.receiverDropped = false)
    (running : st.exit = none) (wellFormed : hub.WellFormed)
    (opened : ∀ {rx : Receiver}, hub.receivers[st.rx]? = some rx → rx.live →
      (hub.channel rx.channel).closed = false) :
    (st.act db hub .pipe).2.exit = some .lagged ∨
      (st.act db hub .pipe).2.taken (st.act db hub .pipe).1 = st.taken hub + 1 := by
  have undropped : ¬st.filtered.receiverDropped := fun hr =>
    (s.receiver hr).elim (by simp [connected]) (· running)
  have unclosed {rx : Receiver} (hr : hub.receivers[st.rx]? = some rx) :=
    s.unclosed opened streaming running hr
  have suffix := (wellFormed.queue_suffix st.rx).length_le
  have hq : hub.queue st.rx ≠ [] := by
    intro hq
    unfold Stream.taken at lt
    rw [hq, List.length_nil] at lt
    omega
  have taken {n : Nat} {m : Message} (hq : hub.queue st.rx = m :: (hub.moveTo st.rx n).queue st.rx) :
      ((hub.moveTo st.rx n).arrived st.rx).length - ((hub.moveTo st.rx n).queue st.rx).length =
        st.taken hub + 1 := by
    have := congrArg List.length hq
    simp only [List.length_cons] at this
    unfold Stream.taken
    rw [Hub.arrived_moveTo]
    omega
  cases hs : st.startingPoint
  case' none => have piped := pipeBroadcast_progress st.keep st.out hq (by simp [connected]) unclosed
  case' some => have piped := pipeBroadcast_progress st.keep st.filtered hq undropped unclosed
  all_goals
    obtain hl | ⟨m, n, hq', hp⟩ := piped
    · exact .inl <| by simp [Stream.act, Stream.pipe, streaming, running, hs, hl]
    · refine .inr ?_
      simp only [Stream.act, Stream.pipe, streaming, running, hs, hp]
      exact taken hq'

-- It does help, unless the stream turns out to lag.
theorem Helps.act (help : st.Helps hub k l a) (s : st.Sound hub)
    (streaming : st.phase = .streaming) (connected : st.out.receiverDropped = false)
    (running : st.exit = none) (le : k ≤ (hub.arrived st.rx).length) (wellFormed : hub.WellFormed)
    (opened : ∀ {rx : Receiver}, hub.receivers[st.rx]? = some rx → rx.live →
      (hub.channel rx.channel).closed = false) :
    (st.act db hub a).2.exit = some .lagged ∨
      (st.act db hub a).2.remaining (st.act db hub a).1 k l <
        st.remaining hub k l := by
  have stays : a ≠ .disconnect := by
    rintro rfl
    exact help
  refine (act_advances streaming connected stays).elim .inl fun advances => ?_
  have nt := advances.taken
  have np := advances.passed
  have nr := advances.received.length_le
  cases a
  case fetch | abandon | disconnect => exact help.elim
  case recv =>
    have received : (st.act db hub .recv).2.received.length = st.received.length + 1 :=
      received_recv help.right connected
    have lt := help.left
    refine .inr ?_
    unfold remaining
    omega
  case redirect =>
    have passed : (st.act db hub .redirect).2.passed.length = st.passed.length + 1 :=
      s.passed_redirect help.right streaming connected running
    have lt := help.left
    refine .inr ?_
    unfold remaining
    omega
  case pipe =>
    refine (s.taken_pipe help le streaming connected running wellFormed opened).imp id fun taken => ?_
    have lt : st.taken hub < k := help
    unfold remaining
    omega

-- Of what has left the broadcast channel, all that is kept has been forwarded.
theorem Sound.isPrefix_forwarded (s : st.Sound hub) (wellFormed : hub.WellFormed)
    (streaming : st.phase = .streaming) (running : st.exit = none) {messages : List Message}
    (pre : messages <+: hub.arrived st.rx) (le : messages.length ≤ st.taken hub) :
    st.fetched ++ messages.filterMap st.keep <+: st.forwarded := by
  have ⟨gone, hg⟩ := wellFormed.queue_suffix st.rx
  have flow := s.flow streaming running
  rw [Stream.expected, ← hg, List.filterMap_append, ← List.append_assoc] at flow
  rw [List.append_cancel_right flow, List.prefix_append_right_inj]
  have length : st.taken hub = gone.length := by
    rw [Stream.taken, ← hg, List.length_append, Nat.add_sub_cancel]
  exact (List.prefix_of_prefix_length_le pre ⟨_, hg⟩ <| length ▸ le).filterMap _

-- As long as not all has been received, there is something that helps.
theorem Sound.exists_helps (s : st.Sound hub) (wellFormed : hub.WellFormed)
    (streaming : st.phase = .streaming) (running : st.exit = none) {messages : List Message}
    (pre : messages <+: hub.arrived st.rx)
    (short : st.received.length < (st.fetched ++ messages.filterMap st.keep).length) :
    ∃ a ∈ [Action.pipe, .redirect, .recv], st.Helps hub messages.length
      (st.fetched ++ messages.filterMap st.keep).length a := by
  by_cases hr : st.received.length < st.passed.length
  case pos => exact ⟨.recv, by simp, short, hr⟩
  by_cases hp : st.passed.length < st.forwarded.length
  case pos => exact ⟨.redirect, by simp, by omega, hp⟩
  refine ⟨.pipe, by simp, not_le.mp fun le => ?_⟩
  have := (s.isPrefix_forwarded wellFormed streaming running pre le).length_le
  omega

end Stream

namespace World

variable {w : World} {i : Nat} {st : Stream} {e : Event}

-- What happens elsewhere can only add to what is queued for a stream.
theorem step_grows (c : w.Coherent) (hi : w.streams[i]? = some st) (he : ∀ a, e ≠ .stream i a) :
    Hub.Grows st.rx w.hub (w.step e).hub := by
  have same {hub : Hub Message} (hq : hub.queue st.rx = w.hub.queue st.rx)
      (ha : hub.arrived st.rx = w.hub.arrived st.rx) : Hub.Grows st.rx w.hub hub :=
    ⟨[], by rw [hq, List.append_nil], by rw [ha, List.append_nil]⟩
  cases e
  case create m =>
    change Hub.Grows st.rx w.hub (w.create m).hub
    rw [c.create_eq]
    exact .refl
  case cleanup => exact same rfl rfl
  case announce m =>
    change Hub.Grows st.rx w.hub (w.announce m).hub
    unfold announce
    split
    · exact c.wired.handleNewMessage_grows m
    · exact .refl
  case register u startingPoint =>
    have hr : st.rx < w.handler.hub.receivers.length := by
      rw [c.numbered hi, ← c.length]
      exact (List.getElem?_eq_some_iff.mp hi).choose
    have ⟨_, queue, arrived⟩ := c.wired.register_others (u := u) hr
    exact same queue arrived
  case stream j a =>
    have hj : j ≠ i := fun hj => he a (hj ▸ rfl)
    change Hub.Grows st.rx w.hub (w.onStream j a).hub
    cases hs : w.streams[j]?
    case none =>
      unfold onStream
      rw [hs]
      exact .refl
    case some st' =>
      have frame := st'.act_frame w.db w.hub a
      rw [onStream_eq hs]
      exact same (frame.queue <| by rwa [c.numbered hi, c.numbered hs, ne_comm]) (frame.arrived' _)

theorem step_advances (c : w.Coherent) (hi : w.streams[i]? = some st) (streaming : st.phase = .streaming)
    (connected : st.out.receiverDropped = false) (stays : e ≠ .stream i .disconnect) : ∃ st',
      (w.step e).streams[i]? = some st' ∧
        (st'.exit = some .lagged ∨ Stream.Advances w.hub st (w.step e).hub st') := by
  by_cases he : ∃ a, e = .stream i a
  case pos =>
    obtain ⟨a, rfl⟩ := he
    have hl := (List.getElem?_eq_some_iff.mp hi).choose
    rw [step, onStream_eq hi]
    exact ⟨_, List.getElem?_set_self hl, Stream.act_advances streaming connected fun ha => stays <| ha ▸ rfl⟩
  case neg =>
    have he : ∀ a, e ≠ .stream i a := fun a ha => he ⟨a, ha⟩
    obtain ⟨a, ha, _⟩ | hi' := step_streams c e hi
    · exact absurd ha <| he a
    · exact ⟨st, hi', .inr <| .of_grows streaming connected <| step_grows c hi he⟩

-- Everything that has come for a stream up to some moment is received in the end, in that order, if its
-- tasks and its reader go on and on, unless it turns out to lag.
theorem eventually_received {es : ℕ → Event} (fair : System.Fair (Event.Serves i) es) {n : ℕ}
    (stays : ∀ k ≥ n, es k ≠ .stream i .disconnect) (hi : (system.states empty es n).streams[i]? = some st)
    (streaming : st.phase = .streaming) (connected : st.out.receiverDropped = false) :
    ∃ k ≥ n, ∃ st', (system.states empty es k).streams[i]? = some st' ∧
      (st'.exit = some .lagged ∨ st.expected (system.states empty es n).hub <+: st'.received) := by
  have init : (system.states empty es n).Coherent := coherent_invariant.run _
  generalize hub₀ : (system.states empty es n).hub = hub at init ⊢
  let k := (hub.arrived st.rx).length
  let l := (st.expected hub).length
  have running {w : World} {st' : Stream} (c : w.Coherent) (hi : w.streams[i]? = some st')
      (advances : Stream.Advances hub st w.hub st') (short : ¬∃ st', w.streams[i]? = some st' ∧
        (st'.exit = some .lagged ∨ st.expected hub <+: st'.received)) : st'.exit = none := by
    refine (c.sound hi).running ⟨advances.streaming, fun lagged => ?_, advances.connected⟩
    exact short ⟨st', hi, .inl lagged⟩
  refine fair.leadsTo (S := system) (q := (· ≠ .stream i .disconnect))
    (I := fun w => w.Coherent ∧ ∃ st', w.streams[i]? = some st' ∧ Stream.Advances hub st w.hub st')
    (G := fun w => ∃ st', w.streams[i]? = some st' ∧
      (st'.exit = some .lagged ∨ st.expected hub <+: st'.received))
    (H := fun w e => ∃ a st', e = .stream i a ∧ w.streams[i]? = some st' ∧ st'.Helps w.hub k l a)
    (μ := fun w => w.streams[i]?.elim 0 (·.remaining w.hub k l)) ?step ?progress ?helps ?stays stays ?init
  case init => exact ⟨init, st, hi, hub₀ ▸ .of_grows streaming connected .refl⟩
  case step =>
    intro w e ⟨c, st', hi, advances⟩ _ he
    have ⟨st'', hi', next⟩ := step_advances c hi advances.streaming advances.connected he
    refine next.imp (⟨st'', hi', .inl ·⟩) fun next => ?_
    refine ⟨⟨coherent_invariant.step e c, st'', hi', advances.trans next⟩, ?_⟩
    change (w.step e).streams[i]?.elim 0 _ ≤ _
    rw [hi, hi']
    exact next.remaining_le
  case progress =>
    intro w ⟨c, st', hi, advances⟩ short
    have running := running c hi advances short
    have sound := c.sound hi
    have pre : hub.arrived st.rx <+: w.hub.arrived st'.rx := by
      rw [advances.rx]
      exact advances.arrived
    have same : st'.fetched ++ (hub.arrived st.rx).filterMap st'.keep = st.expected hub := by
      rw [advances.fetched, advances.keep]
      rfl
    have lt : st'.received.length < (st.expected hub).length := not_le.mp fun le => by
      refine short ⟨st', hi, .inr <| List.prefix_of_prefix_length_le advances.expected ?_ le⟩
      rw [Stream.expected_eq]
      exact sound.received_isPrefix
    have ⟨a, ha, help⟩ := sound.exists_helps c.wired.hub advances.streaming running pre (same ▸ lt)
    rw [same] at help
    exact ⟨.stream i a, ⟨rfl, ha⟩, a, st', rfl, hi, help⟩
  case helps =>
    rintro w _ ⟨c, st', hi, advances⟩ short ⟨a, st'', rfl, hi', help⟩
    cases hi.symm.trans hi'
    have le : k ≤ (w.hub.arrived st'.rx).length := by
      rw [advances.rx]
      exact advances.arrived.length_le
    have next : (st'.act w.db w.hub a).2.exit = some .lagged ∨
        (st'.act w.db w.hub a).2.remaining (st'.act w.db w.hub a).1 k l < st'.remaining w.hub k l :=
      help.act (c.sound hi) advances.streaming advances.connected (running c hi advances short) le c.wired.hub
        (c.opened hi)
    have hl := (List.getElem?_eq_some_iff.mp hi).choose
    have hi' : (system.step w (.stream i a)).streams[i]? = some (st'.act w.db w.hub a).2 := by
      change (w.onStream i a).streams[i]? = _
      rw [onStream_eq hi, List.getElem?_set_self hl]
    have hub' : (system.step w (.stream i a)).hub = (st'.act w.db w.hub a).1 := by
      change (w.onStream i a).hub = _
      rw [onStream_eq hi]
    refine next.imp (⟨_, hi', .inl ·⟩) fun lt => ?_
    rw [hi, hi', hub']
    exact lt
  case stays =>
    rintro w _ e ⟨c, st', hi, advances⟩ _ he ⟨a, st'', rfl, hi', help⟩
    cases hi.symm.trans hi'
    have ⟨st'', hi', next⟩ := step_advances c hi advances.streaming advances.connected he
    refine next.imp (⟨st'', hi', .inl ·⟩) fun next => (next.helps help).imp (fun lt => ?_) fun help => ?_
    · change (w.step e).streams[i]?.elim 0 _ < _
      rw [hi, hi']
      exact lt
    · exact ⟨a, st'', rfl, hi', help⟩

-- The messages for the user of a stream, apart from some, have come for it or are still to be announced.
def Accounted (w : World) (i : Nat) (apart : List Message) : Prop :=
  ∀ st m, w.streams[i]? = some st → w.hub.Live st.rx → m.Concerns st.userId → m ∈ w.messages →
    m ∉ apart → m ∈ w.hub.arrived st.rx ∨ m ∈ w.pending

theorem Accounted.step {apart : List Message} (h : w.Accounted i apart) (c : w.Coherent)
    (hi : w.streams[i]? = some st) (he : w.Unblocked e) : (w.step e).Accounted i apart := by
  intro st' m hi' hl hu hm hn
  have ⟨user, rx⟩ : st'.userId = st.userId ∧ st'.rx = st.rx := by
    obtain ⟨a, _, hi''⟩ | hi'' := step_streams c e hi <;> cases hi'.symm.trans hi''
    · have ⟨user, _, rx⟩ := st.act_fixed w.db w.hub a
      exact ⟨user, rx⟩
    · exact ⟨rfl, rfl⟩
  rw [rx] at hl ⊢
  rw [user] at hu
  have ⟨live, conserved⟩ := step_conserved c hi hu he hl
  have more := (step_messages c e).sublist.count_le m
  have stored := List.count_pos_iff.mpr hm
  by_contra none
  have ⟨arrived, pending⟩ := not_or.mp none
  rw [List.count_eq_zero_of_not_mem arrived, List.count_eq_zero_of_not_mem pending] at conserved
  by_cases hm : m ∈ w.messages
  case pos =>
    have before := (h st m hi live hu hm hn).imp List.count_pos_iff.mpr List.count_pos_iff.mpr
    omega
  case neg =>
    rw [List.count_eq_zero_of_not_mem hm] at conserved
    omega

-- A stream which a step adds is new.
theorem step_streams_none (c : w.Coherent) (hi : w.streams[i]? = none)
    (hi' : (w.step e).streams[i]? = some st) :
    ∃ userId startingPoint rx, st = .new userId startingPoint rx := by
  have none : w.streams[i]? ≠ some st := fun hi' => nomatch hi.symm.trans hi'
  cases e
  case create m   => rw [step, c.create_eq] at hi'; exact absurd hi' none
  case cleanup    => exact absurd hi' none
  case announce m =>
    simp only [step, announce] at hi'
    split at hi' <;> exact absurd hi' none
  case register u startingPoint =>
    have hl := List.getElem?_eq_none_iff.mp hi
    simp only [step, register, List.getElem?_append_right hl] at hi'
    exact ⟨_, _, _, (List.mem_singleton.mp <| List.mem_of_getElem? hi')⟩
  case stream j a =>
    simp only [step, onStream] at hi'
    split at hi'
    · exact absurd hi' none
    · rw [List.getElem?_eq_none (by simpa using hi)] at hi'
      cases hi'

-- What calls which resume have not found in the store comes live, or has come.
def CaughtUp (w : World) : Prop :=
  ∀ i st, w.streams[i]? = some st → st.phase = .streaming → st.startingPoint.isSome →
    w.Accounted i st.stored

theorem CaughtUp.step (h : w.CaughtUp) (c : w.Coherent) (he : w.Unblocked e) : (w.step e).CaughtUp := by
  intro i st' hi' streaming resumes
  cases hi : w.streams[i]?
  case none =>
    obtain ⟨_, startingPoint, _, rfl⟩ := step_streams_none c hi hi'
    have resumes : startingPoint.isSome := resumes
    simp [Stream.new, resumes] at streaming
  case some st =>
    obtain ⟨a, rfl, hi''⟩ | hi'' := step_streams c e hi <;> cases hi''.symm.trans hi'
    · have fixed := (st.act_fixed w.db w.hub a).right.left
      obtain ⟨before, stored⟩ | stored := st.act_stored w.db w.hub a streaming
      · exact stored ▸ (h i st hi before <| fixed ▸ resumes).step c hi he
      · intro _ m _ _ _ hm hn
        rw [(step_messages_eq c (.stream i a)).trans <| List.append_nil _] at hm
        exact absurd (stored ▸ hm) hn
    · exact (h i _ hi streaming resumes).step c hi he

theorem caughtUp_run {es : List Event} (unblocked : system.Along Unblocked empty es) :
    (system.run es).CaughtUp := by
  have start : empty.Coherent ∧ empty.CaughtUp := ⟨.empty, by simp [CaughtUp, empty]⟩
  have step {w : World} (e : Event) (he : w.Unblocked e) (h : w.Coherent ∧ w.CaughtUp) :
      (w.step e).Coherent ∧ (w.step e).CaughtUp :=
    ⟨coherent_invariant.step e h.left, h.right.step h.left he⟩
  exact (unblocked.induction (P := fun w => w.Coherent ∧ w.CaughtUp) start step).right

section Schedules

variable {es : ℕ → Event} {n : ℕ} {m : Message}

theorem coherent_states (es : ℕ → Event) (n : ℕ) : (system.states empty es n).Coherent :=
  coherent_invariant.run _

theorem states_messages {k : ℕ} (le : n ≤ k) :
    (system.states empty es n).messages <+: (system.states empty es k).messages := by
  induction k, le using Nat.le_induction
  case base         => exact List.prefix_rfl
  case succ k le ih =>
    rw [System.states_succ]
    exact ih.trans <| step_messages (coherent_states es k) (es k)

-- From some moment on a stream goes on for good.
def Lasts (es : ℕ → Event) (i n : ℕ) (st : Stream) : Prop :=
  ∀ k ≥ n, ∃ st', (system.states empty es k).streams[i]? = some st' ∧ st'.exit = none ∧
    Stream.Advances (system.states empty es n).hub st (system.states empty es k).hub st'

theorem lasts (hi : (system.states empty es n).streams[i]? = some st) (undisturbed : st.Undisturbed)
    (stays : ∀ k ≥ n, es k ≠ .stream i .disconnect) (unlagged : ∀ k ≥ n, ∀ st',
      (system.states empty es k).streams[i]? = some st' → st'.exit ≠ some .lagged) : Lasts es i n st := by
  have running {k : ℕ} {st' : Stream} (hk : k ≥ n) (hi : (system.states empty es k).streams[i]? = some st')
      (advances : Stream.Advances (system.states empty es n).hub st (system.states empty es k).hub st') :
      st'.exit = none :=
    ((coherent_states es k).sound hi).running
      ⟨advances.streaming, unlagged k hk st' hi, advances.connected⟩
  intro k hk
  induction k, hk using Nat.le_induction
  case base =>
    have advances : Stream.Advances (system.states empty es n).hub st (system.states empty es n).hub st :=
      .of_grows undisturbed.streaming undisturbed.connected .refl
    exact ⟨st, hi, running le_rfl hi advances, advances⟩
  case succ k hk ih =>
    have ⟨st', hi, _, advances⟩ := ih
    have step : system.states empty es (k + 1) = (system.states empty es k).step (es k) := System.states_succ
    have ⟨st'', hi', next⟩ := step_advances (coherent_states es k) hi advances.streaming advances.connected
      (stays k hk)
    rw [← step] at hi' next
    have advances := advances.trans <| next.resolve_left <| unlagged (k + 1) (by omega) st'' hi'
    exact ⟨st'', hi', running (by omega) hi' advances, advances⟩

variable (unblocked : ∀ k, (system.states empty es k).Unblocked (es k))
  (announced : ∀ k, ∀ m ∈ (system.states empty es k).pending, ∃ j ≥ k, es j = .announce m)
  (ids : ∀ k, ((system.states empty es k).messages.map (·.id)).Nodup)

include unblocked announced ids

-- What is still to be announced comes.
theorem Lasts.eventually_arrived (h : Lasts es i n st) {apart : List Message}
    (accounted : (system.states empty es n).Accounted i apart) (hu : m.Concerns st.userId) {k : ℕ}
    (hk : k ≥ n) (hm : m ∈ (system.states empty es k).messages) (hn : m ∉ apart) : ∃ k ≥ n,
      m ∈ (system.states empty es k).hub.arrived st.rx := by
  have accounted (j : ℕ) (hj : j ≥ n) : (system.states empty es j).Accounted i apart := by
    induction j, hj using Nat.le_induction
    case base         => exact accounted
    case succ j hj ih =>
      have ⟨st', hi, _⟩ := h j hj
      rw [System.states_succ]
      exact ih.step (coherent_states es j) hi (unblocked j)
  have either (j : ℕ) (hj : j ≥ k) : m ∈ (system.states empty es j).hub.arrived st.rx ∨
      m ∈ (system.states empty es j).pending := by
    have ⟨st', hi, running, advances⟩ := h j (by omega)
    have live := ((coherent_states es j).sound hi).live (by simp [advances.streaming]) running
    have either :=
      accounted j (by omega) st' m hi live (advances.userId ▸ hu) ((states_messages hj).subset hm) hn
    rwa [advances.rx] at either
  obtain arrived | pending := either k le_rfl
  · exact ⟨k, hk, arrived⟩
  obtain ⟨j, hj, he⟩ := announced k m pending
  obtain arrived | pending := either j hj
  · exact ⟨j, by omega, arrived⟩
  -- It has been pending once, and is not any more.
  refine ⟨j + 1, by omega, (either (j + 1) (by omega)).resolve_right fun again => ?_⟩
  rw [System.states_succ, he] at again
  have erased : (system.step (system.states empty es j) (.announce m)).pending =
      (system.states empty es j).pending.erase m := by
    change (World.announce _ m).pending = _
    rw [World.announce, if_pos pending]
  have once := List.nodup_iff_count_le_one.mp ((ids j).of_map _) m
  have count := (coherent_states es j).arrived_count_le st.rx m
  have again := List.count_pos_iff.mpr <| erased ▸ again
  rw [List.count_erase_self] at again
  omega

-- A message for a user who listens, and which has been stored behind the starting point or is stored yet,
-- is received just once for good, unless the stream lags: if the tasks of the stream and its reader go on
-- and on, every message is announced, and no announcement ends early at a stale entry.
theorem eventually_delivered (fair : System.Fair (Event.Serves i) es)
    (hi : (system.states empty es n).streams[i]? = some st) (undisturbed : st.Undisturbed)
    (stays : ∀ k ≥ n, es k ≠ .stream i .disconnect) (hu : m.Concerns st.userId)
    (due : (∃ s, st.startingPoint = some s ∧
        m ∈ (system.states empty es n).messages.skipPast (·.id == s)) ∨
      (m ∉ (system.states empty es n).messages ∧ ∃ k, m ∈ (system.states empty es k).messages)) :
    (∃ k ≥ n, ∃ st', (system.states empty es k).streams[i]? = some st' ∧ st'.exit = some .lagged) ∨
      ∃ k ≥ n, ∀ j ≥ k, ∃ st', (system.states empty es j).streams[i]? = some st' ∧
        st'.received.count m = 1 := by
  by_cases lagged : ∃ k ≥ n, ∃ st', (system.states empty es k).streams[i]? = some st' ∧
      st'.exit = some .lagged
  case pos => exact .inl lagged
  have unlagged (k : ℕ) (hk : k ≥ n) (st' : Stream)
      (hi : (system.states empty es k).streams[i]? = some st') : st'.exit ≠ some .lagged :=
    fun hx => lagged ⟨k, hk, st', hi, hx⟩
  have lasting := lasts hi undisturbed stays unlagged
  have c := coherent_states es n
  have ⟨k, hk, hm⟩ : ∃ k ≥ n, m ∈ st.fetched ∨ m ∈ (system.states empty es k).hub.arrived st.rx := by
    obtain ⟨s, hs, hm⟩ | ⟨hn, k, hm⟩ := due
    · by_cases stored : m ∈ st.stored
      case pos =>
        have pre := (c.fetched hi).stored
        refine ⟨n, le_rfl, .inl <| (c.mem_fetched_iff hi hs hu).mpr ?_⟩
        exact (mem_skipPast_iff_of_isPrefix pre ((ids n).of_map _) stored).mp hm
      case neg =>
        have caughtUp := caughtUp_run <| System.Along.states unblocked n
        have accounted := caughtUp i st hi undisturbed.streaming (by simp [hs])
        have ⟨k, hk, hm⟩ := lasting.eventually_arrived unblocked announced ids accounted hu le_rfl
          (List.mem_of_mem_skipPast hm) stored
        exact ⟨k, hk, .inr hm⟩
    · have hk : k ≥ n := by
        by_contra lt
        exact hn <| (states_messages <| by omega).subset hm
      have ⟨k, hk, hm⟩ := lasting.eventually_arrived unblocked announced ids
        (fun _ _ _ _ _ hm hn => absurd hm hn) hu hk hm hn
      exact ⟨k, hk, .inr hm⟩
  have ⟨st₁, hi₁, _, advances₁⟩ := lasting k hk
  have expected : (st₁.expected (system.states empty es k).hub).count m = 1 := by
    rw [Stream.expected_eq, (coherent_states es k).count_expected (ids k) hi₁, advances₁.fetched,
      advances₁.rx]
    exact if_pos hm
  have ⟨k', hk', st₂, hi₂, received⟩ := eventually_received fair (fun k' hk' => stays k' (by omega)) hi₁
    advances₁.streaming advances₁.connected
  have ⟨_, hi', _, advances₂⟩ := lasting k' (by omega)
  cases hi₂.symm.trans hi'
  have pre := received.resolve_left <| unlagged k' (by omega) st₂ hi₂
  have lasting := lasts hi₂ ⟨advances₂.streaming, unlagged k' (by omega) st₂ hi₂, advances₂.connected⟩
    (fun j hj => stays j (by omega)) fun j hj => unlagged j (by omega)
  refine .inr ⟨k', by omega, fun j hj => ?_⟩
  have ⟨st₃, hi₃, _, advances₃⟩ := lasting j hj
  have atLeast := (pre.trans advances₃.received).sublist.count_le m
  have atMost := ((coherent_states es j).sound hi₃).received_isPrefix.sublist.count_le m
  rw [(coherent_states es j).count_expected (ids j) hi₃] at atMost
  refine ⟨st₃, hi₃, ?_⟩
  split at atMost <;> omega

end Schedules

-- A user listens, and gets a note which he then writes to himself.
theorem eventually_delivered_example :
    let m : Message := ⟨10, 1, 1, "note", 0⟩
    let es : ℕ → Event
      | 0     => .register 1 none
      | 1     => .create m
      | n + 2 =>
        match n % 4 with
        | 0 => .announce m
        | 1 => .stream 0 .pipe
        | 2 => .stream 0 .redirect
        | _ => .stream 0 .recv
    (∃ k ≥ 1, ∃ st, (system.states empty es k).streams[0]? = some st ∧ st.exit = some .lagged) ∨
      ∃ k ≥ 1, ∀ j ≥ k, ∃ st, (system.states empty es j).streams[0]? = some st ∧
        st.received.count m = 1 := by
  intro m es
  have turn (k r : ℕ) (hr : r < 4) : es (4 * k + r + 2) = es (r + 2) := by
    change (match (4 * k + r) % 4 with | 0 => _ | 1 => _ | 2 => _ | _ => _) = _
    rw [Nat.mul_add_mod]
  have events (k : ℕ) : es k ∈ [.register 1 none, .create m, .announce m, .stream 0 .pipe,
      .stream 0 .redirect, .stream 0 .recv] := by
    match k with
    | 0     => simp [es]
    | 1     => simp [es]
    | k + 2 =>
      change (match k % 4 with | 0 => _ | 1 => _ | 2 => _ | _ => _) ∈ _
      split <;> simp
  have messages (k : ℕ) : (system.states empty es (k + 2)).messages = [m] := by
    induction k
    case zero => decide
    case succ k ih =>
      have stored : (es (k + 2)).stored = none := by
        change (match k % 4 with | 0 => _ | 1 => _ | 2 => _ | _ => _ : Event).stored = _
        split <;> rfl
      rw [System.states_succ]
      refine (step_messages_eq (coherent_states es _) _).trans ?_
      rw [ih, stored]
      rfl
  have known (k : ℕ) :
      (system.states empty es k).messages = [] ∨ (system.states empty es k).messages = [m] :=
    match k with
    | 0     => .inl (by decide)
    | 1     => .inl (by decide)
    | k + 2 => .inr <| messages k
  refine eventually_delivered (n := 1) (m := m) (i := 0) ?unblocked ?announced ?ids ?fair rfl
    ⟨rfl, nofun, rfl⟩ ?stays (.inl rfl) (.inr ⟨by decide, 2, by decide⟩)
  case unblocked =>
    intro k m' he blocked
    have hm := events k
    rw [he] at hm
    obtain rfl : m' = m := by simpa using hm
    exact blocked.left rfl
  case announced =>
    intro k m' hm
    have pending := (coherent_states es k).arrived_count_le 0 m'
    have hm : m' ∈ (system.states empty es k).messages := List.count_pos_iff.mp <| by
      have := List.count_pos_iff.mpr hm
      omega
    obtain rfl : m' = m := by
      obtain none | one := known k
      · exact absurd hm (none ▸ List.not_mem_nil)
      · exact List.mem_singleton.mp <| one ▸ hm
    exact ⟨4 * k + 0 + 2, by omega, turn k 0 (by omega)⟩
  case ids =>
    intro k
    obtain none | one := known k
    · exact none ▸ List.nodup_nil
    · exact one ▸ List.nodup_singleton _
  case fair =>
    intro e he k
    cases e
    case stream j a =>
      obtain ⟨rfl, ha⟩ := he
      simp only [List.mem_cons, List.not_mem_nil, or_false] at ha
      obtain rfl | rfl | rfl := ha
      · exact ⟨4 * k + 1 + 2, by omega, turn k 1 (by omega)⟩
      · exact ⟨4 * k + 2 + 2, by omega, turn k 2 (by omega)⟩
      · exact ⟨4 * k + 3 + 2, by omega, turn k 3 (by omega)⟩
    all_goals exact he.elim
  case stays =>
    intro k _ he
    have hm := events k
    rw [he] at hm
    simp at hm

end World
end Pheidippides
