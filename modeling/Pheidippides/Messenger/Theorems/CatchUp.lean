import Pheidippides.Messenger.Theorems.World
import Pheidippides.Objects.Theorems.Messages
import Mathlib.Data.List.Nodup

open Broadcast

namespace Pheidippides

namespace Stream

variable {st : Stream} {hub : Hub Message} {messages : List Message} {m : Message}

theorem expected_eq (st : Stream) (hub : Hub Message) :
    st.expected hub = st.fetched ++ st.live hub := by
  rw [expected, live, ← List.filterMap_eq_filter]
  congr 2
  funext m
  by_cases h : m.id ∈ st.sentMessages <;> simp [keep, Option.guard, h]

theorem Sound.running (s : st.Sound hub) (h : st.Undisturbed) : st.exit = none := by
  by_contra hx
  obtain hr | hx := s.ended hx
  · simp [h.connected] at hr
  · exact h.unlagged hx

theorem Sound.received_isPrefix (s : st.Sound hub) : st.received <+: st.fetched ++ st.live hub := by
  have h := s.cut
  rw [expected_eq, forwarded, List.append_assoc] at h
  exact (List.prefix_append ..).trans h

theorem Sound.received_eq (s : st.Sound hub) (h : st.Undisturbed) (d : st.Drained hub) :
    st.received = st.fetched ++ st.live hub := by
  simpa [forwarded, d.rx, d.filtered, d.out, expected_eq] using s.flow h.streaming (s.running h)

-- What remains to be done until a stream is drained.
def backlog (hub : Hub Message) (st : Stream) : Nat :=
  3 * (hub.queue st.rx).length + 2 * st.filtered.queue.length + st.out.queue.length

-- As long as a stream is not drained, one of its tasks or its reader can go on.
theorem Sound.progress (db : MockDb) (s : st.Sound hub) (h : st.Undisturbed) (hd : ¬st.Drained hub)
    (opened : ∀ {rx : Receiver}, hub.receivers[st.rx]? = some rx → rx.live →
      (hub.channel rx.channel).closed = false) :
    ∃ a, (st.act db hub a).2.exit = some .lagged ∨ ((st.act db hub a).2.Undisturbed ∧
      backlog (st.act db hub a).1 (st.act db hub a).2 < backlog hub st) := by
  have running := s.running h
  have connected : ¬st.filtered.receiverDropped := fun hr =>
    (s.receiver hr).elim (by simp [h.connected]) (· running)
  have unclosed {rx : Receiver} (hr : hub.receivers[st.rx]? = some rx) :=
    s.unclosed opened h.streaming running hr
  have kept (m : Message) : (st.keep m).toList.length ≤ 1 := by
    cases st.keep m <;> simp
  by_cases hq : hub.queue st.rx = []
  case neg =>
    refine ⟨.pipe, ?_⟩
    cases hs : st.startingPoint
    case' none =>
      have piped := pipeBroadcast_progress st.keep st.out hq (by simp [h.connected]) unclosed
    case' some =>
      have piped := pipeBroadcast_progress st.keep st.filtered hq connected unclosed
    all_goals
      obtain hl | ⟨m, n, hq', hp⟩ := piped
      · exact .inl <| by simp [Stream.act, Stream.pipe, h.streaming, running, hs, hl]
      · have := congrArg List.length hq'
        have := kept m
        simp only [Stream.act, Stream.pipe, h.streaming, running, hs, hp]
        refine .inr ⟨⟨rfl, by simp, h.connected⟩, ?_⟩
        simp only [backlog, List.length_append, List.length_cons] at *
        omega
  by_cases hf : st.filtered.queue = []
  case neg =>
    have hs : st.startingPoint.isSome := by
      by_contra hs
      exact hf <| s.direct <| by simpa using hs
    obtain ⟨m, q, hf', hr⟩ :=
      redirectUnboundedChannel_progress st.out hf (by simp [h.connected])
    refine ⟨.redirect, .inr ?_⟩
    simp only [Stream.act, Stream.redirect, if_pos (show _ ∧ _ ∧ _ from ⟨h.streaming, hs, connected⟩), hr]
    refine ⟨⟨h.streaming, h.unlagged, h.connected⟩, ?_⟩
    have := congrArg List.length hf'
    simp only [backlog, Unbounded.send, List.length_append, List.length_cons, List.length_nil] at *
    omega
  cases ho : st.out.queue
  case nil        => exact absurd ⟨hq, hf, ho⟩ hd
  case cons m out =>
    refine ⟨.recv, .inr ?_⟩
    simp only [Stream.act, Stream.recv, h.connected, ho]
    exact ⟨⟨h.streaming, h.unlagged, rfl⟩, by simp [backlog, ho]⟩

end Stream

namespace World

variable {w : World} {i : Nat} {st : Stream} {m : Message} {s : MessageId}

namespace Coherent

theorem arrived_count_le (c : w.Coherent) (r : ReceiverId) (m : Message) :
    (w.hub.arrived r).count m + w.pending.count m ≤ w.messages.count m := by
  rw [Hub.arrived]
  split
  case h_1      => exact (Nat.add_le_add_right (Nat.zero_le _) _).trans <| c.counted 0 m
  case h_2 rx _ =>
    refine (Nat.add_le_add_right ?_ _).trans <| c.counted rx.channel m
    exact (List.drop_sublist ..).count_le m

theorem mem_messages_of_mem_arrived (c : w.Coherent) {r : ReceiverId} (h : m ∈ w.hub.arrived r) :
    m ∈ w.messages := by
  have := c.arrived_count_le r m
  have := List.count_pos_iff.mpr h
  exact List.count_pos_iff.mp <| by omega

theorem fetched_eq (c : w.Coherent) (hi : w.streams[i]? = some st)
    (hs : st.startingPoint = some s) :
    st.fetched = MockDb.usersMessagesSince st.stored st.userId s := by
  simp [(c.fetched hi).fetched, hs]

theorem fetched_sublist (c : w.Coherent) (hi : w.streams[i]? = some st) :
    st.fetched.Sublist w.messages := by
  have f := c.fetched hi
  rw [f.fetched]
  split
  · exact List.nil_sublist _
  · exact (MockDb.usersMessagesSince_sublist ..).trans f.stored.sublist

end Coherent

theorem Coherent.mem_messages_of_mem_received (c : w.Coherent) (hi : w.streams[i]? = some st)
    (hm : m ∈ st.received) : m ∈ w.messages := by
  obtain hf | hl := List.mem_append.mp <| (c.sound hi).received_isPrefix.subset hm
  · exact (c.fetched_sublist hi).subset hf
  · exact c.mem_messages_of_mem_arrived <| List.mem_of_mem_filter hl

theorem eq_of_id_eq {ms : List Message} (ids : (ms.map (·.id)).Nodup) {m m' : Message}
    (hm : m ∈ ms) (hm' : m' ∈ ms) (he : m.id = m'.id) : m = m' :=
  List.inj_on_of_nodup_map ids hm hm' he

theorem mem_skipPast_iff_of_isPrefix {ms ms' : List Message} (h : ms <+: ms') (nodup : ms'.Nodup)
    (hm : m ∈ ms) {p : Message → Bool} : m ∈ ms'.skipPast p ↔ m ∈ ms.skipPast p := by
  have ⟨rest, hr⟩ := h
  have hd := List.disjoint_of_nodup_append <| hr.symm ▸ nodup
  exact hr ▸ List.mem_skipPast_append_iff <| hd hm

theorem Coherent.mem_fetched_iff (c : w.Coherent) (hi : w.streams[i]? = some st)
    (hs : st.startingPoint = some s) (hu : m.Concerns st.userId) :
    m ∈ st.fetched ↔ m ∈ st.stored.skipPast (·.id == s) := by
  simp [c.fetched_eq hi hs, MockDb.usersMessagesSince_eq, hu]

-- A message which has been fetched does not come live again.
theorem Coherent.count_expected (c : w.Coherent) (ids : (w.messages.map (·.id)).Nodup)
    (hi : w.streams[i]? = some st) (m : Message) : (st.fetched ++ st.live w.hub).count m =
      if m ∈ st.fetched ∨ m ∈ w.hub.arrived st.rx then 1 else 0 := by
  have nodup : w.messages.Nodup := ids.of_map _
  have sub := c.fetched_sublist hi
  have f := c.fetched hi
  rw [List.count_append, Stream.live]
  by_cases hf : m ∈ st.fetched
  · have sent : m.id ∈ st.sentMessages := f.sent ▸ List.mem_map_of_mem hf
    rw [if_pos (.inl hf), List.count_eq_one_of_mem (sub.nodup nodup) hf,
      List.count_eq_zero_of_not_mem (by simp [sent])]
  rw [List.count_eq_zero_of_not_mem hf]
  by_cases ha : m ∈ w.hub.arrived st.rx
  · have hm := c.mem_messages_of_mem_arrived ha
    have unsent : m.id ∉ st.sentMessages := by
      intro h
      have ⟨m', hf', he⟩ := List.mem_map.mp <| f.sent ▸ h
      exact hf <| eq_of_id_eq ids (sub.subset hf') hm he ▸ hf'
    have le := c.arrived_count_le st.rx m
    have once := List.nodup_iff_count_le_one.mp nodup m
    have pos := List.count_pos_iff.mpr ha
    rw [if_pos (.inr ha), List.count_filter (by simpa using unsent)]
    omega
  · rw [if_neg (not_or.mpr ⟨hf, ha⟩), List.count_eq_zero_of_not_mem (ha <| List.mem_of_mem_filter ·)]

-- The tasks of a stream can always bring it to an end of what it has to deliver, unless it lags.
theorem Coherent.exists_drained (c : w.Coherent) (hi : w.streams[i]? = some st)
    (h : st.Undisturbed) : ∃ (as : List Stream.Action) (st' : Stream),
      (system.exec w <| as.map (.stream i)).streams[i]? = some st' ∧ (st'.exit = some .lagged ∨
        st'.Undisturbed ∧ st'.Drained (system.exec w <| as.map (.stream i)).hub) := by
  generalize hn : Stream.backlog w.hub st = n
  induction n using Nat.strong_induction_on generalizing w st
  case h n ih =>
    by_cases hd : st.Drained w.hub
    · exact ⟨[], st, hi, .inr ⟨h, hd⟩⟩
    · have ⟨a, ha⟩ := (c.sound hi).progress w.db h hd (c.opened hi)
      have hl := (List.getElem?_eq_some_iff.mp hi).choose
      have hi' : (w.onStream i a).streams[i]? = some (st.act w.db w.hub a).2 := by
        rw [onStream_eq hi, List.getElem?_set_self hl]
      have hub' : (w.onStream i a).hub = (st.act w.db w.hub a).1 := by rw [onStream_eq hi]
      obtain hx | ⟨h', lt⟩ := ha
      · exact ⟨[a], _, hi', .inl hx⟩
      · have ⟨as, st', hs⟩ := ih _ (hn ▸ lt) (c.onStream i a) hi' h' (by rw [hub'])
        exact ⟨a :: as, st', hs⟩

-- A stream from some state on. As long as its receiver lives, what arrives is what is sent on the channel
-- of its user.
theorem exec_arrived (c : w.Coherent) (hi : w.streams[i]? = some st) (es : List Event) :
    ∃ st', (system.exec w es).streams[i]? = some st' ∧ st'.userId = st.userId ∧
      st'.startingPoint = st.startingPoint ∧ st'.rx = st.rx ∧
      ((system.exec w es).hub.Live st.rx → w.hub.Live st.rx ∧
        (system.exec w es).hub.arrived st.rx = w.hub.arrived st.rx ++ w.broadcasts st.userId es) := by
  induction es generalizing w st
  case nil => exact ⟨st, hi, rfl, rfl, rfl, fun hl => ⟨hl, (List.append_nil _).symm⟩⟩
  case cons e es ih =>
    obtain ⟨st₁, hi₁, user, point, rx⟩ : ∃ st₁, (w.step e).streams[i]? = some st₁ ∧
        st₁.userId = st.userId ∧ st₁.startingPoint = st.startingPoint ∧ st₁.rx = st.rx := by
      obtain ⟨a, _, hi'⟩ | hi' := step_streams c e hi
      · exact ⟨_, hi', st.act_fixed w.db w.hub a⟩
      · exact ⟨st, hi', rfl, rfl, rfl⟩
    have ⟨st', hi', user', point', rx', arrived⟩ := ih (coherent_invariant.step e c) hi₁
    refine ⟨st', hi', user'.trans user, point'.trans point, rx'.trans rx, fun hl => ?_⟩
    have ⟨live, arrived⟩ := arrived (rx ▸ hl)
    rw [rx] at live arrived
    have live := step_live c hi live
    have step : (system.step w e).hub.arrived st.rx = w.hub.arrived st.rx ++ w.broadcast st.userId e :=
      (step_broadcast c hi live e).right
    refine ⟨live, arrived.trans ?_⟩
    rw [step, user, List.append_assoc]
    rfl

-- What is announced for a user who has a live receiver is sent on the channel of the user.
theorem mem_broadcasts (c : w.Coherent) (hi : w.streams[i]? = some st) {es₁ es₂ : List Event}
    (hl : (system.exec w es₁).hub.Live st.rx) (hm : m ∈ (system.exec w es₁).pending)
    (hu : m.Concerns st.userId) (he : (system.exec w es₁).Unblocked (.announce m)) :
    m ∈ w.broadcasts st.userId (es₁ ++ .announce m :: es₂) := by
  induction es₁ generalizing w st
  case nil =>
    refine List.mem_append_left _ ?_
    have ⟨sent, _⟩ := step_broadcast c hi hl (.announce m)
    generalize w.broadcast st.userId (.announce m) = ms at sent
    cases sent with
    | announced     => exact List.mem_singleton_self m
    | silent missed => exact absurd (c.reaches hi hl hu he) <| missed m rfl hm
  case cons e es₁ ih =>
    refine List.mem_append_right _ ?_
    obtain ⟨a, _, hi'⟩ | hi' := step_streams c e hi
    · have ⟨user, _, rx⟩ := st.act_fixed w.db w.hub a
      exact user ▸ ih (coherent_invariant.step e c) hi' (rx ▸ hl) hm (user ▸ hu) he
    · exact ih (coherent_invariant.step e c) hi' hl hm hu he

-- The call that registers a stream, and the stream after it.
theorem register_streams (w : World) (u : UserId) (startingPoint : Option MessageId) :
    ∃ st, (w.register u startingPoint).streams[w.streams.length]? = some st ∧ st.userId = u ∧
      st.startingPoint = startingPoint ∧ (w.register u startingPoint).hub.arrived st.rx = [] :=
  have ⟨_, _, arrived⟩ := w.handler.register_self u
  ⟨_, List.getElem?_concat_length, rfl, rfl, arrived⟩

theorem Coherent.live_of_undisturbed (c : w.Coherent) (hi : w.streams[i]? = some st)
    (h : st.Undisturbed) : w.hub.Live st.rx :=
  (c.sound hi).live (by simp [h.streaming]) ((c.sound hi).running h)

-- Whatever the order of the steps, a message which is stored after the starting point comes exactly
-- once if it is there at the fetch or is sent on the user's channel after the registration, and nothing
-- else comes. What has been fetched is first, in the order of the store, then what has been sent, in that
-- order. What is announced for the user is sent there, and in the end all of it can be received.
theorem subscription_complete (es₁ es₂ : List Event) (u : UserId) (s : MessageId)
    (hi : (system.run (es₁ ++ .register u (some s) :: es₂)).streams[(system.run es₁).streams.length]? =
      some st)
    (ids : ((system.run (es₁ ++ .register u (some s) :: es₂)).messages.map (·.id)).Nodup)
    (h : st.Undisturbed) :
    let i  := (system.run es₁).streams.length
    let w₁ := system.run (es₁ ++ [.register u (some s)])
    let w  := system.run (es₁ ++ .register u (some s) :: es₂)
    (∀ m ∈ w.messages.skipPast (·.id == s), m.Concerns u →
      m ∈ st.stored ∨ m ∈ w₁.broadcasts u es₂ →
        st.received.count m ≤ 1 ∧ (st.Drained w.hub → st.received.count m = 1)) ∧
    (st.stored <+: w.messages ∧ st.fetched = MockDb.usersMessagesSince st.stored u s ∧
      st.received <+: st.fetched ++ (w₁.broadcasts u es₂).filter (·.id ∉ st.fetched.map (·.id))) ∧
    (∀ m ∈ st.received, m ∈ st.fetched ∨ m ∈ w₁.broadcasts u es₂) ∧
    (∀ {es₃ m es₄}, es₂ = es₃ ++ .announce m :: es₄ → m ∈ (system.exec w₁ es₃).pending →
      m.Concerns u → (system.exec w₁ es₃).Unblocked (.announce m) → m ∈ w₁.broadcasts u es₂) ∧
    ∃ (as : List Stream.Action) (st' : Stream),
      (system.exec w <| as.map (.stream i)).streams[i]? = some st' ∧ (st'.exit = some .lagged ∨
        st'.Undisturbed ∧ st'.Drained (system.exec w <| as.map (.stream i)).hub) := by
  intro i w₁ w
  have c  : w.Coherent := coherent_invariant.run _
  have c₁ : w₁.Coherent := coherent_invariant.run _
  have hw₁ : w₁ = (system.run es₁).register u (some s) := System.run_concat ..
  have hw  : w = system.exec w₁ es₂ := by
    rw [← System.run_append, List.append_assoc]
    rfl
  have ⟨st₁, hi₁, user₁, point₁, unsent⟩ := (system.run es₁).register_streams u (some s)
  rw [← hw₁] at hi₁ unsent
  have ⟨st', hi', user, point, rx, arrived⟩ := exec_arrived c₁ hi₁ es₂
  rw [← hw] at hi' arrived
  cases hi.symm.trans hi'
  have live : w.hub.Live st₁.rx := rx ▸ c.live_of_undisturbed hi h
  have arrived := (arrived live).right
  rw [unsent, List.nil_append, user₁, ← rx] at arrived
  have user := user.trans user₁
  have hs   := point.trans point₁
  have pre  := (c.sound hi).received_isPrefix
  have sent : st.sentMessages = st.fetched.map (·.id) := (c.fetched hi).sent
  refine ⟨?complete, ⟨(c.fetched hi).stored, user ▸ c.fetched_eq hi hs, ?order⟩, ?nothing, ?announced,
    c.exists_drained hi h⟩
  case complete =>
    intro m hm hu ha
    have hf : m ∈ st.fetched ∨ m ∈ w.hub.arrived st.rx := ha.imp
      (fun h => (c.mem_fetched_iff hi hs (user ▸ hu)).mpr <|
        (mem_skipPast_iff_of_isPrefix (c.fetched hi).stored (ids.of_map _) h).mp hm) (arrived ▸ ·)
    have once := (c.count_expected ids hi m).trans <| if_pos hf
    exact ⟨once ▸ pre.sublist.count_le m, fun hd => (c.sound hi).received_eq h hd ▸ once⟩
  case order =>
    rwa [Stream.live, arrived, sent] at pre
  case nothing =>
    intro m hm
    exact (List.mem_append.mp <| pre.subset hm).imp_right fun hl => arrived ▸ List.mem_of_mem_filter hl
  case announced =>
    rintro es₃ m es₄ rfl hm hu he
    rw [System.exec_append] at hw
    have ⟨st₃, hi₃, _, _, rx₃, _⟩ := exec_arrived c₁ hi₁ es₃
    have ⟨_, _, _, _, _, earlier⟩ :=
      exec_arrived (coherent_invariant.exec c₁ es₃) hi₃ (.announce m :: es₄)
    rw [← hw, rx₃] at earlier
    exact user₁ ▸ mem_broadcasts c₁ hi₁ (earlier live).left hm (user₁ ▸ hu) he

-- The second message is fetched and broadcast as well, the third one only broadcast.
theorem subscription_complete_example :
    let m (id : MessageId) : Message := ⟨id, 1, 2, "hello", 0⟩
    let es₁ : List Event := [.create (m 10), .announce (m 10), .create (m 11)]
    let es₂ : List Event := [
      .announce (m 11), .stream 0 .fetch, .create (m 12), .announce (m 12), .stream 0 .pipe,
      .stream 0 .pipe, .stream 0 .redirect, .stream 0 .recv, .stream 0 .recv]
    ∃ st, (system.run (es₁ ++ .register 2 (some 10) :: es₂)).streams[0]? = some st ∧
      st.received.count (m 11) = 1 ∧ st.received.count (m 12) = 1 := by
  intro m es₁ es₂
  let st : Stream := ⟨2, some 10, 0, .streaming, [11], .new, .new, none, [m 10, m 11], [m 11],
    [m 11, m 12]⟩
  have hi : (system.run (es₁ ++ .register 2 (some 10) :: es₂)).streams[0]? = some st := by decide +kernel
  have drained : st.Drained (system.run (es₁ ++ .register 2 (some 10) :: es₂)).hub :=
    ⟨by decide +kernel, rfl, rfl⟩
  have complete := (subscription_complete es₁ es₂ 2 10 hi (by decide +kernel) ⟨rfl, by decide, rfl⟩).left
  refine ⟨st, hi, ?_, ?_⟩
  · exact (complete (m 11) (by decide +kernel) (by decide) (.inl <| by decide)).right drained
  · exact (complete (m 12) (by decide +kernel) (by decide) (.inr <| by decide +kernel)).right drained

end World
end Pheidippides
