import Pheidippides.Messenger.Theorems.Stream
import Pheidippides.Messenger.World

open Broadcast

namespace Pheidippides.World

variable {w : World} {m : Message} {u : UserId} {i j : Nat} {st : Stream} {db : MockDb}

theorem createMessage_messages (db : MockDb) (m : Message) :
    db.messages.value <+: (db.createMessage m).2.messages.value := by
  rw [MockDb.createMessage]
  split
  · exact List.prefix_rfl
  · next h => exact ⟨[m], by simp [Mutex.write, (Mutex.lock_eq_ok_iff.mp h).right]⟩

-- What happens to the handler of a world is what can happen to a handler.
theorem handler_simulation :
    System.Simulation system SubscriptionsHandler.system World.handler where
  init := rfl
  step w e := by
    cases e
    case create m =>
      refine ⟨[], ?_⟩
      simp only [system, step, create]
      split <;> rfl
    case announce m =>
      simp only [system, step, announce]
      split
      · exact ⟨[.message m], rfl⟩
      · exact ⟨[], rfl⟩
    case register u startingPoint => exact ⟨[.subscribe u], rfl⟩
    case stream i a =>
      simp only [system, step, onStream]
      split
      · exact ⟨[], rfl⟩
      · exact Stream.act_simulated ..
    case cleanup => exact ⟨[.cleanup], rfl⟩

-- So what holds of the handlers which can be reached holds of the handlers of worlds.
theorem handler_run (es : List Event) :
    ∃ hs, (system.run es).handler = SubscriptionsHandler.system.run hs :=
  handler_simulation.run es

theorem step_wired (h : w.handler.Wired) (e : Event) : (w.step e).handler.Wired := by
  have ⟨hs, he⟩ := handler_simulation.step w e
  exact he ▸ SubscriptionsHandler.wired_invariant.exec h hs

theorem onStream_of_none (hi : w.streams[i]? = none) (a : Stream.Action) : w.onStream i a = w := by
  rw [onStream, hi]

theorem onStream_eq (hi : w.streams[i]? = some st) (a : Stream.Action) : w.onStream i a = { w with
    handler := { w.handler with hub := (st.act w.db w.hub a).1 }
    streams := w.streams.set i (st.act w.db w.hub a).2 } := by
  rw [onStream, hi]

-- The invariant of a world. Streams are numbered like their receivers, and a message is sent on no
-- channel more often than it has been stored and left `pending`.
structure Coherent (w : World) : Prop where
  wired      : w.handler.Wired
  unpoisoned : w.db.messages.poisoned = false
  users      : w.handler.registered = w.streams.map (·.userId)
  numbered   : ∀ {i : Nat} {st : Stream}, w.streams[i]? = some st → st.rx = i
  sound      : ∀ {i : Nat} {st : Stream}, w.streams[i]? = some st → st.Sound w.hub
  fetched    : ∀ {i : Nat} {st : Stream}, w.streams[i]? = some st → st.Fetched w.messages
  counted    : ∀ c m, (w.hub.sentOn c).count m + w.pending.count m ≤ w.messages.count m

namespace Coherent

theorem empty : World.empty.Coherent where
  wired      := .new
  unpoisoned := rfl
  users      := rfl
  numbered   := by simp [World.empty]
  sound      := by simp [World.empty]
  fetched    := by simp [World.empty]
  counted    := by simp [World.empty, hub, SubscriptionsHandler.new, Hub.empty, Hub.sentOn]

theorem length (c : w.Coherent) : w.streams.length = w.hub.receivers.length := by
  rw [← c.wired.length, c.users, List.length_map]

theorem subscribed (c : w.Coherent) (hi : w.streams[i]? = some st) (hl : w.hub.Live st.rx) :
    w.handler.Subscribed st.rx st.userId :=
  ⟨hl, by simp [c.users, c.numbered hi, hi]⟩

theorem opened (c : w.Coherent) (hi : w.streams[i]? = some st) {rx : Receiver}
    (hr : w.hub.receivers[st.rx]? = some rx) (hl : rx.live) :
    (w.hub.channel rx.channel).closed = false :=
  c.wired.unclosed <| c.wired.current (c.subscribed hi ⟨rx, hr, hl⟩) hr

theorem create_eq (c : w.Coherent) (m : Message) : w.create m = { w with
    db := { w.db with messages := w.db.messages.write (w.messages ++ [m]) }
    pending := w.pending ++ [m] } := by
  simp [World.create, MockDb.createMessage, Mutex.lock, c.unpoisoned, messages]

theorem create (c : w.Coherent) (m : Message) : (w.create m).Coherent := by
  rw [c.create_eq]
  constructor
  case wired      => exact c.wired
  case unpoisoned => exact c.unpoisoned
  case users      => exact c.users
  case numbered   => exact c.numbered
  case sound      => exact c.sound
  case fetched    => exact fun hi => (c.fetched hi).mono <| List.prefix_append ..
  case counted    =>
    intro ch m'
    have := c.counted ch m'
    simp only [hub, messages, Mutex.write, List.count_append] at this ⊢
    omega

theorem announce (c : w.Coherent) (m : Message) : (w.announce m).Coherent := by
  rw [World.announce]
  split
  case isFalse => exact c
  case isTrue hm =>
    have hr := w.handler.handleNewMessage_receivers m
    constructor
    case wired      => exact c.wired.handleNewMessage m
    case unpoisoned => exact c.unpoisoned
    case users      => exact (w.handler.handleNewMessage_registered m).trans c.users
    case numbered   => exact c.numbered
    case fetched    => exact c.fetched
    case sound      =>
      intro i st hi
      exact (c.sound hi).grow (Hub.live_of_receivers_eq hr).mpr <| c.wired.handleNewMessage_grows m
    case counted    =>
      intro ch m'
      have hs := c.wired.handleNewMessage_count_le m m' ch
      have hp : (w.pending.erase m).count m' + [m].count m' = w.pending.count m' := by
        rw [(List.perm_cons_erase hm).count_eq, List.count_cons, List.count_cons, List.count_nil]
        omega
      have := c.counted ch m'
      simp only [hub, messages] at this ⊢
      omega

theorem register (c : w.Coherent) (u : UserId) (startingPoint : Option MessageId) :
    (w.register u startingPoint).Coherent := by
  have length := c.length
  have number : (w.handler.register u).1 = w.streams.length :=
    (w.handler.register_fst u).trans length.symm
  have streams {i : Nat} {st : Stream} (hi : (w.register u startingPoint).streams[i]? = some st) :
      (i < w.streams.length ∧ w.streams[i]? = some st) ∨
        (i = w.streams.length ∧ st = .new u startingPoint w.streams.length) := by
    simp only [World.register, number, List.getElem?_append] at hi
    split at hi
    case isTrue hl => exact .inl ⟨hl, hi⟩
    case isFalse hl =>
      obtain ⟨hz, he⟩ := List.getElem?_eq_some_iff.mp hi
      simp only [List.length_singleton] at hz
      exact .inr ⟨by omega, by simpa using he.symm⟩
  constructor
  case wired      => exact c.wired.register u
  case unpoisoned => exact c.unpoisoned
  case users      => simp [World.register, SubscriptionsHandler.register_registered, c.users, Stream.new]
  case numbered   =>
    intro i st hi
    obtain ⟨_, hi⟩ | ⟨rfl, rfl⟩ := streams hi
    · exact c.numbered hi
    · rfl
  case sound      =>
    intro i st hi
    obtain ⟨hl, hi⟩ | ⟨rfl, rfl⟩ := streams hi
    · have hl : st.rx < w.hub.receivers.length := by rwa [c.numbered hi, ← length]
      obtain ⟨live, queue, arrived⟩ := c.wired.register_others (u := u) hl
      exact (c.sound hi).congr live queue arrived
    · obtain ⟨live, queue, arrived⟩ := w.handler.register_self u
      exact .new (number ▸ live) (number ▸ queue) (number ▸ arrived)
  case fetched    =>
    intro i st hi
    obtain ⟨_, hi⟩ | ⟨rfl, rfl⟩ := streams hi
    · exact c.fetched hi
    · exact .new
  case counted    =>
    intro ch m
    exact (Nat.add_le_add_right (w.handler.register_count_le u ch m) _).trans <| c.counted ch m

theorem onStream (c : w.Coherent) (i : Nat) (a : Stream.Action) : (w.onStream i a).Coherent := by
  rw [World.onStream]
  split
  case h_1 => exact c
  case h_2 st hi =>
    have frame := st.act_frame w.db w.hub a
    have ⟨fixedUser, _, fixedRx⟩ := st.act_fixed w.db w.hub a
    have streams {j : Nat} {st' : Stream}
        (hj : (w.streams.set i (st.act w.db w.hub a).2)[j]? = some st') :
        (j ≠ i ∧ w.streams[j]? = some st') ∨ (j = i ∧ st' = (st.act w.db w.hub a).2) := by
      rw [List.getElem?_set] at hj
      split at hj
      case isFalse hn => exact .inl ⟨Ne.symm hn, hj⟩
      case isTrue he =>
        have hl := (List.getElem?_eq_some_iff.mp hi).choose
        rw [if_pos hl] at hj
        exact .inr ⟨he.symm, (Option.some.inj hj).symm⟩
    constructor
    case wired      =>
      have wired := step_wired c.wired <| .stream i a
      rwa [step, onStream_eq hi] at wired
    case unpoisoned => exact c.unpoisoned
    case users      =>
      have hu : (w.streams.map (·.userId))[i]? = some st.userId := by simp [hi]
      have ⟨_, he⟩ := List.getElem?_eq_some_iff.mp hu
      rw [List.map_set, fixedUser, c.users, ← he, List.set_getElem_self]
    case numbered   =>
      intro j st' hj
      obtain ⟨_, hj⟩ | ⟨rfl, rfl⟩ := streams hj
      · exact c.numbered hj
      · exact fixedRx.trans <| c.numbered hi
    case sound      =>
      intro j st' hj
      obtain ⟨hn, hj⟩ | ⟨rfl, rfl⟩ := streams hj
      · exact (c.sound hj).frame frame <| by rwa [c.numbered hi, c.numbered hj]
      · exact (c.sound hi).act (c.opened hi) a
    case fetched    =>
      intro j st' hj
      obtain ⟨_, hj⟩ | ⟨rfl, rfl⟩ := streams hj
      · exact c.fetched hj
      · exact Stream.act_fetched (c.fetched hi) a
    case counted    => exact fun ch m => frame.sentOn ▸ c.counted ch m

theorem cleanup (c : w.Coherent) : { w with handler := w.handler.cleanup }.Coherent where
  wired      := c.wired.cleanup
  unpoisoned := c.unpoisoned
  users      := c.users
  numbered   := c.numbered
  sound hi   := (c.sound hi).congr .rfl rfl rfl
  fetched    := c.fetched
  counted    := c.counted

end Coherent

theorem coherent_invariant : system.Invariant Coherent where
  init := .empty
  step e c := match e with
    | .create m                 => c.create m
    | .announce m               => c.announce m
    | .register u startingPoint => c.register u startingPoint
    | .stream i a               => c.onStream i a
    | .cleanup                  => c.cleanup

section Steps

variable {e : Event}

theorem step_messages_eq (c : w.Coherent) (e : Event) :
    (w.step e).messages = w.messages ++ e.stored.toList := by
  cases e
  case create m => rw [step, c.create_eq]; rfl
  case announce =>
    simp only [step, World.announce, Event.stored]
    split <;> exact (List.append_nil _).symm
  case stream =>
    simp only [step, World.onStream, Event.stored]
    split <;> exact (List.append_nil _).symm
  all_goals exact (List.append_nil _).symm

theorem step_messages (c : w.Coherent) (e : Event) : w.messages <+: (w.step e).messages :=
  step_messages_eq c e ▸ List.prefix_append ..

-- The store holds the messages which have been sent, in that order.
theorem run_messages (es : List Event) : (system.run es).messages = es.filterMap Event.stored := by
  induction es using List.reverseRecOn
  case nil => rfl
  case append_singleton es e ih =>
    rw [System.run_concat, List.filterMap_append, ← ih]
    refine (step_messages_eq (coherent_invariant.run es) e).trans ?_
    cases h : e.stored <;> simp [h]

theorem mem_messages_run_iff {es : List Event} : m ∈ (system.run es).messages ↔ .create m ∈ es := by
  rw [run_messages, List.mem_filterMap]
  constructor
  case mp  =>
    rintro ⟨e, he, hm⟩
    cases e <;> cases hm
    exact he
  case mpr => exact fun h => ⟨_, h, rfl⟩

-- A stream changes only by its own actions.
theorem step_streams (c : w.Coherent) (e : Event) (hi : w.streams[i]? = some st) :
    (∃ a, e = .stream i a ∧ (w.step e).streams[i]? = some (st.act w.db w.hub a).2) ∨
      (w.step e).streams[i]? = some st := by
  have hl := (List.getElem?_eq_some_iff.mp hi).choose
  cases e
  case create m =>
    rw [step, c.create_eq]
    exact .inr hi
  case announce =>
    simp only [step, World.announce]
    split <;> exact .inr hi
  case register => exact .inr <| (List.getElem?_append_left hl).trans hi
  case cleanup  => exact .inr hi
  case stream j a =>
    by_cases he : j = i
    · subst he
      exact .inl ⟨a, rfl, by rw [step, onStream_eq hi, List.getElem?_set_self hl]⟩
    · refine .inr ?_
      simp only [step, World.onStream]
      split
      · exact hi
      · exact (List.getElem?_set_ne he).trans hi

theorem Coherent.reaches (c : w.Coherent) (hi : w.streams[i]? = some st)
    (hl : w.hub.Live st.rx) (hu : m.Concerns st.userId) (he : w.Unblocked (.announce m)) :
    w.handler.Reaches m st.userId := by
  by_cases hs : st.userId = m.sender
  · exact .inl hs
  · have hr := (hu.resolve_left <| Ne.symm hs).symm
    refine .inr ⟨hr, fun stale => he rfl ⟨?_, stale, st.rx, hr ▸ c.subscribed hi hl⟩⟩
    exact fun h => hs <| hr.trans h.symm

theorem Coherent.rx_lt (c : w.Coherent) (hi : w.streams[i]? = some st) :
    st.rx < w.hub.receivers.length := by
  rw [c.numbered hi, ← c.length]
  exact (List.getElem?_eq_some_iff.mp hi).choose

-- A receiver which has been dropped stays so.
theorem step_live (c : w.Coherent) (hi : w.streams[i]? = some st) (hl : (w.step e).hub.Live st.rx) :
    w.hub.Live st.rx := by
  cases e
  case create m =>
    rw [step, c.create_eq] at hl
    exact hl
  case announce m =>
    rw [step, World.announce] at hl
    split at hl
    · exact (Hub.live_of_receivers_eq <| w.handler.handleNewMessage_receivers m).mp hl
    · exact hl
  case register u startingPoint => exact (c.wired.register_others (u := u) <| c.rx_lt hi).left.mp hl
  case cleanup                  => exact hl
  case stream j a =>
    cases hj : w.streams[j]?
    case none =>
      rw [step, World.onStream, hj] at hl
      exact hl
    case some st' =>
      rw [step, onStream_eq hj] at hl
      exact (st'.act_frame w.db w.hub a).lives' _ hl

-- What is sent on the channel of a user who has a live receiver.
inductive Announced (w : World) (u : UserId) : Event → List Message → Prop
  | announced {m : Message} : m ∈ w.pending → w.handler.Reaches m u → Announced w u (.announce m) [m]
  | silent    {e : Event} : (∀ m, e = .announce m → m ∈ w.pending → ¬w.handler.Reaches m u) →
    Announced w u e []

-- It comes to that receiver, since the map has the receiver's channel for the user.
theorem step_broadcast (c : w.Coherent) (hi : w.streams[i]? = some st) (hl : w.hub.Live st.rx) (e : Event) :
    Announced w st.userId e (w.broadcast st.userId e) ∧
      (w.step e).hub.arrived st.rx = w.hub.arrived st.rx ++ w.broadcast st.userId e := by
  classical
  have subscribed := c.subscribed hi hl
  have ⟨rx, hr, _⟩ := hl
  have current : w.broadcast st.userId e =
      ((w.step e).hub.sentOn rx.channel).drop (w.hub.sentOn rx.channel).length := by
    rw [broadcast, c.wired.current subscribed hr]
  have silent (announced : ∀ m, e = .announce m → m ∈ w.pending → ¬w.handler.Reaches m st.userId)
      (sent : (w.step e).hub.sentOn rx.channel = w.hub.sentOn rx.channel)
      (arrived : (w.step e).hub.arrived st.rx = w.hub.arrived st.rx) :
      Announced w st.userId e (w.broadcast st.userId e) ∧
        (w.step e).hub.arrived st.rx = w.hub.arrived st.rx ++ w.broadcast st.userId e := by
    rw [current, sent, List.drop_length, List.append_nil]
    exact ⟨.silent announced, arrived⟩
  cases e
  case create m =>
    refine silent nofun ?_ ?_
    all_goals rw [step, c.create_eq]
  case announce m =>
    by_cases hm : m ∈ w.pending
    case neg =>
      refine silent (fun _ he hm' => absurd (Event.announce.inj he ▸ hm') hm) ?_ ?_
      all_goals rw [step, World.announce, if_neg hm]
    case pos =>
      have sent    := c.wired.handleNewMessage_sentOn subscribed hr m
      have arrived := c.wired.handleNewMessage_arrived (m := m) subscribed
      by_cases hr : w.handler.Reaches m st.userId
      case neg =>
        rw [if_neg hr, List.append_nil] at sent arrived
        refine silent (fun _ he _ => Event.announce.inj he ▸ hr) ?_ ?_
        all_goals rwa [step, World.announce, if_pos hm]
      case pos =>
        rw [if_pos hr] at sent arrived
        have announced : w.broadcast st.userId (.announce m) = [m] := by
          rw [current, step, World.announce, if_pos hm]
          exact sent ▸ List.drop_left ..
        rw [announced, step, World.announce, if_pos hm]
        exact ⟨.announced hm hr, arrived⟩
  case register u startingPoint =>
    have sent := SubscriptionsHandler.entry_sentOn u <| c.wired.hub.opened hr
    exact silent nofun sent (c.wired.register_others u <| c.rx_lt hi).right.right
  case cleanup => exact silent nofun rfl rfl
  case stream j a =>
    cases hj : w.streams[j]?
    case none =>
      refine silent nofun ?_ ?_
      all_goals rw [step, World.onStream, hj]
    case some st' =>
      have frame := st'.act_frame w.db w.hub a
      refine silent nofun ?_ ?_
      all_goals rw [step, onStream_eq hj]
      · exact congrFun frame.sentOn _
      · exact frame.arrived' _

-- As long as a stream's receiver lives, a message for its user which leaves `pending` has arrived.
theorem step_conserved (c : w.Coherent) (hi : w.streams[i]? = some st) (hu : m.Concerns st.userId)
    (he : w.Unblocked e) (hl : (w.step e).hub.Live st.rx) :
    w.hub.Live st.rx ∧
      ((w.step e).hub.arrived st.rx).count m + (w.step e).pending.count m + w.messages.count m =
        (w.hub.arrived st.rx).count m + w.pending.count m + (w.step e).messages.count m := by
  have live := step_live c hi hl
  have ⟨sent, arrived⟩ := step_broadcast c hi live e
  refine ⟨live, ?_⟩
  rw [arrived, List.count_append]
  generalize w.broadcast st.userId e = ms at sent
  cases e
  case create m' =>
    cases sent
    rw [step, c.create_eq]
    simp only [messages, Mutex.write, List.count_append, List.count_nil]
    omega
  case announce m' =>
    rw [step, World.announce]
    split
    case isFalse hm =>
      cases sent with
      | announced hm' => exact absurd hm' hm
      | silent        => rfl
    case isTrue hm =>
      have hp := (List.perm_cons_erase hm).count_eq m
      rw [List.count_cons] at hp
      simp only [messages]
      cases sent with
      | announced     =>
        rw [List.count_singleton]
        omega
      | silent missed =>
        have other : m' ≠ m := by
          rintro rfl
          exact missed _ rfl hm <| c.reaches hi live hu he
        simp only [beq_iff_eq, other, if_false, List.count_nil] at hp ⊢
        omega
  case stream j a =>
    cases sent
    rw [step, World.onStream]
    split <;> rfl
  case register | cleanup =>
    cases sent
    rfl

end Steps
end Pheidippides.World
