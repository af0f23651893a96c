import Pheidippides.Messenger.Client
import Pheidippides.Messenger.Theorems.CatchUp
import Pheidippides.Messenger.Theorems.Provenance

open Broadcast

namespace Pheidippides

namespace Stream

variable {st : Stream} {hub : Hub Message}

-- An action is the fetch, or changes none of what the fetch sets. Then messages leave the broadcast channel
-- only as long as the pipe runs.
theorem act_follows (db : MockDb) (hub : Hub Message) (st : Stream) (a : Action) :
    (((st.act db hub a).2.phase = .streaming → st.phase = .streaming) ∧
      (st.act db hub a).2.stored = st.stored ∧ (st.act db hub a).2.fetched = st.fetched ∧
      (st.act db hub a).2.sentMessages = st.sentMessages ∧
      ((st.act db hub a).2.forwarded = st.forwarded ∨ st.phase = .streaming ∧ st.exit = none)) ∨
    (st.phase = .registered ∧ (st.act db hub a).2.phase = .streaming ∧
      (st.act db hub a).2.stored = db.messages.value) :=
  match st.act db hub a, st.act_spec db hub a with
  | _, .idle | _, .disconnected => .inl ⟨id, rfl, rfl, rfl, .inl rfl⟩
  | _, .abandoned _        => .inl ⟨nofun, rfl, rfl, rfl, .inl rfl⟩
  | _, .received hq        => .inl ⟨id, rfl, rfl, rfl, .inl <| by simp [forwarded, hq]⟩
  | _, .redirected _ _ h   => .inl ⟨id, rfl, rfl, rfl, .inl <| by
    cases h
    case moved hq => simp [forwarded, hq, Unbounded.send]
    all_goals rfl⟩
  | _, .piped h hx _ _     => .inl ⟨id, rfl, rfl, rfl, .inr ⟨h, hx⟩⟩
  | _, .filtered h hx _ _  => .inl ⟨id, rfl, rfl, rfl, .inr ⟨h, hx⟩⟩
  | _, .fetched h _ _      => .inr ⟨h, rfl, rfl⟩

end Stream

namespace World

variable {w w' : World} {i : Nat} {st : Stream} {u : UserId} {p : MessageId} {m : Message} {e : Event}

-- The messages of a user behind the starting point of a stream.
def since (w : World) (u : UserId) (p : MessageId) : List Message :=
  MockDb.usersMessagesSince w.messages u p

theorem mem_since_iff : m ∈ w.since u p ↔ m ∈ w.messages.skipPast (·.id == p) ∧ m.Concerns u := by
  simp [since, MockDb.usersMessagesSince_eq]

theorem since_nodup (ids : (w.messages.map (·.id)).Nodup) : (w.since u p).Nodup :=
  (MockDb.usersMessagesSince_sublist ..).nodup ids.of_map

-- A stream that forwards the messages behind its starting point without a gap, in the order of the store.
structure Following (w : World) (u : UserId) (p : MessageId) (st : Stream) : Prop where
  userId    : st.userId = u
  point     : st.startingPoint = some p
  known     : p ∈ w.messages.map (·.id)
  forwarded : st.forwarded <+: w.since u p
  pending   : ∀ m ∈ w.pending, m.Concerns u → m ∈ w.since u p
  arrived   : w.hub.Live st.rx → ∀ m ∈ w.hub.arrived st.rx, m ∈ w.since u p
  live      : st.phase = .streaming → w.hub.Live st.rx → st.fetched ++ st.live w.hub <+: w.since u p
  conserved : st.phase = .streaming → w.hub.Live st.rx → ∀ m ∈ w.messages, m.Concerns u →
    m ∉ st.stored → m ∈ w.hub.arrived st.rx ∨ m ∈ w.pending

-- What has been stored when the stream fetched is what it has fetched.
theorem Coherent.mem_fetched_of_stored (c : w.Coherent) (ids : (w.messages.map (·.id)).Nodup)
    (hi : w.streams[i]? = some st) (hs : st.startingPoint = some p) (hm : m ∈ w.since st.userId p)
    (stored : m ∈ st.stored) : m ∈ st.fetched := by
  have ⟨after, concerns⟩ := mem_since_iff.mp hm
  refine (c.mem_fetched_iff hi hs concerns).mpr ?_
  exact (mem_skipPast_iff_of_isPrefix (c.fetched hi).stored ids.of_map stored).mp after

theorem Coherent.mem_live_of_unfetched (c : w.Coherent) (ids : (w.messages.map (·.id)).Nodup)
    (hi : w.streams[i]? = some st) (unfetched : m ∉ st.fetched) (arrived : m ∈ w.hub.arrived st.rx) :
    m ∈ st.live w.hub := by
  refine List.mem_filter.mpr ⟨arrived, decide_eq_true fun sent => unfetched ?_⟩
  have ⟨m', hf, he⟩ := List.mem_map.mp <| (c.fetched hi).sent ▸ sent
  exact eq_of_id_eq ids (c.of_mem_fetched hi hf).right (c.mem_messages_of_mem_arrived arrived) he ▸ hf

namespace Following

-- The next message that is announced for an open stream is the next one behind its starting point.
theorem live_announce (f : w.Following u p st) (c : w.Coherent) (ids : (w.messages.map (·.id)).Nodup)
    (hi : w.streams[i]? = some st) (streaming : st.phase = .streaming) (hl : w.hub.Live st.rx)
    (hm : m ∈ w.pending) (hu : m.Concerns u) (new : m ∉ st.stored)
    (order : ∀ m' ∈ w.pending, m'.Concerns u → m' ∉ st.stored →
      m ∉ w.messages.skipPast (·.id == m'.id)) :
    st.fetched ++ (st.live w.hub ++ [m]) <+: w.since u p := by
  have ⟨rest, split⟩ := f.live streaming hl
  have since := f.pending m hm hu
  have unarrived : m ∉ w.hub.arrived st.rx := by
    intro arrived
    have le := c.arrived_count_le st.rx m
    have once := List.nodup_iff_count_le_one.mp ids.of_map m
    have := List.count_pos_iff.mpr arrived
    have := List.count_pos_iff.mpr hm
    omega
  have last : m ∈ rest := by
    have mem := split ▸ since
    refine (List.mem_append.mp mem).resolve_left fun sent => ?_
    obtain fetched | live := List.mem_append.mp sent
    · rw [c.fetched_eq hi f.point] at fetched
      exact new (MockDb.of_mem_usersMessagesSince fetched).right
    · exact unarrived <| List.mem_of_mem_filter live
  cases rest
  case nil => cases last
  case cons m' rest =>
    suffices m' = m by
      subst this
      exact ⟨rest, by simpa using split⟩
    by_contra hn
    have later : m ∈ rest := (List.mem_cons.mp last).resolve_left <| Ne.symm hn
    have since' : m' ∈ w.since u p := split ▸ List.mem_append_right _ List.mem_cons_self
    have ⟨unfetched, unsent⟩ := not_or.mp <| mt List.mem_append.mpr fun h =>
      List.disjoint_of_nodup_append (split ▸ since_nodup ids) h List.mem_cons_self
    have ⟨after', hu'⟩ := mem_since_iff.mp since'
    have stored' := List.mem_of_mem_skipPast after'
    have unstored := mt (c.mem_fetched_of_stored ids hi f.point <| f.userId ▸ since') unfetched
    have unarrived' := mt (c.mem_live_of_unfetched ids hi unfetched) unsent
    have pending' := (f.conserved streaming hl m' stored' hu' unstored).resolve_left unarrived'
    have after := MockDb.usersMessagesSince_of_split ids split.symm
    exact order m' pending' hu' unstored (mem_since_iff.mp <| after ▸ later).left

-- Steps that change nothing of which a stream takes notice.
theorem congr (f : w.Following u p st) (messages : w'.messages = w.messages)
    (pending : w'.pending = w.pending) (hl : w'.hub.Live st.rx → w.hub.Live st.rx)
    (arrived : w'.hub.arrived st.rx = w.hub.arrived st.rx) : w'.Following u p st := by
  have since : w'.since u p = w.since u p := congrArg (MockDb.usersMessagesSince · u p) messages
  constructor
  case userId    => exact f.userId
  case point     => exact f.point
  case known     => exact messages ▸ f.known
  case forwarded => exact since ▸ f.forwarded
  case pending   => exact pending ▸ since ▸ f.pending
  case arrived   => exact fun live => arrived ▸ since ▸ f.arrived (hl live)
  case live      =>
    intro streaming live
    unfold Stream.live
    rw [arrived, since]
    exact f.live streaming (hl live)
  case conserved =>
    intro streaming live
    rw [messages, pending, arrived]
    exact f.conserved streaming (hl live)

theorem create (f : w.Following u p st) (c : w.Coherent) (m : Message) : (w.create m).Following u p st := by
  have since : (w.create m).since u p = w.since u p ++ [m].filter (·.Concerns u) := by
    rw [c.create_eq]
    exact MockDb.usersMessagesSince_append f.known [m]
  have grows : w.since u p <+: (w.create m).since u p := since ▸ List.prefix_append ..
  constructor
  case userId    => exact f.userId
  case point     => exact f.point
  case known     =>
    rw [c.create_eq]
    exact List.map_subset _ (List.subset_append_left ..) f.known
  case forwarded => exact f.forwarded.trans grows
  case pending   =>
    intro m' hm hu
    rw [c.create_eq] at hm
    obtain hm | hm := List.mem_append.mp hm
    · exact grows.subset <| f.pending m' hm hu
    · cases List.mem_singleton.mp hm
      simp [since, hu]
  case arrived   =>
    intro live m' hm
    rw [c.create_eq] at live hm
    exact grows.subset <| f.arrived live m' hm
  case live      =>
    intro streaming live
    have hub : (w.create m).hub = w.hub := by rw [c.create_eq]
    rw [hub] at live ⊢
    exact (f.live streaming live).trans grows
  case conserved =>
    intro streaming live m' hm hu unstored
    rw [c.create_eq] at live hm ⊢
    obtain hm | hm := List.mem_append.mp hm
    · exact (f.conserved streaming live m' hm hu unstored).imp_right <| List.mem_append_left _
    · exact .inr <| List.mem_append_right _ hm

theorem announce (f : w.Following u p st) (c : w.Coherent) (ids : (w.messages.map (·.id)).Nodup)
    (hi : w.streams[i]? = some st) (unblocked : w.Unblocked (.announce m))
    (order : st.phase = .streaming → w.hub.Live st.rx → m ∈ w.pending → m.Concerns u → m ∉ st.stored →
      ∀ m' ∈ w.pending, m'.Concerns u → m' ∉ st.stored → m ∉ w.messages.skipPast (·.id == m'.id)) :
    (w.announce m).Following u p st := by
  by_cases hm : m ∈ w.pending
  case neg =>
    have silent : w.announce m = w := if_neg hm
    rwa [silent]
  case pos =>
    have announced : w.announce m =
        { w with handler := (w.handler.handleNewMessage m).2, pending := w.pending.erase m } :=
      if_pos hm
    have messages : (w.announce m).messages = w.messages := announced ▸ rfl
    have pending : (w.announce m).pending = w.pending.erase m := announced ▸ rfl
    have since : (w.announce m).since u p = w.since u p :=
      congrArg (MockDb.usersMessagesSince · u p) messages
    have live : (w.announce m).hub.Live st.rx → w.hub.Live st.rx := step_live c hi (e := .announce m)
    have sent (hl : w.hub.Live st.rx) : (m.Concerns u ∧ (w.announce m).hub.arrived st.rx =
          w.hub.arrived st.rx ++ [m]) ∨
        (¬m.Concerns u ∧ (w.announce m).hub.arrived st.rx = w.hub.arrived st.rx) := by
      have ⟨sent, arrived⟩ : Announced w st.userId (.announce m) _ ∧
          (w.announce m).hub.arrived st.rx = _ := step_broadcast c hi hl (.announce m)
      rw [f.userId] at sent arrived
      generalize w.broadcast u (.announce m) = ms at sent arrived
      cases sent with
      | announced _ reaches => exact .inl ⟨reaches.imp Eq.symm (Eq.symm ·.left), arrived⟩
      | silent missed       =>
        refine .inr ⟨fun hu => missed m rfl hm ?_, arrived.trans <| List.append_nil _⟩
        exact f.userId ▸ c.reaches hi hl (f.userId ▸ hu) unblocked
    constructor
    case userId    => exact f.userId
    case point     => exact f.point
    case known     => exact messages ▸ f.known
    case forwarded => exact since ▸ f.forwarded
    case pending   =>
      rw [pending, since]
      exact fun m' hm' => f.pending m' <| List.mem_of_mem_erase hm'
    case arrived   =>
      intro hl m' hm'
      have hl := live hl
      rw [since]
      obtain ⟨hu, arrived⟩ | ⟨_, arrived⟩ := sent hl <;> rw [arrived] at hm'
      · obtain hm' | hm' := List.mem_append.mp hm'
        · exact f.arrived hl m' hm'
        · exact List.mem_singleton.mp hm' ▸ f.pending m hm hu
      · exact f.arrived hl m' hm'
    case live      =>
      intro streaming hl
      have hl := live hl
      unfold Stream.live
      rw [since]
      obtain ⟨hu, arrived⟩ | ⟨_, arrived⟩ := sent hl <;> rw [arrived]
      case inr => exact f.live streaming hl
      case inl =>
        rw [List.filter_append]
        by_cases seen : m.id ∈ st.sentMessages
        case pos =>
          rw [List.filter_cons_of_neg (by simp [seen]), List.filter_nil, List.append_nil]
          exact f.live streaming hl
        case neg =>
          have new : m ∉ st.stored := fun stored => seen <| (c.fetched hi).sent ▸ List.mem_map_of_mem <|
            c.mem_fetched_of_stored ids hi f.point (f.userId ▸ f.pending m hm hu) stored
          rw [List.filter_cons_of_pos (by simp [seen]), List.filter_nil]
          exact f.live_announce c ids hi streaming hl hm hu new <| order streaming hl hm hu new
    case conserved =>
      intro streaming hl m' hm' hu unstored
      have hl := live hl
      rw [messages] at hm'
      rw [pending]
      obtain arrived' | pending' := f.conserved streaming hl m' hm' hu unstored
      · refine .inl ?_
        obtain ⟨_, arrived⟩ | ⟨_, arrived⟩ := sent hl <;> rw [arrived]
        · exact List.mem_append_left _ arrived'
        · exact arrived'
      · by_cases he : m' = m
        · obtain ⟨_, arrived⟩ | ⟨hn, _⟩ := sent hl
          · exact .inl <| arrived ▸ he ▸ by simp
          · exact absurd (he ▸ hu) hn
        · exact .inr <| (List.mem_erase_of_ne he).mpr pending'

theorem act (f : w.Following u p st) (c : w.Coherent) (hi : w.streams[i]? = some st)
    (a : Stream.Action) :
    (w.onStream i a).Following u p (st.act w.db w.hub a).2 := by
  have hl := (List.getElem?_eq_some_iff.mp hi).choose
  have c'  := c.onStream i a
  have hi' : (w.onStream i a).streams[i]? = some (st.act w.db w.hub a).2 := by
    rw [onStream_eq hi, List.getElem?_set_self hl]
  have frame : Hub.Frame st.rx w.hub (w.onStream i a).hub := by
    rw [onStream_eq hi]
    exact st.act_frame w.db w.hub a
  have messages : (w.onStream i a).messages = w.messages := by rw [onStream_eq hi]; rfl
  have pending : (w.onStream i a).pending = w.pending := by rw [onStream_eq hi]
  have since : (w.onStream i a).since u p = w.since u p :=
    congrArg (MockDb.usersMessagesSince · u p) messages
  have ⟨user, point, rx⟩ := st.act_fixed w.db w.hub a
  have follows := st.act_follows w.db w.hub a
  generalize (st.act w.db w.hub a).2 = st' at *
  generalize w.onStream i a = w' at *
  have cut : st'.forwarded <+: st'.fetched ++ st'.live w'.hub :=
    Stream.expected_eq .. ▸ (c'.sound hi').cut
  have arrived : w'.hub.arrived st'.rx = w.hub.arrived st.rx := rx ▸ frame.arrived' _
  have lives (live : w'.hub.Live st'.rx) : w.hub.Live st.rx := frame.lives' _ <| rx ▸ live
  have point' := point.trans f.point
  -- What has been fetched is either the same as before, or all that there is.
  have whole (registered : st.phase = .registered) (stored : st'.stored = w.messages) :
      st'.fetched = w.since u p ∧ st'.live w'.hub = [] := by
    have fetched : st'.fetched = w.since u p := by
      rw [c'.fetched_eq hi' point', stored, user, f.userId]
      rfl
    have alive := (c.sound hi).live (by simp [registered]) ((c.sound hi).idle (by simp [registered])).left
    refine ⟨fetched, List.filter_eq_nil_iff.mpr fun m hm => ?_⟩
    have mem := fetched ▸ f.arrived alive m (arrived ▸ hm)
    simpa [(c'.fetched hi').sent] using ⟨m, mem, rfl⟩
  constructor
  case userId    => exact user.trans f.userId
  case point     => exact point'
  case known     => exact messages ▸ f.known
  case pending   => exact pending ▸ since ▸ f.pending
  case arrived   => exact fun live => arrived ▸ since ▸ f.arrived (lives live)
  case forwarded =>
    rw [since]
    obtain ⟨_, stored, fetched, sent, same | ⟨streaming, running⟩⟩ | ⟨registered, _, stored⟩ := follows
    · exact same ▸ f.forwarded
    · refine cut.trans ?_
      unfold Stream.live
      rw [fetched, sent, arrived]
      exact f.live streaming <| (c.sound hi).live (by simp [streaming]) running
    · have ⟨fetched, live⟩ := whole registered stored
      rwa [fetched, live, List.append_nil] at cut
  case live      =>
    intro streaming live
    rw [since]
    obtain ⟨streaming', _, fetched, sent, _⟩ | ⟨registered, _, stored⟩ := follows
    · rw [Stream.live, fetched, sent, arrived]
      exact f.live (streaming' streaming) (lives live)
    · have ⟨fetched, nothing⟩ := whole registered stored
      rw [fetched, nothing, List.append_nil]
  case conserved =>
    intro streaming live
    rw [messages, pending, arrived]
    obtain ⟨streaming', stored, _⟩ | ⟨_, _, stored⟩ := follows
    · exact stored ▸ f.conserved (streaming' streaming) (lives live)
    · have stored : st'.stored = w.messages := stored
      exact fun m hm _ hn => absurd hm (stored ▸ hn)

theorem step (f : w.Following u p st) (c : w.Coherent) (ids : (w.messages.map (·.id)).Nodup)
    (hi : w.streams[i]? = some st) (unblocked : w.Unblocked e)
    (order : ∀ m, e = .announce m → st.phase = .streaming → w.hub.Live st.rx → m ∈ w.pending →
      m.Concerns u → m ∉ st.stored → ∀ m' ∈ w.pending, m'.Concerns u → m' ∉ st.stored →
        m ∉ w.messages.skipPast (·.id == m'.id)) :
    ∃ st', (w.step e).streams[i]? = some st' ∧ (w.step e).Following u p st' := by
  by_cases own : ∃ a, e = .stream i a
  case pos =>
    obtain ⟨a, rfl⟩ := own
    have hl := (List.getElem?_eq_some_iff.mp hi).choose
    refine ⟨(st.act w.db w.hub a).2, ?_, f.act c hi a⟩
    have moved : w.step (.stream i a) = _ := onStream_eq hi a
    rw [moved, List.getElem?_set_self hl]
  have hi' : (w.step e).streams[i]? = some st :=
    (step_streams c e hi).resolve_left fun ⟨a, ha, _⟩ => own ⟨a, ha⟩
  refine ⟨st, hi', ?_⟩
  have live := step_live c hi (e := e)
  cases e
  case create m   => exact f.create c m
  case announce m => exact f.announce c ids hi unblocked <| order m rfl
  case register v startingPoint =>
    exact f.congr rfl rfl live (c.wired.register_others v <| c.rx_lt hi).right.right
  case cleanup => exact f.congr rfl rfl live rfl
  case stream j a =>
    cases hj : w.streams[j]?
    case none =>
      have idle : w.step (.stream j a) = w := onStream_of_none hj a
      rwa [idle]
    case some st' =>
      have frame := st'.act_frame w.db w.hub a
      have moved : w.step (.stream j a) = _ := onStream_eq hj a
      rw [moved] at live ⊢
      exact f.congr rfl rfl live <| frame.arrived' _

end Following
end World

namespace Client

variable {c : Client} {u : UserId} {s p : MessageId} {m : Message} {e : World.Event} {i j : Nat}
  {st : Stream} {w : World}

theorem onServer_spec (c : Client) (e : World.Event) : c.onServer e = c ∨
    (c.onServer e = { c with world := c.world.step e } ∧
      ∀ j ∈ c.connections.dropLast, e ≠ .stream j .recv) := by
  unfold onServer
  split
  case h_1 i =>
    split
    case isTrue    => exact .inl rfl
    case isFalse h =>
      refine .inr ⟨rfl, fun j hj he => h ?_⟩
      cases he
      exact hj
  case h_2 hn => exact .inr ⟨rfl, fun j _ he => hn j he⟩

theorem receivedOn_step (k : w.Coherent) (hj : j < w.streams.length) (he : e ≠ .stream j .recv) :
    receivedOn (w.step e) j = receivedOn w j := by
  have hi := List.getElem?_eq_getElem hj
  obtain ⟨a, ha, hi'⟩ | hi' := World.step_streams k e hi
  · have hn : a ≠ .recv := fun h => he <| h ▸ ha
    simp [receivedOn, hi, hi', Stream.act_received _ _ _ _ hn]
  · rw [receivedOn, hi', receivedOn, hi]

structure Consistent (c : Client) : Prop where
  coherent : c.world.Coherent
  opened   : ∀ j ∈ c.connections, j < c.world.streams.length

namespace Consistent

theorem connect (k : c.Consistent) (u : UserId) (s : MessageId) : (c.connect u s).Consistent where
  coherent := k.coherent.register u _
  opened   := by
    intro j hj
    simp only [Client.connect, World.register, List.length_append, List.length_singleton] at hj ⊢
    obtain hj | hj := List.mem_append.mp hj
    · exact Nat.lt_succ_of_lt <| k.opened j hj
    · exact Nat.lt_succ_of_le <| (List.mem_singleton.mp hj).le

theorem onServer (k : c.Consistent) (e : World.Event) : (c.onServer e).Consistent := by
  obtain h | ⟨h, _⟩ := c.onServer_spec e <;> rw [h]
  · exact k
  · refine ⟨World.coherent_invariant.step e k.coherent, fun j hj => ?_⟩
    have hi := List.getElem?_eq_getElem <| k.opened j hj
    obtain ⟨_, _, hi'⟩ | hi' := World.step_streams k.coherent e hi
    all_goals exact (List.getElem?_eq_some_iff.mp hi').choose

end Consistent

theorem consistent_invariant : (system u s).Invariant Consistent where
  init := ⟨.empty, by simp [system]⟩
  step e k := match e with
    | .connect  => k.connect u s
    | .server e => k.onServer e

-- What has been received over all connections is all that there is up to what the last one is to bring.
structure Gapless (c : Client) (u : UserId) (s : MessageId) : Prop where
  consistent : c.Consistent
  last       : c.connections = [] ∨ s ∈ c.world.messages.map (·.id) ∧ ∃ earlier i st p,
    c.connections = earlier ++ [i] ∧ c.world.streams[i]? = some st ∧ c.world.Following u p st ∧
      c.world.since u s = earlier.flatMap (receivedOn c.world) ++ c.world.since u p

namespace Gapless

theorem received_eq {earlier : List Nat} (h : c.connections = earlier ++ [i])
    (hi : c.world.streams[i]? = some st) :
    c.received = earlier.flatMap (receivedOn c.world) ++ st.received := by
  rw [received, h, List.flatMap_append, List.flatMap_singleton]
  simp [receivedOn, hi]

-- Going on from the last event is going on behind what has been received.
theorem since_lastEventId (g : c.Gapless u s) (ids : (c.world.messages.map (·.id)).Nodup)
    (started : s ∈ c.world.messages.map (·.id)) :
    c.world.since u s = c.received ++ c.world.since u (c.lastEventId s) ∧
      c.lastEventId s ∈ c.world.messages.map (·.id) := by
  have ⟨missed, split⟩ : c.received <+: c.world.since u s := by
    obtain none | ⟨_, earlier, i, st, p, connections, hi, follows, split⟩ := g.last
    · simp [received, none]
    · rw [received_eq connections hi, split, List.prefix_append_right_inj]
      refine List.IsPrefix.trans ⟨st.out.queue ++ st.filtered.queue, ?_⟩ follows.forwarded
      rw [Stream.forwarded, List.append_assoc]
  rw [lastEventId]
  obtain hr | ⟨seen, m, hr⟩ := c.received.eq_nil_or_concat' <;> rw [hr] at split ⊢
  · exact ⟨rfl, started⟩
  · rw [List.append_assoc, List.singleton_append] at split
    rw [List.getLast?_concat]
    have since : c.world.since u m.id = missed := MockDb.usersMessagesSince_of_split ids split.symm
    have mem : m ∈ c.world.since u s := split ▸ by simp
    refine ⟨?_, List.mem_map_of_mem <| List.mem_of_mem_skipPast (World.mem_since_iff.mp mem).left⟩
    change _ = seen ++ [m] ++ c.world.since u m.id
    rw [since, ← split, List.append_assoc, List.singleton_append]

theorem connect (g : c.Gapless u s) (ids : (c.world.messages.map (·.id)).Nodup)
    (started : s ∈ c.world.messages.map (·.id)) (caughtUp : c.CaughtUp u s) :
    (c.connect u s).Gapless u s := by
  have ⟨split, known⟩ := g.since_lastEventId ids started
  have ⟨_, _, arrived⟩ := c.world.handler.register_self u
  refine ⟨g.consistent.connect u s, .inr ⟨started, c.connections, c.world.streams.length,
    .new u (some <| c.lastEventId s) (c.world.handler.register u).1, c.lastEventId s, rfl,
    List.getElem?_concat_length, ?following, ?split⟩⟩
  case split     =>
    refine split.trans <| congrArg (· ++ _) ?_
    refine List.flatMap_congr fun j hj => ?_
    rw [receivedOn, receivedOn]
    exact congrArg (fun st => (Option.map Stream.received st).getD []) <| Eq.symm <|
      List.getElem?_append_left <| g.consistent.opened j hj
  case following =>
    constructor
    case userId | point        => rfl
    case known                 => exact known
    case forwarded             => exact List.nil_prefix
    case pending               => exact fun m hm hu => World.mem_since_iff.mpr ⟨caughtUp m hm hu, hu⟩
    case arrived               =>
      intro _ m hm
      change m ∈ (c.world.handler.register u).2.hub.arrived (c.world.handler.register u).1 at hm
      rw [arrived] at hm
      cases hm
    case live | conserved      => exact nofun

theorem onServer (g : c.Gapless u s) (ids : (c.world.messages.map (·.id)).Nodup)
    (unblocked : c.world.Unblocked e) (orderly : ∀ m, e = .announce m → c.InOrder u m) :
    (c.onServer e).Gapless u s := by
  obtain h | ⟨h, apart⟩ := c.onServer_spec e <;> rw [h]
  case inl => exact g
  have consistent := h ▸ g.consistent.onServer e
  refine ⟨consistent, g.last.imp id fun ⟨started, earlier, i, st, p, connections, hi, follows, split⟩ => ?_⟩
  have coherent := g.consistent.coherent
  have current : c.current = some st := by
    rw [Client.current, connections, List.getLast?_concat]
    exact hi
  have ⟨st', hi', follows'⟩ := follows.step coherent ids hi unblocked fun m he => orderly m he st current
  have grows := World.step_messages_eq coherent e
  have grown {p : MessageId} (known : p ∈ c.world.messages.map (·.id)) :
      (c.world.step e).since u p = c.world.since u p ++ e.stored.toList.filter (·.Concerns u) := by
    rw [World.since, grows, MockDb.usersMessagesSince_append known]
    rfl
  have same : earlier.flatMap (receivedOn (c.world.step e)) = earlier.flatMap (receivedOn c.world) := by
    refine List.flatMap_congr fun j hj => ?_
    have hj' : j ∈ c.connections.dropLast := by simpa [connections] using hj
    exact receivedOn_step coherent (g.consistent.opened j <| connections ▸ List.mem_append_left _ hj)
      (apart j hj')
  refine ⟨?_, earlier, i, st', p, connections, hi', follows', ?_⟩
  · change s ∈ (c.world.step e).messages.map (·.id)
    rw [grows, List.map_append]
    exact List.mem_append_left _ started
  · change (c.world.step e).since u s = earlier.flatMap (receivedOn (c.world.step e)) ++ _
    rw [grown started, grown follows.known, same, split, List.append_assoc]

theorem lossless (g : c.Gapless u s) (ids : (c.world.messages.map (·.id)).Nodup)
    (settled : c.Settled) : c.Lossless u s := by
  have ⟨i', st', hl, hi', undisturbed, drained⟩ := settled.drained
  obtain none | ⟨_, earlier, i, st, p, connections, hi, follows, split⟩ := g.last
  case inl => simp [none] at hl
  rw [connections, List.getLast?_concat] at hl
  cases hl
  cases hi.symm.trans hi'
  have coherent := g.consistent.coherent
  have live := coherent.live_of_undisturbed hi undisturbed
  have received := (coherent.sound hi).received_eq undisturbed drained
  have ⟨rest, all⟩ := follows.live undisturbed.streaming live
  have nodup := World.since_nodup ids (u := u) (p := p)
  obtain rfl : rest = [] := by
    refine List.eq_nil_iff_forall_not_mem.mpr fun m hm => ?_
    have since : m ∈ c.world.since u p := all ▸ List.mem_append_right _ hm
    have ⟨unfetched, unsent⟩ := not_or.mp <| mt List.mem_append.mpr fun h =>
      List.disjoint_of_nodup_append (all ▸ nodup) h hm
    have ⟨after, hu⟩ := World.mem_since_iff.mp since
    have unstored :=
      mt (coherent.mem_fetched_of_stored ids hi follows.point <| follows.userId ▸ since) unfetched
    have arrived := (follows.conserved undisturbed.streaming live m (List.mem_of_mem_skipPast after) hu
      unstored).resolve_right (settled.sent ▸ List.not_mem_nil)
    exact unsent <| coherent.mem_live_of_unfetched ids hi unfetched arrived
  rw [List.append_nil] at all
  intro m hm hu
  have since : m ∈ c.world.since u s := World.mem_since_iff.mpr ⟨hm, hu⟩
  rw [received_eq connections hi, received, all, ← split]
  exact List.count_eq_one_of_mem (World.since_nodup ids) since

end Gapless

theorem step_messages (k : c.Consistent) (e : Event) :
    c.world.messages <+: ((system u s).step c e).world.messages := by
  cases e
  case connect  => exact List.prefix_rfl
  case server e =>
    change _ <+: (c.onServer e).world.messages
    obtain h | ⟨h, _⟩ := c.onServer_spec e <;> rw [h]
    exact World.step_messages k.coherent e

theorem gapless_run (es : List Event) (ids : (((system u s).run es).world.messages.map (·.id)).Nodup)
    (started : (system u s).Along (Started s) (system u s).init es)
    (unblocked : (system u s).Along Unblocked (system u s).init es)
    (orderly : (system u s).Along (Orderly u s) (system u s).init es) :
    ((system u s).run es).Gapless u s := by
  induction es using List.reverseRecOn
  case nil => exact ⟨consistent_invariant.init, .inl rfl⟩
  case append_singleton es e ih =>
    have ⟨started, start, _⟩ := System.Along.append.mp started
    have ⟨unblocked, free, _⟩ := System.Along.append.mp unblocked
    have ⟨orderly, order, _⟩ := System.Along.append.mp orderly
    have k := consistent_invariant (u := u) (s := s) |>.run es
    rw [System.run_concat] at ids ⊢
    have ids' := ids.sublist ((step_messages k e).sublist.map _)
    have g := ih ids' started unblocked orderly
    cases e
    case connect  => exact g.connect ids' start order
    case server e =>
      refine g.onServer ids' (free rfl) fun m he => ?_
      subst he
      exact order

-- In every run in which a client connects only when it is caught up, and what is stored while it is
-- connected is broadcast in the order of the store, nothing is lost or repeated: whenever everything is
-- settled, every message behind the starting point has been received once.
theorem lossless_of_orderly (es : List Event)
    (ids : (((system u s).run es).world.messages.map (·.id)).Nodup)
    (started : (system u s).Along (Started s) (system u s).init es)
    (unblocked : (system u s).Along Unblocked (system u s).init es)
    (orderly : (system u s).Along (Orderly u s) (system u s).init es)
    (settled : ((system u s).run es).Settled) : ((system u s).run es).Lossless u s :=
  (gapless_run es ids started unblocked orderly).lossless ids settled

-- A reconnect after a message has been broadcast and received, and before one that is stored already.
theorem lossless_of_orderly_example :
    let m (id : MessageId) : Message := ⟨id, 1, 2, "hello", 0⟩
    let es : List Event := [
      .server <| .create (m 10), .server <| .announce (m 10), .connect, .server <| .stream 0 .fetch,
      .server <| .create (m 11), .server <| .announce (m 11), .server <| .stream 0 .pipe,
      .server <| .stream 0 .redirect, .server <| .stream 0 .recv, .server <| .stream 0 .disconnect,
      .server <| .create (m 12), .connect, .server <| .announce (m 12), .server <| .stream 1 .fetch,
      .server <| .stream 1 .pipe, .server <| .stream 1 .recv]
    ((system 2 10).run es).Lossless 2 10 := by
  intro m es
  have settled : ((system 2 10).run es).Settled :=
    ⟨by decide +kernel, 1, ⟨2, some 11, 1, .streaming, [12], .new, .new, none, [m 10, m 11, m 12], [m 12],
      [m 12]⟩, by decide +kernel, by decide +kernel, ⟨rfl, by decide, rfl⟩, by decide +kernel, rfl, rfl⟩
  have unblocked : (system 2 10).Along Unblocked (system 2 10).init es := by
    simp only [es, System.Along.cons, System.Along.nil, and_true]
    and_intros
    all_goals rintro _ ⟨⟩ _ ⟨⟩
    all_goals exact SubscriptionsHandler.not_blocked_of_absent <| by decide +kernel
  exact lossless_of_orderly es (by decide +kernel) (of_decide_eq_true <| by decide +kernel) unblocked
    (of_decide_eq_true <| by decide +kernel) settled

-- The second message is broadcast before the first, and its reader goes away in between.
theorem not_lossless_of_overtaking :
    ¬∀ (u : UserId) (s : MessageId) (es : List Event),
      (((system u s).run es).world.messages.map (·.id)).Nodup →
      (system u s).Along (Started s) (system u s).init es →
      (system u s).Along Unblocked (system u s).init es → ((system u s).run es).Settled →
        ((system u s).run es).Lossless u s := by
  intro h
  let m (id : MessageId) : Message := ⟨id, 1, 2, "hello", 0⟩
  let es : List Event := [
    .server <| .create (m 10), .server <| .announce (m 10), .connect, .server <| .stream 0 .fetch,
    .server <| .create (m 11), .server <| .create (m 12), .server <| .announce (m 12),
    .server <| .stream 0 .pipe, .server <| .stream 0 .redirect, .server <| .stream 0 .recv,
    .server <| .stream 0 .disconnect, .server <| .announce (m 11), .connect,
    .server <| .stream 1 .fetch]
  have settled : ((system 2 10).run es).Settled :=
    ⟨by decide +kernel, 1, ⟨2, some 12, 1, .streaming, [], .new, .new, none, [m 10, m 11, m 12], [], []⟩,
      by decide +kernel, by decide +kernel, ⟨rfl, by decide, rfl⟩, by decide +kernel, rfl, rfl⟩
  have unblocked : (system 2 10).Along Unblocked (system 2 10).init es := by
    simp only [es, System.Along.cons, System.Along.nil, and_true]
    and_intros
    all_goals rintro _ ⟨⟩ _ ⟨⟩
    all_goals exact SubscriptionsHandler.not_blocked_of_absent <| by decide +kernel
  have lossless := h 2 10 es (by decide +kernel) (of_decide_eq_true <| by decide +kernel) unblocked settled
  exact absurd (lossless (m 11) (by decide +kernel) (by decide)) (by decide +kernel)

end Client
end Pheidippides
