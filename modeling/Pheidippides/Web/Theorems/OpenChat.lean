import Pheidippides.Web.Theorems.Tab

open Broadcast

namespace Pheidippides

open MockDb (lastMessagesInChat)

section AsyncUtils

variable {α β : Type} {hub hub' : Hub α} {r : ReceiverId} {sender out target : Unbounded β}

theorem Piped.receiverDropped {f : α → Option β} {exit : Option Exit} :
    Piped f hub r sender (exit, hub', out) → out.receiverDropped = sender.receiverDropped
  | .taken _ | .waiting _ | .dropped _ | .lagged | .closed .. => rfl

theorem Redirected.receiverDropped {source filtered : Unbounded β} :
    Redirected source target (filtered, out) → out.receiverDropped = target.receiverDropped
  | .moved _ | .waiting _ | .ended _ => rfl

end AsyncUtils

namespace Stream

variable {st : Stream} {db : MockDb} {hub : Hub Message} {a : Action}

theorem act_streaming (h : st.phase = .streaming) : (st.act db hub a).2.phase = .streaming :=
  match st.act db hub a, st.act_spec db hub a with
  | _, .abandoned hr           => by simp [h] at hr
  | _, .fetched ..             => rfl
  | _, .idle | _, .piped .. | _, .filtered .. | _, .redirected .. | _, .received _
  | _, .disconnected           => h

-- What has once been disturbed stays so.
theorem undisturbed_of_act (hp : st.phase = .streaming) (h : (st.act db hub a).2.Undisturbed) :
    st.Undisturbed :=
  match st.act db hub a, st.act_spec db hub a, h with
  | _, .idle, h              => h
  | _, .abandoned hr, _      => by simp [hp] at hr
  | _, .fetched hr .., _     => by simp [hp] at hr
  | _, .piped _ hx _ p, h    => ⟨hp, by simp [hx], p.receiverDropped ▸ h.connected⟩
  | _, .filtered _ hx .., h  => ⟨hp, by simp [hx], h.connected⟩
  | _, .redirected _ _ r, h  => ⟨hp, h.unlagged, r.receiverDropped ▸ h.connected⟩
  | _, .received _, h        => ⟨hp, h.unlagged, h.connected⟩
  | _, .disconnected, h      => by simpa [Unbounded.dropReceiver] using h.connected

-- Without a starting point, nothing but what arrives comes out, and all of it.
theorem live_of_startingPoint (hub : Hub Message) {messages : List Message} (f : st.Fetched messages)
    (h : st.startingPoint = none) : st.fetched = [] ∧ st.live hub = hub.arrived st.rx := by
  have fetched : st.fetched = [] := by rw [f.fetched, h]
  exact ⟨fetched, by simp [live, f.sent, fetched]⟩

end Stream

namespace World

variable {w : World} {i : Nat} {st : Stream} {m : Message} {e : Event}

theorem Coherent.received_isPrefix (c : w.Coherent) (hi : w.streams[i]? = some st)
    (hs : st.startingPoint = none) : st.received <+: w.hub.arrived st.rx := by
  have ⟨fetched, live⟩ := Stream.live_of_startingPoint w.hub (c.fetched hi) hs
  have h := (c.sound hi).received_isPrefix
  rwa [fetched, live, List.nil_append] at h

-- Nothing arrives in the channel of a stream but by an announcement.
theorem step_arrived (c : w.Coherent) (hi : w.streams[i]? = some st)
    (he : ∀ m, e = .announce m → m ∉ w.pending) :
    (w.step e).hub.arrived st.rx = w.hub.arrived st.rx := by
  cases e
  case create m => rw [step, c.create_eq]
  case announce m => rw [step, announce, if_neg <| he m rfl]
  case register u startingPoint =>
    have hr : st.rx < w.handler.hub.receivers.length := by
      rw [c.numbered hi, ← c.length]
      exact (List.getElem?_eq_some_iff.mp hi).choose
    exact (c.wired.register_others (u := u) hr).right.right
  case cleanup => rfl
  case stream j a =>
    cases hj : w.streams[j]?
    case none     => rw [step, onStream, hj]
    case some st' =>
      rw [step, onStream_eq hj]
      exact (st'.act_frame w.db w.hub a).arrived' _

theorem announce_arrived (c : w.Coherent) (hi : w.streams[i]? = some st) (hl : w.hub.Live st.rx)
    (hm : m ∈ w.pending) : ∃ ms, (w.announce m).hub.arrived st.rx = w.hub.arrived st.rx ++ ms ∧
      (∀ m' ∈ ms, m' = m) ∧ (w.handler.Reaches m st.userId → ms = [m]) := by
  classical
  rw [announce, if_pos hm]
  refine ⟨_, c.wired.handleNewMessage_arrived <| c.subscribed hi hl, ?_, fun hr => if_pos hr⟩
  split <;> simp

section Queue

theorem queuedOn_eq (hi : w.streams[i]? = some st) :
    w.queuedOn i = (w.hub.arrived st.rx).drop st.received.length := by
  rw [queuedOn, hi]

theorem receivedOn_eq (hi : w.streams[i]? = some st) : Client.receivedOn w i = st.received := by
  rw [Client.receivedOn, hi]
  rfl

-- What a step leaves of a stream if nothing is received on it.
theorem step_stream (c : w.Coherent) (hi : w.streams[i]? = some st)
    (hr : Client.receivedOn (w.step e) i = Client.receivedOn w i) : ∃ st',
      (w.step e).streams[i]? = some st' ∧ st'.rx = st.rx ∧ st'.received = st.received := by
  have fixed {st' : Stream} (hi' : (w.step e).streams[i]? = some st') (hx : st'.rx = st.rx) :
      ∃ st', (w.step e).streams[i]? = some st' ∧ st'.rx = st.rx ∧ st'.received = st.received := by
    rw [receivedOn_eq hi, receivedOn_eq hi'] at hr
    exact ⟨st', hi', hx, hr⟩
  obtain ⟨a, _, hi'⟩ | hi' := step_streams c e hi
  · exact fixed hi' (st.act_fixed w.db w.hub a).right.right
  · exact fixed hi' rfl

theorem queuedOn_step (c : w.Coherent) (hl : i < w.streams.length)
    (hr : Client.receivedOn (w.step e) i = Client.receivedOn w i)
    (he : ∀ m, e = .announce m → m ∉ w.pending) : (w.step e).queuedOn i = w.queuedOn i := by
  have hi := List.getElem?_eq_getElem hl
  obtain ⟨st', hi', hx, hr⟩ := step_stream c hi hr
  rw [queuedOn_eq hi, queuedOn_eq hi', hx, hr, step_arrived c hi he]

theorem queuedOn_announce (c : w.Coherent) (hi : w.streams[i]? = some st) (hl : w.hub.Live st.rx)
    (hs : st.startingPoint = none) (hm : m ∈ w.pending) :
    ∃ ms, (w.announce m).queuedOn i = w.queuedOn i ++ ms ∧ (∀ m' ∈ ms, m' = m) ∧
      (w.handler.Reaches m st.userId → ms = [m]) := by
  obtain ⟨ms, arrived, only, reaches⟩ := announce_arrived c hi hl hm
  have hi' : (w.announce m).streams[i]? = some st := by rwa [announce, if_pos hm]
  refine ⟨ms, ?_, only, reaches⟩
  rw [queuedOn_eq hi, queuedOn_eq hi', arrived,
    List.drop_append_of_le_length (c.received_isPrefix hi hs).length_le]

-- What is received is what comes first in the queue.
theorem queuedOn_recv (c : w.Coherent) (hi : w.streams[i]? = some st) (hs : st.startingPoint = none)
    {out : List Message} (hd : st.out.receiverDropped = false) (hq : st.out.queue = m :: out) :
    w.queuedOn i = m :: (w.step (.stream i .recv)).queuedOn i := by
  have hl := (List.getElem?_eq_some_iff.mp hi).choose
  have hi' : (w.step (.stream i .recv)).streams[i]? = some st.recv := by
    rw [step, onStream_eq hi, List.getElem?_set_self hl]
    rfl
  have received : st.recv.received = st.received ++ [m] := by rw [Stream.recv, hd, hq]
  have rx : st.recv.rx = st.rx := (st.act_fixed w.db w.hub .recv).right.right
  have next := (World.coherent_invariant.step (.stream i .recv) c).received_isPrefix hi' <|
    (st.act_fixed w.db w.hub .recv).right.left.trans hs
  have arrived := step_arrived (e := .stream i .recv) c hi (by simp)
  rw [received, rx, show (system.step w _).hub = (w.step _).hub from rfl, arrived] at next
  obtain ⟨rest, h⟩ := next
  rw [queuedOn_eq hi, queuedOn_eq hi', received, rx, arrived, ← h, List.append_assoc, List.drop_left,
    ← List.append_assoc, List.drop_left]
  rfl

theorem queuedOn_register (w : World) (u : UserId) (startingPoint : Option MessageId) :
    (w.register u startingPoint).queuedOn w.streams.length = [] := by
  have arrived := (w.handler.register_self u).right.right
  have hi : (w.register u startingPoint).streams[w.streams.length]? =
      some (.new u startingPoint (w.handler.register u).1) := by
    simp [register]
  rw [queuedOn_eq hi]
  exact congrArg (List.drop 0) arrived

-- What is to be announced changes by what is stored and by what is announced.
theorem step_pending (c : w.Coherent) (he : ∀ m, e = .announce m → m ∉ w.pending) :
    (w.step e).pending = w.pending ++ e.stored.toList := by
  cases e
  case create m => rw [step, c.create_eq]; rfl
  case announce m =>
    rw [step, announce, if_neg <| he m rfl]
    exact (List.append_nil _).symm
  case stream =>
    simp only [step, World.onStream, Event.stored]
    split <;> exact (List.append_nil _).symm
  all_goals exact (List.append_nil _).symm

end Queue
end World

namespace Tab

variable {t : Tab} {w : World} {m : Message} {u c : UserId} {k : Nat}

-- What stays as it is as long as the chat is not changed. Without a node for the chat the page is deaf.
structure Stays (t : Tab) (c : UserId) : Prop where
  current    : t.page.currentChatId = some c
  own        : ∀ a ∈ t.fetches, ∀ c' s, a.fetch.query = some (c', s) → c' = c
  subscribed : ∀ i st, t.stream = some i → t.world.streams[i]? = some st →
    st.userId = t.page.userId ∧ st.startingPoint = none ∧ st.phase = .streaming
  deaf       : t.page.listening = false →
    t.stream = none ∧ t.page.drawn = false ∧ t.fetches = [] ∧ t.page.messagesBuffer = []

namespace Stays

theorem listening (s : t.Stays c) (h : t.stream ≠ none ∨ t.page.drawn ∨ t.fetches ≠ []) :
    t.page.listening = true := by
  by_contra hn
  obtain ⟨stream, drawn, fetches, _⟩ := s.deaf <| by simpa using hn
  simp [stream, drawn, fetches] at h

theorem call {f : Page → Page × Option Page.Fetch} (s : t.Stays c)
    (current : (f t.page).1.currentChatId = t.page.currentChatId)
    (user : (f t.page).1.userId = t.page.userId) (listening : (f t.page).1.listening)
    (own : ∀ fetch ∈ (f t.page).2, ∀ c' s, fetch.query = some (c', s) → c' = c) : (t.call f).Stays c where
  current    := current.trans s.current
  own a ha   := by
    obtain ha | ⟨fetch, hf, rfl⟩ := mem_call_fetches.mp ha
    · exact s.own a ha
    · exact own fetch hf
  subscribed := by
    rw [call_page, user]
    exact s.subscribed
  deaf h     := by simp [call_page, listening] at h

theorem grow (s : t.Stays c) (d : t.Sound) (e : World.Event) :
    { t with world := t.world.step e }.Stays c where
  current            := s.current
  own                := s.own
  subscribed i st hs hi := by
    have hl := d.opened i hs
    have h := List.getElem?_eq_getElem hl
    generalize t.world.streams[i] = st' at h
    obtain ⟨user, start, streaming⟩ := s.subscribed i st' hs h
    obtain ⟨a, _, h'⟩ | h' := World.step_streams d.coherent e h
    all_goals obtain rfl := Option.some.inj <| hi.symm.trans h'
    · have ⟨user', start', _⟩ := Stream.act_fixed t.world.db t.world.hub st' a
      exact ⟨user'.trans user, start'.trans start, Stream.act_streaming streaming⟩
    · exact ⟨user, start, streaming⟩
  deaf               := s.deaf

theorem onMessage (s : t.Stays c) (h : t.stream ≠ none) : (t.onMessage m).Stays c := by
  obtain ⟨chats, hp⟩ := t.page.onMessage_fst m
  have listening := s.listening (.inl h)
  refine s.call ?_ ?_ ?_ fun fetch hf c' start hq => ?_
  case refine_4 =>
    rw [Page.onMessage_snd hf] at hq
    cases hq
  all_goals
    rw [hp, Page.push]
    split
  all_goals first | rfl | exact listening

theorem onServer (s : t.Stays c) (d : t.Sound) (e : World.Event) : (t.onServer e).Stays c := by
  rw [Tab.onServer]
  obtain ⟨h, _⟩ | ⟨_, _, m, _, _, hs, _, _, _, h⟩ := d.events_spec e <;> rw [h]
  · exact s.grow d e
  · exact (s.grow d e).onMessage <| by simp [hs]

theorem connect (s : t.Stays c) : t.connect.Stays c := by
  rw [Tab.connect]
  split
  case isFalse => exact s
  case isTrue h =>
    refine ⟨s.current, s.own, ?_, fun hn => by simp [h.left] at hn⟩
    rintro i st ⟨⟩ hi
    obtain rfl : _ = st := by simpa [World.register] using hi
    exact ⟨rfl, rfl, rfl⟩

theorem loadMoreOldMessages (s : t.Stays c) : t.loadMoreOldMessages.Stays c := by
  rw [Tab.loadMoreOldMessages]
  split
  case isFalse  => exact s
  case isTrue h =>
    have listening : t.page.listening := h.elim id fun h => s.listening <| .inr <| .inl h
    refine s.call rfl rfl listening fun fetch hf c' start hq => ?_
    simp only [Page.loadMoreOldMessages, s.current] at hf
    split at hf
    case h_1 he =>
      cases he
      rw [← Option.some.inj hf] at hq
      exact (Prod.mk.inj <| Option.some.inj hq).left.symm
    case h_2 => cases hf

theorem answer (s : t.Stays c) (k : Nat) : (t.answer k).Stays c := by
  by_cases h : t.answer k = t
  case pos => rwa [h]
  case neg =>
    obtain ⟨fetch, stored, hk, h⟩ := answer_eq h
    have own := s.own _ <| List.mem_of_getElem? hk
    rw [h]
    refine ⟨s.current, fun a ha => ?_, s.subscribed, fun hn => ?_⟩
    · obtain ha | rfl := List.mem_or_eq_of_mem_set ha
      · exact s.own a ha
      · exact own
    · simp [(s.deaf hn).right.right.left] at hk

theorem arrive (s : t.Stays c) (k : Nat) : (t.arrive k).Stays c := by
  by_cases h : t.arrive k = t
  case pos => rwa [h]
  case neg =>
    obtain ⟨fetch, answer, stored, hk, h⟩ := arrive_eq h
    have listening := s.listening <| .inr <| .inr <| List.ne_nil_of_mem <| List.mem_of_getElem? hk
    rw [h]
    have ⟨user, current, listening'⟩ := t.page.onAnswer_fixed fetch answer
    refine ⟨current.trans s.current, fun a ha => s.own a <| List.mem_of_mem_eraseIdx ha, ?_, fun hn => ?_⟩
    · rw [user]
      exact s.subscribed
    · simp [listening', listening] at hn

theorem step (s : t.Stays c) (d : t.Sound) (e : Event) (h : t.Seamless c e) : (t.step e).Stays c :=
  match e with
  | .server e            => s.onServer d e
  | .connect             => s.connect
  | .loadMoreOldMessages => s.loadMoreOldMessages
  | .chatSearchBox _     => ⟨s.current, s.own, s.subscribed, s.deaf⟩
  | .showChats _         => ⟨s.current, s.own, s.subscribed, s.deaf⟩
  | .answer k            => s.answer k
  | .arrive k            => s.arrive k

end Stays

theorem load_stays (w : World) (u c : UserId) (chats : List User) : (load w u chats (some c)).Stays c := by
  refine ⟨rfl, fun a ha c' s hq => ?_, (fun _ _ hs _ => nomatch hs), fun hn => ⟨rfl, rfl, ?_, rfl⟩⟩
  · obtain ha | ⟨fetch, hf, rfl⟩ := mem_call_fetches.mp ha
    · cases ha
    · obtain ⟨_, _, rfl⟩ := Option.map_eq_some_iff.mp hf
      exact (Prod.mk.inj <| Option.some.inj hq).left.symm
  · have absent : ((Page.render u chats).chatNode c).isSome = false := hn
    rw [Option.isSome_eq_false_iff, Option.isNone_iff_eq_none] at absent
    change ((((Page.render u chats).chatNode c).map fun _ => _).toList.map Awaited.new) = []
    rw [absent]
    rfl

-- The subscription of the page, if there is one yet, has neither lagged nor been dropped.
def Undisturbed (t : Tab) : Prop :=
  ∀ i st, t.stream = some i → t.world.streams[i]? = some st → st.Undisturbed

theorem Undisturbed.of_step (s : t.Stays c) (d : t.Sound) {e : World.Event}
    (h : { t with world := t.world.step e }.Undisturbed) : t.Undisturbed := by
  intro i st hs hi
  obtain ⟨a, _, hi'⟩ | hi' := World.step_streams d.coherent e hi
  · exact Stream.undisturbed_of_act (s.subscribed i st hs hi).right.right <| h i _ hs hi'
  · exact h i st hs hi'

theorem Undisturbed.live {i : Nat} {st : Stream} (h : t.Undisturbed) (d : t.Sound)
    (hs : t.stream = some i) (hi : t.world.streams[i]? = some st) : t.world.hub.Live st.rx := by
  have sound := d.coherent.sound hi
  have undisturbed := h i st hs hi
  exact sound.live (by simp [undisturbed.streaming]) <| sound.running undisturbed

theorem queued_some {i : Nat} (hs : t.stream = some i) : t.queued = t.world.queuedOn i := by
  rw [queued, hs]

theorem queued_none (hs : t.stream = none) : t.queued = [] := by
  rw [queued, hs]

section Due

variable {e : World.Event}

-- What is stored is due, ...
theorem due_step (d : t.Sound) (hr : ∀ i, t.stream = some i →
      Client.receivedOn (t.world.step e) i = Client.receivedOn t.world i)
    (he : ∀ m, e = .announce m → m ∉ t.world.pending) :
    let t' := { t with world := t.world.step e }
    ∃ ms, t'.due c = t.due c ++ ms ∧ t'.history c = t.history c ++ ms := by
  refine ⟨e.stored.toList.filter (·.Between t.page.userId c), ?_, ?_⟩
  · have queued : { t with world := t.world.step e }.queued = t.queued := by
      rw [queued, queued]
      cases hs : t.stream
      case none   => rfl
      case some i => exact World.queuedOn_step d.coherent (d.opened i hs) (hr i hs) he
    rw [due, due, queued, World.step_pending d.coherent he, ← List.append_assoc, List.filter_append]
  · rw [history, history, World.step_messages_eq d.coherent e, List.filter_append]

-- ... and it stays so when it is announced.
theorem due_announce (s : t.Stays c) (d : t.Sound) (h : t.Undisturbed) (hm : m ∈ t.world.pending)
    (seamless : m.Between t.page.userId c → t.stream ≠ none ∧ t.world.Unblocked (.announce m) ∧
      (t.world.pending.filter (·.Between t.page.userId c)).head? = some m) :
    { t with world := t.world.announce m }.due c = t.due c := by
  have pending : (t.world.announce m).pending = t.world.pending.erase m := by
    rw [World.announce, if_pos hm]
  rw [due, due, pending, List.filter_append, List.filter_append, ← List.erase_filter]
  by_cases hb : m.Between t.page.userId c
  case pos =>
    obtain ⟨stream, unblocked, first⟩ := seamless hb
    obtain ⟨i, hs⟩ := Option.ne_none_iff_exists'.mp stream
    have hl := d.opened i hs
    have hi := List.getElem?_eq_getElem hl
    generalize t.world.streams[i] = st at hi
    obtain ⟨user, start, _⟩ := s.subscribed i st hs hi
    have live := h.live d hs hi
    have reaches := d.coherent.reaches hi live (user ▸ hb.concerns) unblocked
    obtain ⟨ms, queued, _, all⟩ := World.queuedOn_announce d.coherent hi live start hm
    obtain ⟨rest, hp⟩ := List.head?_eq_some_iff.mp first
    rw [queued_some hs, queued_some (t := { t with world := t.world.announce m }) hs, queued,
      all reaches, hp]
    simp [hb]
  case neg =>
    have others : m ∉ t.world.pending.filter (·.Between t.page.userId c) := by simp [hb]
    rw [List.erase_of_not_mem others]
    congr 1
    obtain hs | ⟨i, hs⟩ := t.stream.eq_none_or_eq_some
    · rw [queued_none hs, queued_none (t := { t with world := t.world.announce m }) hs]
    · have hl := d.opened i hs
      have hi := List.getElem?_eq_getElem hl
      generalize t.world.streams[i] = st at hi
      have start := (s.subscribed i st hs hi).right.left
      obtain ⟨ms, queued, only, _⟩ := World.queuedOn_announce d.coherent hi (h.live d hs hi) start hm
      have none' : ms.filter (·.Between t.page.userId c) = [] :=
        List.filter_eq_nil_iff.mpr fun m' hm' => by simpa [only m' hm'] using hb
      rw [queued_some hs, queued_some (t := { t with world := t.world.announce m }) hs, queued,
        List.filter_append, none', List.append_nil]

end Due

-- What is on the page and what is due make up the chat from some message on.
def Joined (t : Tab) (c : UserId) : Prop :=
  t.page.listening → ¬t.Loading c → t.Undisturbed → t.page.messagesBuffer ++ t.due c <:+ t.history c

theorem page_suffix {stored page : List Message} (hs : stored <+: t.world.messages)
    (due : t.due c = t.since c stored) (h : page <:+ stored.filter (·.Between t.page.userId c)) :
    page ++ t.due c <:+ t.history c := by
  obtain ⟨newer, hn⟩ := hs
  obtain ⟨older, ho⟩ := h
  refine ⟨older, ?_⟩
  rw [due, since, history, ← List.append_assoc, ho, ← hn, List.drop_left, List.filter_append]

-- Older messages come right before the first one on the page.
theorem older_suffix {stored older : List Message} {id : MessageId}
    (ids : (t.world.messages.map (·.id)).Nodup) (hs : stored <+: t.world.messages)
    (known : id ∈ stored.map (·.id)) (first : t.page.messagesBuffer.head?.map (·.id) = some id)
    (h : (lastMessagesInChat stored t.page.userId c (some id)).reverse = older)
    (joined : t.page.messagesBuffer ++ t.due c <:+ t.history c) :
    older ++ t.page.messagesBuffer ++ t.due c <:+ t.history c := by
  obtain ⟨m, hm, rfl⟩ := Option.map_eq_some_iff.mp first
  obtain ⟨rest, hb⟩ := List.head?_eq_some_iff.mp hm
  obtain ⟨before, joined⟩ := joined
  obtain ⟨newer, stored⟩ := hs
  have page := MockDb.lastMessagesInChat_before_suffix ids <| by
    rw [← history, ← joined, hb, List.cons_append]
  rw [← stored, MockDb.lastMessagesInChat_append (stored ▸ ids) known, h] at page
  obtain ⟨before, page⟩ := page
  exact ⟨before, by rw [← joined, ← page, List.append_assoc, List.append_assoc]⟩

namespace Joined

theorem grow {e : World.Event} (j : t.Joined c) (s : t.Stays c) (d : t.Sound)
    (h : t.Seamless c (.server e)) (hr : ∀ i, t.stream = some i →
      Client.receivedOn (t.world.step e) i = Client.receivedOn t.world i) :
    { t with world := t.world.step e }.Joined c := by
  intro listening loading undisturbed
  replace undisturbed := undisturbed.of_step s d
  have joined := j listening loading undisturbed
  by_cases he : ∃ m, e = .announce m ∧ m ∈ t.world.pending
  case pos =>
    obtain ⟨m, rfl, hm⟩ := he
    have stored : (t.world.step (.announce m)).messages = t.world.messages :=
      (World.step_messages_eq d.coherent _).trans <| List.append_nil _
    have due := due_announce s d undisturbed hm (h listening loading hm)
    rw [World.step] at stored ⊢
    rw [due, history, stored]
    exact joined
  case neg =>
    obtain ⟨ms, due, history⟩ := due_step (c := c) d hr fun m hm hp => he ⟨m, hm, hp⟩
    obtain ⟨older, joined⟩ := joined
    rw [due, history, ← joined]
    exact ⟨older, by simp⟩

-- An event moves from what is due to the page.
theorem event {e : World.Event} (j : t.Joined c) (s : t.Stays c) (d : t.Sound)
    (h : t.events (t.world.step e) = [m]) :
    ({ t with world := t.world.step e }.onMessage m).Joined c := by
  obtain ⟨chats, hp⟩ := t.page.onMessage_fst m
  obtain ⟨none', _⟩ | ⟨i, st, m', out, rfl, hs, hi, hd, hq, h'⟩ := d.events_spec e
  · simp [none'] at h
  obtain rfl : m' = m := by simpa [h'] using h
  have start := (s.subscribed i st hs hi).right.left
  have queue := World.queuedOn_recv d.coherent hi start hd hq
  have pending := World.step_pending (e := .stream i .recv) d.coherent (by simp)
  have stored := World.step_messages_eq d.coherent (.stream i .recv)
  have undisturbed := @Undisturbed.of_step t c s d (.stream i .recv)
  have fetches := @call_fetches { t with world := t.world.step (.stream i .recv) } (·.onMessage m')
  generalize t.world.step (.stream i .recv) = w at queue pending stored undisturbed fetches
  simp only [World.Event.stored, Option.toList, List.append_nil] at pending stored
  have page : ({ t with world := w }.onMessage m').page = { t.page.push m' with chats } := hp
  have world : ({ t with world := w }.onMessage m').world = w := rfl
  have queued' : ({ t with world := w }.onMessage m').queued = w.queuedOn i :=
    queued_some (t := { t with world := w }.onMessage m') hs
  intro listening loading undisturbed'
  have undisturbed := undisturbed undisturbed'
  replace loading := loading ∘ Loading.of_fetches fetches
  generalize { t with world := w }.onMessage m' = t' at page world queued' listening
  have user : t'.page.userId = t.page.userId := by rw [page, ← t.page.push_userId m']
  have due : t.due c = [m'].filter (·.Between t.page.userId c) ++ t'.due c := by
    rw [Tab.due, Tab.due, user, world, queued_some hs, queue, queued', pending, ← List.filter_append]
    rfl
  have history : t'.history c = t.history c := by
    rw [Tab.history, Tab.history, user, world, stored]
  obtain ⟨buffer, listening'⟩ := Page.push_of_current (m := m') s.current
  rw [page] at listening ⊢
  rw [buffer, history, List.append_assoc, ← due]
  exact j (listening' ▸ listening) loading undisturbed

theorem onServer {e : World.Event} (j : t.Joined c) (s : t.Stays c) (d : t.Sound)
    (h : t.Seamless c (.server e)) : (t.onServer e).Joined c := by
  rw [Tab.onServer]
  obtain ⟨h', hr⟩ | ⟨_, _, m, _, _, _, _, _, _, h'⟩ := d.events_spec e <;> rw [h']
  · exact j.grow s d h hr
  · exact j.event s d h'

theorem connect (j : t.Joined c) : t.connect.Joined c := by
  rw [Tab.connect]
  split
  case isFalse => exact j
  case isTrue h =>
    intro listening loading _
    have joined := j listening loading fun i st hs _ => by simp [h.right] at hs
    rw [due, queued_none h.right] at joined
    rw [due, queued_some rfl, World.queuedOn_register]
    exact joined

theorem loadMoreOldMessages (j : t.Joined c) : t.loadMoreOldMessages.Joined c := by
  rw [Tab.loadMoreOldMessages]
  split
  case isFalse => exact j
  case isTrue  => exact fun listening loading => j listening <| loading ∘ .of_fetches (t.call_fetches _)

theorem answer (j : t.Joined c) (k : Nat) : (t.answer k).Joined c := by
  have fetches := t.answer_fetches k
  rw [Tab.answer] at fetches ⊢
  split at fetches
  · exact fun listening loading => j listening <| loading ∘ .of_fetches fetches
  · exact j

theorem arrive (j : t.Joined c) (s : t.Stays c) (d : t.Sound)
    (ids : (t.world.messages.map (·.id)).Nodup) (h : t.Seamless c (.arrive k)) :
    (t.arrive k).Joined c := by
  by_cases ht : t.arrive k = t
  case pos => rwa [ht]
  case neg =>
    obtain ⟨fetch, answer, stored, hk, ht⟩ := arrive_eq ht
    have hm := List.mem_of_getElem? hk
    have sound := d.awaited _ hm
    have own := s.own _ hm
    rw [ht]
    cases fetch
    case loadMessages c' =>
      obtain rfl := own c' none rfl
      have ⟨he, _⟩ := sound.answered rfl rfl
      rw [he]
      exact fun _ _ _ => page_suffix sound.stored (h _ _ stored <| he ▸ hk) <|
        MockDb.lastMessagesInChat_none_suffix ..
    case popOrFetchChatNode c' =>
      have never := Loading.of_erase (c := c) hk (by simp)
      cases answer <;> exact fun listening loading => j listening (loading ∘ never)
    case loadMoreOldMessages c' start =>
      obtain rfl := own c' start rfl
      have he := (sound.answered rfl rfl).left
      have never := Loading.of_erase (c := c') hk (by simp)
      generalize hl : (lastMessagesInChat stored t.page.userId c' start).reverse = messages at he
      subst he
      cases messages
      case nil => exact fun listening loading => j listening (loading ∘ never)
      case cons m messages =>
        intro listening loading undisturbed
        have joins := h _ _ stored hk (loading ∘ never) (by simp)
        change (m :: messages) ++ t.page.messagesBuffer ++ t.due c' <:+ t.history c'
        cases start
        case none =>
          obtain ⟨empty, due⟩ := joins
          rw [empty, List.append_nil, ← hl]
          exact page_suffix sound.stored due <| MockDb.lastMessagesInChat_none_suffix ..
        case some id =>
          have known := (sound.answered rfl rfl).right id rfl
          exact older_suffix ids sound.stored known joins hl <| j listening (loading ∘ never) undisturbed

theorem step (j : t.Joined c) (s : t.Stays c) (d : t.Sound) (e : Event)
    (ids : (t.world.messages.map (·.id)).Nodup) (h : t.Seamless c e) : (t.step e).Joined c :=
  match e with
  | .server _            => j.onServer s d h
  | .connect             => j.connect
  | .loadMoreOldMessages => j.loadMoreOldMessages
  | .chatSearchBox _     => j
  | .showChats _         => j
  | .answer k            => j.answer k
  | .arrive _            => j.arrive s d ids h

theorem load (w : World) (u c : UserId) (chats : List User) : (load w u chats (some c)).Joined c := by
  intro listening loading
  replace listening : ((Page.render u chats).chatNode c).isSome := listening
  obtain ⟨chat, hc⟩ := Option.isSome_iff_exists.mp listening
  refine absurd ⟨.new (.loadMessages c), mem_call_fetches.mpr <| .inr ⟨_, ?_, rfl⟩, rfl⟩ loading
  exact Option.mem_def.mpr <| Option.map_eq_some_iff.mpr ⟨chat, hc, rfl⟩

end Joined

theorem Settled.of_drained {i : Nat} {st : Stream} (idle : t.fetches = []) (sent : t.world.pending = [])
    (hs : t.stream = some i) (hi : t.world.streams[i]? = some st) (undisturbed : st.Undisturbed)
    (drained : st.Drained t.world.hub) : t.Settled where
  idle          := by simp [Idle, idle]
  sent          := sent
  drained j hj  := by
    obtain rfl := Option.some.inj <| hs.symm.trans hj
    exact ⟨st, hi, undisturbed, drained⟩

theorem Settled.due_eq (h : t.Settled) (s : t.Stays c) (d : t.Sound) : t.due c = [] := by
  have queued : t.queued = [] := by
    obtain hs | ⟨i, hs⟩ := t.stream.eq_none_or_eq_some
    · exact queued_none hs
    · obtain ⟨st, hi, undisturbed, drained⟩ := h.drained i hs
      have start := (s.subscribed i st hs hi).right.left
      have ⟨fetched, live⟩ := Stream.live_of_startingPoint t.world.hub (d.coherent.fetched hi) start
      have received := (d.coherent.sound hi).received_eq undisturbed drained
      rw [fetched, live, List.nil_append] at received
      rw [queued_some hs, World.queuedOn_eq hi, received, List.drop_length]
  rw [due, queued, h.sent]
  rfl

-- In a run of seamless steps, the page has the chat from some message on whenever all has come to it.
theorem gapless {es₀ : List World.Event} {chats : List User} {es : List Event}
    (h : (system (World.system.run es₀) u chats (some c)).Along (Seamless · c)
      (load (World.system.run es₀) u chats (some c)) es)
    (ids : (((system (World.system.run es₀) u chats (some c)).run es).world.messages.map
      (·.id)).Nodup)
    (settled : ((system (World.system.run es₀) u chats (some c)).run es).Settled) :
    ((system (World.system.run es₀) u chats (some c)).run es).Gapless c := by
  have coherent := World.coherent_invariant.run es₀
  obtain ⟨s, joined⟩ := along_induction (P := fun t => t.Stays c ∧ t.Joined c) coherent h ids
    ⟨load_stays .., .load _ _ _ _⟩ fun e d ids h ⟨s, j⟩ =>
      ⟨s.step d e h, j.step s d e (((step_messages d e).sublist.map _).nodup ids) h⟩
  have d := (sound_invariant coherent u chats (some c)).run es
  generalize (system (World.system.run es₀) u chats (some c)).run es = t at *
  have suffix : t.page.messagesBuffer <:+ t.history c := by
    cases listening : t.page.listening
    case false =>
      rw [(s.deaf listening).right.right.right]
      exact List.nil_suffix
    case true  =>
      have loading : ¬t.Loading c := fun ⟨a, ha, hf⟩ => by
        have none' := settled.idle a ha
        rw [hf] at none'
        cases none'
      have joined := joined listening loading fun i st hs hi => by
        obtain ⟨st', hi', undisturbed, _⟩ := settled.drained i hs
        exact Option.some.inj (hi.symm.trans hi') ▸ undisturbed
      rwa [settled.due_eq s d, List.append_nil] at joined
  exact ⟨suffix, ((suffix.sublist.trans List.filter_sublist).map _).nodup ids⟩

theorem gapless_example :
    let w := World.system.run [.create ⟨7, 2, 1, "hello", 0⟩, .announce ⟨7, 2, 1, "hello", 0⟩]
    let es := [.connect, .answer 0, .arrive 0, .loadMoreOldMessages, .answer 0, .arrive 0,
      .server (.create ⟨8, 2, 1, "hi", 0⟩), .server (.announce ⟨8, 2, 1, "hi", 0⟩),
      .server (.stream 0 .pipe), .server (.stream 0 .recv)]
    ((system w 1 [⟨"b", 2⟩] (some 2)).run es).Gapless 2 := by
  intro w es
  have hi : ((system w 1 [⟨"b", 2⟩] (some 2)).run es).world.streams[0]? =
      some { Stream.new 1 none 0 with received := [⟨8, 2, 1, "hi", 0⟩] } := by decide +kernel
  have settled : ((system w 1 [⟨"b", 2⟩] (some 2)).run es).Settled :=
    .of_drained (by decide +kernel) (by decide +kernel) (by decide +kernel) hi ⟨rfl, by decide, rfl⟩
      ⟨by decide +kernel, rfl, rfl⟩
  refine @gapless 1 2 [.create _, .announce _] _ es ⟨trivial, trivial, ?_, trivial, trivial, ?_, trivial,
    ?_, trivial, trivial, trivial⟩ (by decide +kernel) settled
  · rintro _ _ _ ⟨⟩
    decide +kernel
  · rintro _ _ _ ⟨⟩
    exact fun _ hn => absurd rfl hn
  · intro _ _ _ _
    refine ⟨by decide +kernel, ?_, by decide +kernel⟩
    rintro _ ⟨⟩ ⟨_, ⟨_, hc, _⟩, _⟩
    cases hc

-- A message which is broadcast before the event source is registered, after the response has been
-- computed, is lost. One which is stored before and broadcast after that comes twice.
theorem not_gapless :
    let w := World.system.run [.create ⟨7, 2, 1, "hello", 0⟩, .announce ⟨7, 2, 1, "hello", 0⟩]
    let lost := (system w 1 [⟨"b", 2⟩] (some 2)).run [.answer 0,
      .server (.create ⟨8, 2, 1, "hi", 0⟩), .server (.announce ⟨8, 2, 1, "hi", 0⟩), .connect, .arrive 0]
    let twice := (system w 1 [⟨"b", 2⟩] (some 2)).run [.connect,
      .server (.create ⟨8, 2, 1, "hi", 0⟩), .answer 0, .arrive 0, .server (.announce ⟨8, 2, 1, "hi", 0⟩),
      .server (.stream 0 .pipe), .server (.stream 0 .recv)]
    (lost.Settled ∧ ¬lost.Gapless 2) ∧ (twice.Settled ∧ ¬twice.Gapless 2) := by
  intro w lost twice
  have lost_settled : lost.Settled :=
    .of_drained (by decide +kernel) (by decide +kernel) (by decide +kernel)
      (show lost.world.streams[0]? = some (.new 1 none 0) by decide +kernel) ⟨rfl, by decide, rfl⟩
      ⟨by decide +kernel, rfl, rfl⟩
  have twice_settled : twice.Settled :=
    .of_drained (by decide +kernel) (by decide +kernel) (by decide +kernel)
      (show twice.world.streams[0]? =
        some { Stream.new 1 none 0 with received := [⟨8, 2, 1, "hi", 0⟩] } by decide +kernel)
      ⟨rfl, by decide, rfl⟩ ⟨by decide +kernel, rfl, rfl⟩
  refine ⟨⟨lost_settled, fun h => ?_⟩, twice_settled, fun h => ?_⟩
  · exact absurd h.suffix <| by decide +kernel
  · exact absurd h.once <| by decide +kernel

end Tab
end Pheidippides
