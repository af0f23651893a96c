import Pheidippides.Messenger.Theorems.Client
import Pheidippides.Web.InMemory
import Pheidippides.Web.Theorems.Messages
import Pheidippides.Web.Tab

namespace Pheidippides

open MockDb (lastMessagesInChat)

namespace Page

variable {page : Page} {m : Message} {chatId : UserId} {fetch : Fetch}

-- What the functions of the page do to it, as far as the chat list is left aside.
theorem moveChatToTop_fst (page : Page) (chatId : UserId) :
    ∃ chats, (page.moveChatToTop chatId).1 = { page with chats } := by
  rw [moveChatToTop]
  split <;> exact ⟨_, rfl⟩

theorem moveChatToTop_snd (h : fetch ∈ (page.moveChatToTop chatId).2) : fetch.query = none := by
  rw [moveChatToTop] at h
  split at h
  · simp at h
  · rw [← Option.some.inj h]
    rfl

theorem onMessage_fst (page : Page) (m : Message) :
    ∃ chats, (page.onMessage m).1 = { page.push m with chats } := by
  rw [onMessage]
  split
  · exact moveChatToTop_fst ..
  · exact ⟨_, rfl⟩

theorem onMessage_snd (h : fetch ∈ (page.onMessage m).2) : fetch.query = none := by
  rw [onMessage] at h
  split at h
  · exact moveChatToTop_snd h
  · simp at h

theorem push_eq (h : page.InCurrentChat m) :
    page.push m = { page with messagesBuffer := page.messagesBuffer ++ [m], drawn := true } := by
  rw [push, if_pos h, redrawMessages]

theorem push_eq_self (h : ¬page.InCurrentChat m) : page.push m = page := by
  rw [push, if_neg h]

-- What a message does to a page with a current chat.
theorem push_of_current (h : page.currentChatId = some chatId) :
    (page.push m).messagesBuffer =
        page.messagesBuffer ++ [m].filter (·.Between page.userId chatId) ∧
      (page.push m).listening = page.listening := by
  by_cases hb : m.Between page.userId chatId
  case pos =>
    rw [push_eq ⟨chatId, h, hb⟩]
    simp [hb]
  case neg =>
    have other : ¬page.InCurrentChat m := by
      rintro ⟨c', hc, hb'⟩
      exact hb <| Option.some.inj (hc.symm.trans h) ▸ hb'
    rw [push_eq_self other]
    simp [hb]

theorem push_userId (page : Page) (m : Message) : (page.push m).userId = page.userId := by
  rw [push]
  split <;> rfl

-- What no response changes.
theorem onAnswer_fixed (page : Page) (fetch : Fetch) (answer : Answer) :
    (page.onAnswer fetch answer).userId = page.userId ∧
      (page.onAnswer fetch answer).currentChatId = page.currentChatId ∧
      (page.onAnswer fetch answer).listening = page.listening := by
  unfold onAnswer
  split
  case h_2 =>
    rw [onOldMessagesLoaded]
    split <;> exact ⟨rfl, rfl, rfl⟩
  all_goals exact ⟨rfl, rfl, rfl⟩

-- What is in the buffer after a response was there before, or is in the response.
theorem mem_onAnswer {answer : Answer} (h : m ∈ (page.onAnswer fetch answer).messagesBuffer) :
    m ∈ page.messagesBuffer ∨ ∃ messages c s, answer = .messages messages ∧
      fetch.query = some (c, s) ∧ m ∈ messages := by
  unfold onAnswer at h
  split at h
  case h_1 => exact .inr ⟨_, _, _, rfl, rfl, h⟩
  case h_2 =>
    rw [onOldMessagesLoaded] at h
    split at h
    · exact .inl h
    · exact (List.mem_append.mp h).elim (fun h => .inr ⟨_, _, _, rfl, rfl, h⟩) .inl
  all_goals exact .inl h

end Page

namespace Awaited

variable {a : Awaited} {messages messages' : List Message} {u : UserId}

-- What is known of a fetch whose store now has these messages: what it was answered with is the page of
-- what was stored then, and the message from which it goes on was stored before.
structure Sound (a : Awaited) (messages : List Message) (u : UserId) : Prop where
  stored   : a.stored <+: messages
  known    : ∀ {c s}, a.fetch.query = some (c, some s) → s ∈ messages.map (·.id)
  answered : ∀ {c s answer}, a.fetch.query = some (c, s) → a.answer = some answer →
    answer = .messages (lastMessagesInChat a.stored u c s).reverse ∧
      ∀ id ∈ s, id ∈ a.stored.map (·.id)

theorem Sound.mono (s : a.Sound messages u) (h : messages <+: messages') : a.Sound messages' u where
  stored     := s.stored.trans h
  known hq   := (h.map _).subset <| s.known hq
  answered   := s.answered

theorem Sound.new {fetch : Page.Fetch}
    (known : ∀ {c s}, fetch.query = some (c, some s) → s ∈ messages.map (·.id)) :
    (Awaited.new fetch).Sound messages u where
  stored       := List.nil_prefix
  known        := known
  answered _ h := by cases h

end Awaited

namespace MockDb

variable {db : MockDb} {u c : UserId} {s : Option MessageId} {fetch : Page.Fetch}
  {messages : List Message} {chat : Option User}

theorem answer_eq (open' : db.messages.poisoned = false) (h : fetch.query = some (c, s)) :
    db.answer u fetch = .messages (lastMessagesInChat db.messages.value u c s).reverse := by
  have lock : db.messages.lock = .ok db.messages.value := Mutex.lock_eq_ok_iff.mpr ⟨open', rfl⟩
  cases fetch <;> cases h
  all_goals
    rw [answer, answer.lastMessages, fetchLastMessagesInChat, lock]
    rfl

theorem answer_messages (hq : fetch.query = some (c, s)) (h : db.answer u fetch = .messages messages) :
    ∃ page, db.fetchLastMessagesInChat u c s = .ok page ∧ messages = page.reverse := by
  cases fetch <;> cases hq
  all_goals
    rw [answer, answer.lastMessages] at h
    split at h <;> cases h
    exact ⟨_, ‹_›, rfl⟩

theorem answer_chat (h : db.answer u (.popOrFetchChatNode c) = .chat chat) :
    ∃ users, db.fetchUsers = .ok users ∧ chat = DataAccess.defaultFetchUser users c := by
  rw [answer] at h
  split at h <;> cases h
  exact ⟨_, ‹_›, rfl⟩

end MockDb

namespace Routing

open Handler

variable [Unicode] [Argon2] [UuidText] {server : Server World} {request : Request}
  {text params : String} {u c : UserId}

section

variable [UrlEscape] {fields : String → Option String} {fetch : Page.Fetch} {s : Option MessageId}
  {messages : List Message}

omit [Unicode] [Argon2] [UuidText] [UrlEscape] in
theorem orBadRequest_some {β : Type} (value : β) (f : β → Handler Response) :
    (orBadRequest (some value) >>= f) = f value :=
  rfl

omit [UuidText] [UrlEscape] in
theorem run_authorization (f : Option UserId → Handler Response) (content : Option String) :
    (authorization request >>= f).run content server =
      (f (getAuthorization server.sessions request.headers)).run content server :=
  rfl

omit [UuidText] [UrlEscape] in
theorem run_call {c : Call} (f : Option c.Answer → Handler Response) (content : Option String) :
    (call c >>= f).run content server = (f (c.perform server.app).1.toOption).run content
      { server with app := (c.perform server.app).2, calls := server.calls ++ [c] } :=
  rfl

omit [Unicode] [Argon2] [UuidText] [UrlEscape] in
theorem form_ok {β : Type} (value : β) (f : β → Handler Response) : (form (.ok value) >>= f) = f value :=
  rfl

-- What a page gets out of the responses is what the handlers have put there.
theorem messagesJson_answer (hc : UuidText.parse text = some c)
    (hf : FormData.fromStr ["from"] params = .ok fields) (hs : optionalUuid (fields "from") = some s)
    (hu : getAuthorization server.sessions request.headers = some u) (hq : fetch.query = some (c, s))
    (ha : server.app.db.answer u fetch = .messages messages) :
    ((messagesJson request text params).run request.content server).1 =
      some (.json (.messages true (messages.map .ofMessage) none) []) := by
  obtain ⟨page, hp, rfl⟩ := MockDb.answer_messages hq ha
  have fetched : App.fetchLastMessages server.app u c s = .ok page := by
    change (server.app.db.fetchLastMessagesInChat u c s).mapError _ = _
    rw [hp]
    rfl
  rw [messagesJson, hc, hf, orBadRequest_some, form_ok, hs, orBadRequest_some]
  rw [run_authorization, hu, run_call]
  change ((orServerError (App.fetchLastMessages server.app u c s).toOption >>= _).run _ _).1 = _
  rw [fetched, List.map_reverse]
  rfl

end

theorem chatHtml_answer {chat : Option User} (hc : UuidText.parse text = some c)
    (ha : server.app.db.answer u (.popOrFetchChatNode c) = .chat chat) :
    ((chatHtml text).run request.content server).1 =
      some (.html (.chatHtmlElements chat.toList) []) := by
  obtain ⟨users, hu, rfl⟩ := MockDb.answer_chat ha
  have fetched : App.fetchUser server.app c = .ok (DataAccess.defaultFetchUser users c) := by
    change (server.app.db.fetchUsers.map _).mapError _ = _
    rw [hu]
    rfl
  rw [chatHtml, hc]
  change ((orServerError (App.fetchUser server.app c).toOption >>= _).run _ _).1 = _
  rw [fetched]
  rfl

end Routing

namespace Tab

variable {t : Tab} {w : World} {m : Message} {u c : UserId} {k i : Nat}
  {f : Page → Page × Option Page.Fetch}

theorem events_eq (hs : t.stream = some i) : t.events w =
    (Client.receivedOn w i).drop (Client.receivedOn t.world i).length := by
  rw [events, hs]

theorem call_page : (t.call f).page = (f t.page).1 :=
  rfl

theorem mem_call_fetches {a : Awaited} : a ∈ (t.call f).fetches ↔
    a ∈ t.fetches ∨ ∃ fetch ∈ (f t.page).2, a = .new fetch := by
  simp [call, eq_comm]

theorem answer_eq (h : t.answer k ≠ t) : ∃ fetch stored, t.fetches[k]? = some ⟨fetch, none, stored⟩ ∧
    t.answer k =
      let answered := ⟨fetch, t.world.db.answer t.page.userId fetch, t.world.messages⟩
      { t with fetches := t.fetches.set k answered } := by
  rw [answer] at h ⊢
  split at h
  · next hk => exact ⟨_, _, hk, rfl⟩
  · exact absurd rfl h

-- The fetches of a page are still there after a step in which no response comes.
theorem Loading.of_fetches {t' : Tab} (h : ∀ a ∈ t.fetches, ∃ a' ∈ t'.fetches, a'.fetch = a.fetch) :
    t.Loading c → t'.Loading c := by
  rintro ⟨a, ha, hf⟩
  obtain ⟨a', ha', hf'⟩ := h a ha
  exact ⟨a', ha', hf'.trans hf⟩

theorem call_fetches (t : Tab) (f : Page → Page × Option Page.Fetch) :
    ∀ a ∈ t.fetches, ∃ a' ∈ (t.call f).fetches, a'.fetch = a.fetch :=
  fun a ha => ⟨a, mem_call_fetches.mpr <| .inl ha, rfl⟩

theorem answer_fetches (t : Tab) (k : Nat) :
    ∀ a ∈ t.fetches, ∃ a' ∈ (t.answer k).fetches, a'.fetch = a.fetch := by
  intro a ha
  by_cases h : t.answer k = t
  case pos => exact ⟨a, by rwa [h], rfl⟩
  case neg =>
    obtain ⟨fetch, stored, hk, h⟩ := answer_eq h
    rw [h]
    obtain ⟨j, hj⟩ := List.mem_iff_getElem?.mp ha
    by_cases he : k = j
    · subst he
      obtain rfl := Option.some.inj <| hk.symm.trans hj
      exact ⟨_, List.mem_set (List.getElem?_eq_some_iff.mp hk).choose _, rfl⟩
    · exact ⟨a, List.mem_of_getElem? <| (List.getElem?_set_ne he).trans hj, rfl⟩

theorem arrive_eq (h : t.arrive k ≠ t) : ∃ fetch answer stored,
    t.fetches[k]? = some ⟨fetch, some answer, stored⟩ ∧ t.arrive k =
      { t with page := t.page.onAnswer fetch answer, fetches := t.fetches.eraseIdx k } := by
  rw [arrive] at h ⊢
  split at h
  · next hk => exact ⟨_, _, _, hk, rfl⟩
  · exact absurd rfl h

theorem Loading.of_erase {a : Awaited} (hk : t.fetches[k]? = some a) (h : a.fetch ≠ .loadMessages c) :
    t.Loading c → ∃ a' ∈ t.fetches.eraseIdx k, a'.fetch = .loadMessages c := by
  rintro ⟨a', ha, hf⟩
  obtain ⟨j, hj⟩ := List.mem_iff_getElem?.mp ha
  refine ⟨a', List.mem_eraseIdx_iff_getElem?.mpr ⟨j, fun he => h ?_, hj⟩, hf⟩
  subst he
  obtain rfl := Option.some.inj <| hk.symm.trans hj
  exact hf

-- What holds of every page: the messages which it has are stored, and its fetches are sound.
structure Sound (t : Tab) : Prop where
  coherent : t.world.Coherent
  opened   : ∀ i, t.stream = some i → i < t.world.streams.length
  stored   : ∀ m ∈ t.page.messagesBuffer, m ∈ t.world.messages
  awaited  : ∀ a ∈ t.fetches, a.Sound t.world.messages t.page.userId

namespace Sound

-- An event is the next message in the subscription of the page.
theorem events_spec (s : t.Sound) (e : World.Event) :
    (t.events (t.world.step e) = [] ∧ ∀ i, t.stream = some i →
      Client.receivedOn (t.world.step e) i = Client.receivedOn t.world i) ∨
    ∃ i st m out, e = .stream i .recv ∧ t.stream = some i ∧ t.world.streams[i]? = some st ∧
      st.out.receiverDropped = false ∧ st.out.queue = m :: out ∧ t.events (t.world.step e) = [m] := by
  cases hs : t.stream
  case none   => exact .inl ⟨by rw [events, hs], fun i hi => by cases hi⟩
  case some i =>
    have none' (h : Client.receivedOn (t.world.step e) i = Client.receivedOn t.world i) :
        t.events (t.world.step e) = [] := by
      rw [events_eq hs, h, List.drop_length]
    have hl := s.opened i hs
    by_cases he : e = .stream i .recv
    case neg =>
      have h := Client.receivedOn_step s.coherent hl he
      exact .inl ⟨none' h, fun _ hi => Option.some.inj hi ▸ h⟩
    case pos =>
      subst he
      have hi := List.getElem?_eq_getElem hl
      generalize t.world.streams[i] = st at hi
      have before : Client.receivedOn t.world i = st.received := by rw [Client.receivedOn, hi]; rfl
      have after : Client.receivedOn (t.world.step (.stream i .recv)) i = st.recv.received := by
        rw [World.step, World.onStream_eq hi, Client.receivedOn, List.getElem?_set_self hl]
        rfl
      by_cases hq : st.out.receiverDropped = false ∧ st.out.queue ≠ []
      case neg =>
        have idle : st.recv = st := by
          rw [Stream.recv]
          split
          case h_1 hd hq' => exact absurd ⟨hd, by simp [hq']⟩ hq
          case h_2        => rfl
        have h := after.trans <| idle ▸ before.symm
        exact .inl ⟨none' h, fun _ hi => Option.some.inj hi ▸ h⟩
      case pos =>
        obtain ⟨m, out, ho⟩ := List.exists_cons_of_ne_nil hq.right
        refine .inr ⟨i, st, m, out, rfl, rfl, hi, hq.left, ho, ?_⟩
        rw [events_eq hs, before, after, Stream.recv, hq.left, ho]
        exact List.drop_left

theorem mem_messages_of_event (s : t.Sound) {e : World.Event} (hm : m ∈ t.events (t.world.step e)) :
    m ∈ t.world.messages := by
  obtain ⟨h, _⟩ | ⟨i, st, m', out, rfl, hs, hi, hd, hq, h⟩ := s.events_spec e
  · simp [h] at hm
  · obtain rfl := List.mem_singleton.mp <| h ▸ hm
    have c := World.coherent_invariant.step (.stream i .recv) s.coherent
    have hl := s.opened i hs
    have hi' : (t.world.step (.stream i .recv)).streams[i]? = some st.recv := by
      rw [World.step, World.onStream_eq hi, List.getElem?_set_self hl]
      rfl
    have hm := c.mem_messages_of_mem_received hi' (m := m) <| by simp [Stream.recv, hd, hq]
    exact List.append_nil t.world.messages ▸ World.step_messages_eq s.coherent (.stream i .recv) ▸ hm

theorem call (s : t.Sound) (user : (f t.page).1.userId = t.page.userId)
    (stored : ∀ m ∈ (f t.page).1.messagesBuffer, m ∈ t.world.messages)
    (known : ∀ {fetch c id}, fetch ∈ (f t.page).2 → fetch.query = some (c, some id) →
      id ∈ t.world.messages.map (·.id)) : (t.call f).Sound where
  coherent    := s.coherent
  opened      := s.opened
  stored      := stored
  awaited a h := by
    rw [call_page, user]
    obtain h | ⟨fetch, hf, rfl⟩ := mem_call_fetches.mp h
    · exact s.awaited a h
    · exact .new <| known hf

theorem grow (s : t.Sound) (e : World.Event) : { t with world := t.world.step e }.Sound where
  coherent    := World.coherent_invariant.step e s.coherent
  opened i hi := by
    have h := List.getElem?_eq_getElem <| s.opened i hi
    obtain ⟨_, _, h⟩ | h := World.step_streams s.coherent e h
    all_goals exact (List.getElem?_eq_some_iff.mp h).choose
  stored m hm := (World.step_messages s.coherent e).subset <| s.stored m hm
  awaited a h := (s.awaited a h).mono <| World.step_messages s.coherent e

theorem onMessage (s : t.Sound) (hm : m ∈ t.world.messages) : (t.onMessage m).Sound := by
  obtain ⟨chats, hp⟩ := t.page.onMessage_fst m
  refine s.call (by rw [hp, ← t.page.push_userId m]) ?_ fun hf hq => ?_
  · rw [hp, Page.push]
    split
    · exact fun m' hm' => (List.mem_append.mp hm').elim (s.stored m') (List.mem_singleton.mp · ▸ hm)
    · exact s.stored
  · rw [Page.onMessage_snd hf] at hq
    cases hq

theorem onServer (s : t.Sound) (e : World.Event) : (t.onServer e).Sound := by
  rw [Tab.onServer]
  obtain ⟨h, _⟩ | ⟨i, st, m, out, rfl, hs, hi, hd, hq, h⟩ := s.events_spec e <;> rw [h]
  · exact s.grow _
  · have hm := s.mem_messages_of_event (h ▸ List.mem_singleton_self m)
    exact (s.grow _).onMessage <| (World.step_messages s.coherent _).subset hm

theorem connect (s : t.Sound) : t.connect.Sound := by
  rw [Tab.connect]
  split
  case isFalse => exact s
  case isTrue  =>
    have c := s.coherent.register t.page.userId none
    constructor
    case coherent => exact c
    case opened   =>
      rintro i ⟨⟩
      simp [World.register]
    case stored   => exact s.stored
    case awaited  => exact s.awaited

theorem updateCurrentChat (s : t.Sound) (location : Option UserId) :
    (t.call (·.updateCurrentChat location)).Sound := by
  cases location
  case none    => exact s.call rfl s.stored (by simp [Page.updateCurrentChat])
  case some id =>
    refine s.call rfl s.stored fun hf hq => ?_
    simp only [Page.updateCurrentChat, Option.mem_def, Option.map_eq_some_iff] at hf
    obtain ⟨_, _, rfl⟩ := hf
    cases hq

theorem loadMoreOldMessages (s : t.Sound) : t.loadMoreOldMessages.Sound := by
  rw [Tab.loadMoreOldMessages]
  split
  case isFalse => exact s
  case isTrue  =>
    refine s.call rfl s.stored fun hf hq => ?_
    simp only [Page.loadMoreOldMessages] at hf
    split at hf
    · rw [← Option.some.inj hf] at hq
      simp only [Page.Fetch.query, Option.some.injEq, Prod.mk.injEq, Option.map_eq_some_iff] at hq
      obtain ⟨rfl, m, hm, rfl⟩ := hq
      exact List.mem_map_of_mem <| s.stored m <| List.mem_of_mem_head? hm
    · cases hf

theorem answer (s : t.Sound) (k : Nat) : (t.answer k).Sound := by
  by_cases h : t.answer k = t
  case pos => rwa [h]
  case neg =>
    obtain ⟨fetch, stored, hk, h⟩ := answer_eq h
    have old := s.awaited _ <| List.mem_of_getElem? hk
    rw [h]
    refine ⟨s.coherent, s.opened, s.stored, fun a ha => ?_⟩
    obtain ha | rfl := List.mem_or_eq_of_mem_set ha
    · exact s.awaited a ha
    · refine ⟨List.prefix_rfl, old.known, fun {c start answer} hq he => ?_⟩
      rw [← Option.some.inj he]
      refine ⟨MockDb.answer_eq s.coherent.unpoisoned hq, fun id hid => ?_⟩
      exact old.known (hid ▸ hq)

theorem arrive (s : t.Sound) (k : Nat) : (t.arrive k).Sound := by
  by_cases h : t.arrive k = t
  case pos => rwa [h]
  case neg =>
    obtain ⟨fetch, answer, stored, hk, h⟩ := arrive_eq h
    have old := s.awaited _ <| List.mem_of_getElem? hk
    rw [h]
    refine ⟨s.coherent, s.opened, fun m hm => ?_, fun a ha => ?_⟩
    · obtain hm | ⟨messages, c, start, rfl, hq, hm⟩ := Page.mem_onAnswer hm
      · exact s.stored m hm
      · obtain ⟨he, _⟩ := old.answered hq rfl
        have hm := List.mem_reverse.mp <| Page.Answer.messages.inj he ▸ hm
        exact old.stored.subset (MockDb.of_mem_lastMessagesInChat hm).right
    · rw [(t.page.onAnswer_fixed fetch answer).left]
      exact s.awaited a <| List.mem_of_mem_eraseIdx ha

end Sound

theorem onServer_world (t : Tab) (e : World.Event) : (t.onServer e).world = t.world.step e := by
  have h (ms : List Message) (t : Tab) : (ms.foldl Tab.onMessage t).world = t.world := by
    induction ms generalizing t
    case nil          => rfl
    case cons m ms ih => exact ih (t.onMessage m)
  exact h ..

theorem step_messages (s : t.Sound) (e : Event) : t.world.messages <+: (t.step e).world.messages := by
  cases e
  case server e => exact t.onServer_world e ▸ World.step_messages s.coherent e
  case connect =>
    rw [step, connect]
    split <;> exact List.prefix_rfl
  case loadMoreOldMessages =>
    rw [step, loadMoreOldMessages]
    split <;> exact List.prefix_rfl
  case answer k =>
    rw [step, answer]
    split <;> exact List.prefix_rfl
  case arrive k =>
    rw [step, arrive]
    split <;> exact List.prefix_rfl
  all_goals exact List.prefix_rfl

theorem load_sound (c : w.Coherent) (u : UserId) (chats : List User) (location : Option UserId) :
    (load w u chats location).Sound := by
  refine Sound.call ⟨c, by simp, by simp [Page.render], by simp⟩ ?_ ?_ fun hf hq => ?_
  all_goals cases location
  case refine_3.some =>
    simp only [Page.onLoad, Page.updateCurrentChat, Option.mem_def, Option.map_eq_some_iff] at hf
    obtain ⟨_, _, rfl⟩ := hf
    cases hq
  case refine_3.none => simp [Page.onLoad, Page.updateCurrentChat] at hf
  all_goals simp [Page.onLoad, Page.updateCurrentChat, Page.render]

theorem Sound.step (s : t.Sound) (e : Event) : (t.step e).Sound :=
  match e with
  | .server e            => s.onServer e
  | .connect             => s.connect
  | .chatWith id         => s.updateCurrentChat (some id)
  | .popstate location   => s.updateCurrentChat location
  | .loadMoreOldMessages => s.loadMoreOldMessages
  | .chatSearchBox _     => ⟨s.coherent, s.opened, s.stored, s.awaited⟩
  | .showChats _         => ⟨s.coherent, s.opened, s.stored, s.awaited⟩
  | .answer k            => s.answer k
  | .arrive k            => s.arrive k

theorem sound_invariant (c : w.Coherent) (u : UserId) (chats : List User)
    (location : Option UserId) : (system w u chats location).Invariant Sound where
  init     := load_sound c u chats location
  step e s := s.step e

theorem exec_messages {chats : List User} {location : Option UserId} (s : t.Sound) (es : List Event) :
    t.world.messages <+: ((system w u chats location).exec t es).world.messages := by
  have h := System.exec_induction (S := system w u chats location) es
    (P := fun t' => t'.Sound ∧ t.world.messages <+: t'.world.messages) ⟨s, List.prefix_rfl⟩
    fun t' e ⟨s, h⟩ => ⟨s.step e, h.trans <| step_messages s e⟩
  exact h.right

-- The messages of a run have distinct ids if they have them in its end, and so have those of its states.
theorem along_induction {P : Tab → Prop} {c : Tab → Event → Prop} {chats : List User}
    {location : Option UserId} {es : List Event} (coherent : w.Coherent)
    (h : (system w u chats location).Along c (load w u chats location) es)
    (ids : (((system w u chats location).run es).world.messages.map (·.id)).Nodup)
    (init : P (load w u chats location))
    (step : ∀ {t : Tab} (e : Event), t.Sound → ((t.step e).world.messages.map (·.id)).Nodup → c t e →
      P t → P (t.step e)) : P ((system w u chats location).run es) := by
  have inv := sound_invariant coherent u chats location
  have h := h.induction (P := fun t => t.Sound ∧ ((t.world.messages.map (·.id)).Nodup → P t))
    ⟨inv.init, fun _ => init⟩ fun {t} e hc ⟨s, hp⟩ => ⟨inv.step e s, fun ids => ?_⟩
  · exact h.right ids
  · exact step e s ids hc <| hp <| ((step_messages s e).sublist.map _).nodup ids

end Tab
end Pheidippides
