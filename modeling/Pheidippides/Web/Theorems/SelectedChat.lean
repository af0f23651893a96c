import Pheidippides.Web.Theorems.Tab
import Mathlib.Data.List.TakeWhile

namespace Pheidippides.Tab

open MockDb (lastMessagesInChat)

variable {t t' : Tab} {w : World} {m : Message} {u c : UserId} {k : Nat}

theorem takeWhile_of_isPrefix {α : Type} {l l' : List α} {p : α → Bool} {a : α} (h : l <+: l')
    (ha : a ∈ l) (hp : ¬p a) : l'.takeWhile p = l.takeWhile p := by
  obtain ⟨r, rfl⟩ := h
  rw [List.takeWhile_append, if_neg]
  intro hl
  exact hp <| List.mem_takeWhile_imp <| (List.takeWhile_prefix p).eq_of_length hl ▸ ha

theorem Oldest.grow (h : t.Oldest c m) (hm : m ∈ t.world.messages)
    (hw : t.world.messages <+: t'.world.messages) (user : t'.page.userId = t.page.userId) :
    t'.Oldest c m := by
  rw [Oldest, takeWhile_of_isPrefix hw hm (by simp), user]
  exact h

-- An empty page from a message of the chat says that there is none before it.
theorem oldest_of_answer {stored : List Message} (ids : (t.world.messages.map (·.id)).Nodup)
    (hs : stored <+: t.world.messages) (hm : m ∈ stored)
    (h : lastMessagesInChat stored t.page.userId c (some m.id) = []) : t.Oldest c m := by
  rw [Oldest, takeWhile_of_isPrefix hs hm (by simp)]
  obtain ⟨older, newer, rfl, hn⟩ := List.eq_append_cons_of_mem hm
  have none' : (older.reverse.filter (·.Between t.page.userId c)) = [] := by
    rw [MockDb.lastMessagesInChat_some, MockDb.skipPast_reverse <| (hs.sublist.map _).nodup ids] at h
    exact (List.take_eq_nil_iff.mp h).resolve_left (by decide)
  rw [Scan.takeWhile_append hn]
  simpa using none'

namespace ShowsChat

theorem of_nil (h : t.page.messagesBuffer = []) : t.ShowsChat c where
  between := by simp [h]
  oldest  := by simp [h]

-- The part of the state which matters.
theorem congr (s : t.Sound) (h : t.ShowsChat c) (hw : t.world.messages <+: t'.world.messages)
    (user : t'.page.userId = t.page.userId)
    (buffer : t'.page.messagesBuffer = t.page.messagesBuffer)
    (flag : t'.page.noMoreOldMessages = t.page.noMoreOldMessages) : t'.ShowsChat c where
  between         := by
    rw [buffer, user]
    exact h.between
  oldest hf m hm  := by
    rw [flag] at hf
    rw [buffer] at hm
    exact (h.oldest hf m hm).grow (s.stored m <| List.mem_of_mem_head? hm) hw user

theorem onAnswer (s : t.Sound) (ids : (t.world.messages.map (·.id)).Nodup) (h : t.ShowsChat c)
    {fetch : Page.Fetch} {answer : Page.Answer} {stored : List Message}
    (sound : Awaited.Sound ⟨fetch, some answer, stored⟩ t.world.messages t.page.userId)
    (fits : ∀ messages, answer = .messages messages → t.Fits c fetch messages) (fetches : List Awaited) :
    { t with page := t.page.onAnswer fetch answer, fetches }.ShowsChat c := by
  cases fetch
  case loadMessages c' =>
    have ⟨he, _⟩ := sound.answered rfl rfl
    rw [he]
    exact of_nil <| fits _ he
  case popOrFetchChatNode c' =>
    cases answer <;> exact h.congr s List.prefix_rfl rfl rfl rfl
  case loadMoreOldMessages c' start =>
    obtain ⟨he, known⟩ := sound.answered rfl rfl
    generalize hl : (lastMessagesInChat stored t.page.userId c' start).reverse = messages at he
    subst he
    have fits := fits _ rfl
    cases messages
    case nil =>
      refine ⟨h.between, fun _ m hm => ?_⟩
      obtain ⟨rfl, rfl⟩ | oldest := fits m hm
      · obtain ⟨m', hm', he⟩ := List.mem_map.mp <| known m.id rfl
        have stored := s.stored m <| List.mem_of_mem_head? hm
        obtain rfl := World.eq_of_id_eq ids (sound.stored.subset hm') stored he
        exact oldest_of_answer ids sound.stored hm' <| List.reverse_eq_nil_iff.mp hl
      · exact oldest
    case cons m messages =>
      obtain ⟨rfl, oldest⟩ := fits
      refine ⟨fun m' hm' => ?_, fun flag m' hm' => ?_⟩
      · obtain hm' | hm' := List.mem_append.mp hm'
        · exact MockDb.between_of_mem_lastMessagesInChat <| List.mem_reverse.mp <| hl ▸ hm'
        · exact h.between m' hm'
      · obtain rfl := Option.some.inj hm'
        replace flag : t.page.noMoreOldMessages = true := flag
        exact oldest.resolve_left <| by simp [flag]

end ShowsChat

-- As long as the page is not about to load the selected chat, it shows it.
def Steady (t : Tab) : Prop :=
  ∀ c, t.page.currentChatId = some c → t.Loading c ∨ t.ShowsChat c

namespace Steady

theorem updateCurrentChat (s : t.Sound) {id : UserId} (h : t.Selectable id) :
    (t.call (·.updateCurrentChat (some id))).Steady := by
  rintro c ⟨⟩
  obtain node | loading | shows := h
  · obtain ⟨chat, hn⟩ := Option.isSome_iff_exists.mp node
    refine .inl ⟨.new (.loadMessages id), mem_call_fetches.mpr <| .inr ⟨_, ?_, rfl⟩, rfl⟩
    exact Option.mem_def.mpr <| Option.map_eq_some_iff.mpr ⟨chat, hn, rfl⟩
  · exact .inl <| loading.of_fetches <| t.call_fetches _
  · exact .inr <| shows.congr s List.prefix_rfl rfl rfl rfl

-- The step does nothing that bears upon the messages of the page.
theorem congr (s : t.Sound) (h : t.Steady) (hw : t.world.messages <+: t'.world.messages)
    (user : t'.page.userId = t.page.userId) (current : t'.page.currentChatId = t.page.currentChatId)
    (buffer : t'.page.messagesBuffer = t.page.messagesBuffer)
    (flag : t'.page.noMoreOldMessages = t.page.noMoreOldMessages)
    (fetches : ∀ a ∈ t.fetches, ∃ a' ∈ t'.fetches, a'.fetch = a.fetch) : t'.Steady := by
  intro c hc
  obtain loading | shows := h c <| current ▸ hc
  · exact .inl <| loading.of_fetches fetches
  · exact .inr <| shows.congr s hw user buffer flag

theorem loadMoreOldMessages (s : t.Sound) (h : t.Steady) : t.loadMoreOldMessages.Steady := by
  rw [Tab.loadMoreOldMessages]
  split
  case isFalse => exact h
  case isTrue  =>
    exact h.congr s List.prefix_rfl rfl rfl rfl rfl <| t.call_fetches _

theorem answer (s : t.Sound) (h : t.Steady) (k : Nat) : (t.answer k).Steady := by
  have fetches := t.answer_fetches k
  rw [Tab.answer] at fetches ⊢
  split at fetches
  · exact h.congr s List.prefix_rfl rfl rfl rfl rfl fetches
  · exact h

theorem onMessage (s : t.Sound) (h : t.Steady) (hm : m ∈ t.world.messages)
    (first : ∀ c, t.page.currentChatId = some c → ¬t.Loading c → t.page.messagesBuffer = [] →
      t.page.noMoreOldMessages → m.Between t.page.userId c → t.Oldest c m) : (t.onMessage m).Steady := by
  obtain ⟨chats, hp⟩ := t.page.onMessage_fst m
  replace hp : (t.onMessage m).page = { t.page.push m with chats } := hp
  by_cases hs : t.page.InCurrentChat m
  case neg =>
    rw [Page.push_eq_self hs] at hp
    refine h.congr s List.prefix_rfl ?_ ?_ ?_ ?_ <| t.call_fetches _
    all_goals rw [hp]
  case pos =>
    rw [Page.push_eq hs] at hp
    intro c hc
    replace hc : t.page.currentChatId = some c := by rwa [hp] at hc
    by_cases loading : t.Loading c
    case pos => exact .inl <| loading.of_fetches <| t.call_fetches _
    case neg =>
      have shows := (h c hc).resolve_left loading
      obtain ⟨c', hc', between⟩ := hs
      obtain rfl := Option.some.inj <| hc.symm.trans hc'
      refine .inr ⟨?_, ?_⟩
      · simp only [hp, List.mem_append, List.mem_singleton]
        rintro m' (hm' | rfl)
        · exact shows.between m' hm'
        · exact between
      · simp only [hp]
        intro flag m' hm'
        have grow (hm : m' ∈ t.world.messages) (oldest : t.Oldest c m') : (t.onMessage m).Oldest c m' :=
          oldest.grow hm List.prefix_rfl <| by rw [hp]
        cases hb : t.page.messagesBuffer
        case nil =>
          obtain rfl : m = m' := by simpa [hb] using hm'
          exact grow hm <| first c hc loading hb flag between
        case cons m'' _ =>
          have head : t.page.messagesBuffer.head? = some m' := by simpa [hb] using hm'
          exact grow (s.stored m' <| List.mem_of_mem_head? head) <| shows.oldest flag m' head

-- A response either is the one the page waits for, or fits the chat.
theorem arrive (s : t.Sound) (ids : (t.world.messages.map (·.id)).Nodup) (h : t.Steady)
    (o : t.Orderly (.arrive k)) : (t.arrive k).Steady := by
  by_cases ht : t.arrive k = t
  case pos => rwa [ht]
  case neg =>
    obtain ⟨fetch, answer, stored, hk, ht⟩ := arrive_eq ht
    have sound := s.awaited _ <| List.mem_of_getElem? hk
    rw [ht]
    intro c hc
    rw [(t.page.onAnswer_fixed fetch answer).right.left] at hc
    by_cases loading : ∃ a ∈ t.fetches.eraseIdx k, a.fetch = .loadMessages c
    case pos => exact .inl loading
    case neg =>
      refine .inr ?_
      by_cases now : fetch = .loadMessages c
      case pos =>
        subst now
        have ⟨he, _⟩ := sound.answered rfl rfl
        rw [he]
        refine ⟨fun m hm => ?_, fun flag => by cases flag⟩
        exact MockDb.between_of_mem_lastMessagesInChat <| List.mem_reverse.mp hm
      case neg =>
        have never : ¬t.Loading c := loading ∘ Loading.of_erase hk now
        exact ((h c hc).resolve_left never).onAnswer s ids sound (fun messages he =>
          o c hc never fetch messages stored <| he ▸ hk) (t.fetches.eraseIdx k)

theorem connect (s : t.Sound) (h : t.Steady) : t.connect.Steady := by
  rw [Tab.connect]
  split
  case isFalse => exact h
  case isTrue  => exact h.congr s List.prefix_rfl rfl rfl rfl rfl fun a ha => ⟨a, ha, rfl⟩

theorem onServer {e : World.Event} (s : t.Sound) (h : t.Steady) (o : t.Orderly (.server e)) :
    (t.onServer e).Steady := by
  have grows := World.step_messages s.coherent e
  have sound := s.grow e
  have grown : { t with world := t.world.step e }.Steady :=
    h.congr s grows rfl rfl rfl rfl fun a ha => ⟨a, ha, rfl⟩
  rw [Tab.onServer]
  obtain ⟨h', _⟩ | ⟨_, _, m, _, _, _, _, _, _, h'⟩ := s.events_spec e
  · rwa [h']
  · rw [h']
    have event := h' ▸ List.mem_singleton_self m
    have hm := s.mem_messages_of_event event
    refine onMessage sound grown (grows.subset hm) fun c hc loading hb flag between => ?_
    exact (o c hc loading hb flag m event between).grow hm grows rfl

theorem step (s : t.Sound) (e : Event) (ids : (t.world.messages.map (·.id)).Nodup) (h : t.Steady)
    (o : t.Orderly e) : (t.step e).Steady :=
  match e with
  | .server e             => h.onServer s o
  | .connect              => h.connect s
  | .chatWith _           => updateCurrentChat s o
  | .popstate (some _)    => updateCurrentChat s o
  | .popstate none        => fun _ hc => by cases hc
  | .loadMoreOldMessages  => h.loadMoreOldMessages s
  | .chatSearchBox _      => h.congr s List.prefix_rfl rfl rfl rfl rfl fun a ha => ⟨a, ha, rfl⟩
  | .showChats _          => h.congr s List.prefix_rfl rfl rfl rfl rfl fun a ha => ⟨a, ha, rfl⟩
  | .answer k             => h.answer s k
  | .arrive k             => h.arrive s ids o

-- The condition leaves out nothing: a step after which the page is steady is orderly.
theorem orderly_updateCurrentChat {id : UserId} (h : (t.call (·.updateCurrentChat (some id))).Steady) :
    t.Selectable id := by
  obtain ⟨a, ha, hf⟩ | shows := h id rfl
  · obtain ha | ⟨fetch, hc, rfl⟩ := mem_call_fetches.mp ha
    · exact .inr <| .inl ⟨a, ha, hf⟩
    · obtain ⟨chat, hc, _⟩ := Option.map_eq_some_iff.mp hc
      exact .inl <| Option.isSome_iff_exists.mpr ⟨chat, hc⟩
  · exact .inr <| .inr ⟨shows.between, shows.oldest⟩

theorem orderly_onServer {e : World.Event} (s : t.Sound) (h : (t.onServer e).Steady) :
    t.Orderly (.server e) := by
  intro c hc loading hb flag m hm between
  obtain ⟨none', _⟩ | ⟨i, _, m', _, rfl, _, _, _, _, h'⟩ := s.events_spec e
  · simp [none'] at hm
  obtain rfl : m = m' := by simpa [h'] using hm
  rw [Tab.onServer, h', List.foldl_cons, List.foldl_nil] at h
  have same := World.step_messages_eq s.coherent (.stream i .recv)
  generalize t.world.step (.stream i .recv) = w at h same
  obtain ⟨chats, hp⟩ := t.page.onMessage_fst m
  rw [Page.push_eq ⟨c, hc, between⟩] at hp
  replace hp : ({ t with world := w }.onMessage m).page = _ := hp
  obtain ⟨a, ha, hf⟩ | shows := h c (by rwa [hp])
  · obtain ha | ⟨fetch, fetched, rfl⟩ := mem_call_fetches.mp ha
    · exact absurd ⟨a, ha, hf⟩ loading
    · have none' := Page.onMessage_snd fetched
      rw [show fetch = _ from hf] at none'
      cases none'
  · have oldest := shows.oldest (by rwa [hp]) m (by rw [hp, hb]; rfl)
    have stored : w.messages = t.world.messages := same.trans <| List.append_nil _
    rw [Oldest, hp] at oldest
    rw [Oldest, ← stored]
    exact oldest

theorem orderly_arrive (s : t.Sound) (h : (t.arrive k).Steady) : t.Orderly (.arrive k) := by
  intro c hc loading fetch messages stored hk
  have answered {c' : UserId} {start : Option MessageId} (hq : fetch.query = some (c', start)) :
      ∀ m ∈ messages, m.Between t.page.userId c' := by
    obtain ⟨he, _⟩ := (s.awaited _ <| List.mem_of_getElem? hk).answered hq rfl
    replace he := Page.Answer.messages.inj he
    exact fun m hm => MockDb.between_of_mem_lastMessagesInChat <| List.mem_reverse.mp <| he ▸ hm
  rw [Tab.arrive, hk] at h
  obtain ⟨a, ha, hf⟩ | shows := h c <| (t.page.onAnswer_fixed ..).right.left.trans hc
  case inl => exact absurd ⟨a, List.mem_of_mem_eraseIdx ha, hf⟩ loading
  case inr =>
    cases fetch
    case popOrFetchChatNode => trivial
    case loadMessages c'    =>
      cases messages
      case nil      => rfl
      case cons m _ =>
        obtain rfl := (answered rfl m <| .head _).unique <| shows.between m <| .head _
        exact absurd ⟨_, List.mem_of_getElem? hk, rfl⟩ loading
    case loadMoreOldMessages c' start =>
      cases messages
      case nil      => exact fun m hm => .inr <| shows.oldest rfl m hm
      case cons m _ =>
        refine ⟨(answered rfl m <| .head _).unique <| shows.between m <| .head _, ?_⟩
        cases flag : t.page.noMoreOldMessages
        case false => exact .inl rfl
        case true  => exact .inr <| shows.oldest flag m rfl

theorem step_iff (s : t.Sound) (e : Event) (ids : (t.world.messages.map (·.id)).Nodup) (h : t.Steady) :
    (t.step e).Steady ↔ t.Orderly e := by
  refine ⟨fun h' => ?_, h.step s e ids⟩
  cases e
  case server e          => exact orderly_onServer s h'
  case chatWith          => exact orderly_updateCurrentChat h'
  case popstate location =>
    cases location
    case none => trivial
    case some => exact orderly_updateCurrentChat h'
  case arrive            => exact orderly_arrive s h'
  all_goals trivial

theorem load (w : World) (u : UserId) (chats : List User) (location : Option UserId) :
    (Tab.load w u chats location).Steady := by
  intro c _
  cases location <;> exact .inr <| .of_nil rfl

-- The page is steady all along a run exactly if the steps of the run are orderly.
theorem along_iff {chats : List User} {location : Option UserId} {es : List Event} (s : t.Sound)
    (ids : (((system w u chats location).exec t es).world.messages.map (·.id)).Nodup) (h : t.Steady) :
    (system w u chats location).Along (fun t e => (t.step e).Steady) t es ↔
      (system w u chats location).Along Orderly t es := by
  induction es generalizing t
  case nil          => exact .rfl
  case cons e es ih =>
    have iff := h.step_iff s e <| ((exec_messages s (e :: es)).sublist.map _).nodup ids
    have rest := ih (s.step e) ids
    rw [System.Along.cons, System.Along.cons]
    constructor
    case mp  => exact fun ⟨steady, along⟩ => ⟨iff.mp steady, (rest steady).mp along⟩
    case mpr => exact fun ⟨o, along⟩ => ⟨iff.mpr o, (rest <| iff.mpr o).mpr along⟩

end Steady

-- In a run of orderly steps, the page shows the chat which is selected.
theorem shows_selected_chat {es₀ : List World.Event} {chats : List User} {location : Option UserId}
    {es : List Event}
    (h : (system (World.system.run es₀) u chats location).Along Orderly
      (load (World.system.run es₀) u chats location) es)
    (ids : (((system (World.system.run es₀) u chats location).run es).world.messages.map (·.id)).Nodup) :
    ((system (World.system.run es₀) u chats location).run es).ShowsSelectedChat := by
  have coherent := World.coherent_invariant.run es₀
  have steady := along_induction (P := Steady) coherent h ids (.load _ _ _ _) fun e s ids o steady =>
    steady.step s e (((step_messages s e).sublist.map _).nodup ids) o
  intro c hc idle
  refine (steady c hc).resolve_left fun ⟨a, ha, hf⟩ => ?_
  have none' := idle a ha
  rw [hf] at none'
  cases none'

theorem shows_selected_chat_example :
    let w := World.system.run [.create ⟨7, 2, 1, "hello", 0⟩, .create ⟨8, 1, 2, "hi", 0⟩]
    ((system w 1 [⟨"b", 2⟩] none).run [.chatWith 2, .answer 0, .arrive 0, .loadMoreOldMessages,
      .answer 0, .arrive 0]).ShowsSelectedChat := by
  refine @shows_selected_chat 1 [.create _, .create _] _ _ _
    ⟨.inl rfl, trivial, ?_, trivial, trivial, ?_, trivial⟩ (by decide)
  · rintro _ ⟨⟩ loading
    exact absurd ⟨_, .head _, rfl⟩ loading
  · rintro _ ⟨⟩ _ _ _ _ ⟨⟩ _ ⟨⟩
    exact .inl ⟨rfl, rfl⟩

-- The messages of the first chat come after the second one has been selected and its messages have come.
theorem not_shows_selected_chat :
    ¬((system (World.system.run [.create ⟨7, 2, 1, "hello", 0⟩]) 1 [⟨"b", 2⟩, ⟨"c", 3⟩] none).run
      [.chatWith 2, .chatWith 3, .answer 0, .answer 1, .arrive 1, .arrive 0]).ShowsSelectedChat := by
  intro h
  have shows := h 3 rfl fun _ ha => by cases ha
  exact absurd (shows.between ⟨7, 2, 1, "hello", 0⟩ <| .head _) <| by decide

end Pheidippides.Tab
