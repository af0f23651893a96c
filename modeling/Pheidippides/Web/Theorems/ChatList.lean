import Pheidippides.Objects.Theorems.Chats
import Pheidippides.Objects.Theorems.Messages
import Pheidippides.Web.ChatList

namespace Pheidippides

open Page

namespace MockDb

variable {m : Message} {u : UserId}

theorem chatInfo_eq (users : List (UserId × String)) (h : m.Concerns u) :
    chatInfo (usernames users) u m = some (chatEntry users <| messageChatId u m) := by
  by_cases hs : m.sender = u
  · simp [chatInfo, messageChatId, chatEntry, hs]
  · simp [chatInfo, messageChatId, chatEntry, hs, h.resolve_left hs]

end MockDb

namespace Page

variable {page : Page} {m : Message} {chat : User}

-- What a message does to the chat list of the page, whose other fields which matter stay the same.
theorem onMessage_chats (box : page.chatSearchBox = "") : (page.onMessage m).1.userId = page.userId ∧
    (page.onMessage m).1.chatSearchBox = "" ∧
    ((page.onMessage m).1.chats, (page.onMessage m).2) =
      match page.chatNode (messageChatId page.userId m) with
      | some chat => (chat :: page.chats.eraseP (·.id = messageChatId page.userId m), none)
      | none      => (page.chats, some <| .popOrFetchChatNode <| messageChatId page.userId m) := by
  have pushed : ∃ buffer drawn, page.push m = { page with messagesBuffer := buffer, drawn } := by
    rw [push]
    split <;> exact ⟨_, _, rfl⟩
  obtain ⟨buffer, drawn, hp⟩ := pushed
  rw [onMessage, hp]
  simp only [box, if_true, moveChatToTop, chatNode]
  cases page.chats.find? (·.id = messageChatId page.userId m) <;> simp

end Page

theorem eraseP_congr {α : Type} {p q : α → Bool} {l : List α} (h : ∀ a ∈ l, p a = q a) :
    l.eraseP p = l.eraseP q := by
  induction l
  case nil         => rfl
  case cons a l ih =>
    have ⟨head, tail⟩ := List.forall_mem_cons.mp h
    rw [List.eraseP_cons, List.eraseP_cons, head, ih tail]

namespace ChatList

open MockDb

variable {l : ChatList} {users : List (UserId × String)} {ids : List UserId} {m : Message} {u : UserId}
  {db : MockDb} {chats : List User}

-- The rendered list is the one on the page behind the nodes which are awaited, the last one first.
structure Follows (users : List (UserId × String)) (ids : List UserId) (l : ChatList) : Prop where
  fetched : l.db.fetchUsers = .ok users
  open'   : l.db.messages.poisoned = false
  box     : l.page.chatSearchBox = ""
  fetches : l.fetches = ids.map .popOrFetchChatNode
  known   : ∀ id ∈ ids, DataAccess.defaultFetchUser users id = some (chatEntry users id)
  list    : usersChats users l.db.messages.value l.page.userId =
    ids.reverse.map (chatEntry users) ++ l.page.chats

namespace Follows

theorem render (hu : db.fetchUsers = .ok users) (open' : db.messages.poisoned = false) (u : UserId) :
    (render db u (usersChats users db.messages.value u)).Follows users [] where
  fetched := hu
  open'   := open'
  box     := rfl
  fetches := rfl
  known   := by simp
  list    := rfl

theorem eq_of_mem (f : l.Follows users ids) {chat : User} (h : chat ∈ l.page.chats) :
    chat = chatEntry users chat.id :=
  eq_chatEntry <| f.list ▸ List.mem_append_right _ h

theorem erase_eq (f : l.Follows users ids) (id : UserId) :
    l.page.chats.erase (chatEntry users id) = l.page.chats.eraseP (·.id = id) := by
  rw [List.erase_eq_eraseP]
  refine eraseP_congr fun chat hc => ?_
  rw [Bool.eq_iff_iff, beq_iff_eq, decide_eq_true_iff]
  exact ⟨fun he => he ▸ rfl, fun he => by rw [f.eq_of_mem hc, he]⟩

-- A chat which has no node and is not awaited is not in the rendered list.
theorem not_mem (f : l.Follows users ids) {id : UserId} (node : l.page.chatNode id = none)
    (fresh : .popOrFetchChatNode id ∉ l.fetches) :
    chatEntry users id ∉ ids.reverse.map (chatEntry users) ++ l.page.chats := by
  rw [List.mem_append, List.mem_map]
  rintro (⟨id', hid, he⟩ | hc)
  · obtain rfl : id' = id := congrArg User.id he
    exact fresh <| f.fetches ▸ List.mem_map_of_mem (List.mem_reverse.mp hid)
  · exact absurd (List.find?_eq_none.mp node _ hc) <| by simp [chatEntry]

theorem defaultFetchUser_eq (f : l.Follows users ids) {id : UserId} (h : l.Fetchable id) :
    DataAccess.defaultFetchUser users id = some (chatEntry users id) := by
  obtain ⟨users', name, hu, hn, known⟩ := h
  obtain rfl : users' = users := Except.ok.inj <| hu.symm.trans f.fetched
  rw [known, chatEntry, hn]
  rfl

theorem live (f : l.Follows users ids) (o : l.Orderly (.live m)) :
    ∃ ids, (l.live m).Follows users ids := by
  rw [ChatList.live]
  split
  case isFalse    => exact ⟨ids, f⟩
  case isTrue  hm =>
    have ⟨user, box, moved⟩ := l.page.onMessage_chats (m := m) f.box
    have next := @usersChats_concat_some _ l.db.messages.value _ _ _ <| chatInfo_eq users hm
    rw [f.list] at next
    replace o := o hm
    rw [chatId] at o
    rw [createMessage_eq f.open']
    cases hn : l.page.chatNode (messageChatId l.page.userId m)
    -- The list is the rendered one, and both move the chat.
    case some chat =>
      rw [hn] at o moved
      obtain ⟨chats, fetch⟩ := Prod.mk.inj moved
      obtain rfl : ids = [] := by simpa [f.fetches] using o
      refine ⟨[], f.fetched, f.open', box, by simp [fetch, f.fetches], by simp, ?_⟩
      obtain rfl : chat = chatEntry users (messageChatId l.page.userId m) := by
        rw [f.eq_of_mem <| List.mem_of_find?_eq_some hn]
        exact congrArg _ <| by simpa using List.find?_some hn
      rw [user, chats, ← f.erase_eq]
      exact next
    -- The chat is a new one, and the last to be awaited.
    case none =>
      rw [hn] at o moved
      obtain ⟨chats, fetch⟩ := Prod.mk.inj moved
      obtain ⟨fresh, fetchable⟩ := o
      refine ⟨ids ++ [messageChatId l.page.userId m], f.fetched, f.open', box, ?_, ?_, ?_⟩
      · simp [fetch, f.fetches]
      · intro id hid
        obtain hid | hid := List.mem_append.mp hid
        · exact f.known id hid
        · exact List.mem_singleton.mp hid ▸ f.defaultFetchUser_eq fetchable
      · rw [List.erase_of_not_mem <| f.not_mem hn fresh] at next
        rw [user, chats]
        simpa [Mutex.write] using next

theorem arrive (f : l.Follows users ids) {k : Nat} (o : l.Orderly (.arrive k)) :
    ∃ ids, (l.arrive k).Follows users ids := by
  rw [ChatList.arrive]
  split
  case h_2 => exact ⟨ids, f⟩
  case h_1 fetch hk =>
    obtain rfl := o (List.getElem?_eq_some_iff.mp hk).choose
    cases ids
    case nil         => simp [f.fetches] at hk
    case cons id ids =>
      obtain rfl : .popOrFetchChatNode id = fetch := by simpa [f.fetches] using hk
      have answer : l.db.answer l.page.userId (.popOrFetchChatNode id) =
          .chat (some <| chatEntry users id) := by
        rw [MockDb.answer, f.fetched, ← f.known id (.head _)]
      refine ⟨ids, f.fetched, f.open', ?_, ?_, fun id hid => f.known id (.tail _ hid), ?_⟩
      · rw [answer]
        exact f.box
      · simp [f.fetches]
      · rw [answer]
        simpa [Page.onAnswer, Page.onChatFetched] using f.list

theorem step (f : l.Follows users ids) (e : Event) (o : l.Orderly e) :
    ∃ ids, (l.step e).Follows users ids :=
  match e with
  | .live _   => f.live o
  | .arrive _ => f.arrive o

theorem tracks (f : l.Follows users ids) : l.Tracks := by
  intro done
  obtain rfl : ids = [] := by simpa [f.fetches] using done
  have list : l.page.chats = usersChats users l.db.messages.value l.page.userId := f.list.symm
  exact ⟨findUsersChats_eq_ok_iff.mpr ⟨users, f.fetched, f.open', list⟩,
    list ▸ usersChats_ids_nodup ..⟩

end Follows

-- In a run of orderly steps, the list is up to date whenever all responses have come.
theorem tracks_of_orderly {es : List Event} (h : db.findUsersChats u = .ok chats)
    (o : (system db u chats).Along Orderly (render db u chats) es) :
    ((system db u chats).run es).Tracks := by
  obtain ⟨users, hu, open', rfl⟩ := findUsersChats_eq_ok_iff.mp h
  obtain ⟨ids, f⟩ := o.induction (P := fun l => ∃ ids, l.Follows users ids)
    ⟨[], .render hu open' u⟩ fun e o ⟨_, f⟩ => f.step e o
  exact f.tracks

def acquaintances : MockDb where
  users    := .new [(1, "a"), (2, "b"), (3, "c")]
  messages := .new []
  auth     := .new []

theorem tracks_of_orderly_example :
    ((system acquaintances 1 []).run [.live ⟨7, 2, 1, "hello", 0⟩, .arrive 0,
      .live ⟨8, 1, 3, "hi", 0⟩, .arrive 0, .live ⟨9, 2, 1, "hello?", 0⟩]).Tracks := by
  refine tracks_of_orderly rfl ⟨fun _ => ⟨by decide, _, "b", rfl, rfl, rfl⟩, fun _ => rfl,
    fun _ => ⟨by decide, _, "c", rfl, rfl, rfl⟩, fun _ => rfl, fun _ => rfl, trivial⟩

-- Two messages of a chat without a node bring it in twice. A chat which moves while the node of another
-- one is awaited ends up below it.
theorem not_tracks :
    ¬((system acquaintances 1 []).run [.live ⟨7, 2, 1, "hello", 0⟩, .live ⟨8, 2, 1, "hello?", 0⟩,
      .arrive 0, .arrive 0]).Tracks ∧
    ¬((system acquaintances 1 []).run [.live ⟨7, 2, 1, "hello", 0⟩, .arrive 0,
      .live ⟨8, 1, 3, "hi", 0⟩, .live ⟨9, 2, 1, "hello?", 0⟩, .arrive 0]).Tracks :=
  ⟨fun h => absurd (h <| by decide +kernel).once <| by decide +kernel,
    fun h => absurd (h <| by decide +kernel).rendered <| by decide +kernel⟩

end ChatList
end Pheidippides
