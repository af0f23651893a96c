import Pheidippides.Objects.MockDb
import Mathlib.Data.List.Nodup

-- What the queries for messages find in the in-memory store.
namespace Pheidippides.MockDb

variable {messages : List Message} {m : Message} {u v : UserId} {s : MessageId}
  {startingPoint : Option MessageId}

theorem usersMessagesSince_eq (messages : List Message) (u : UserId) (s : MessageId) :
    usersMessagesSince messages u s =
      (messages.skipPast (·.id == s)).filter (·.Concerns u) :=
  rfl

theorem usersMessagesSince_sublist (messages : List Message) (u : UserId) (s : MessageId) :
    (usersMessagesSince messages u s).Sublist messages :=
  List.filter_sublist.trans (List.skipPast_suffix ..).sublist

theorem of_mem_usersMessagesSince (h : m ∈ usersMessagesSince messages u s) :
    m.Concerns u ∧ m ∈ messages :=
  ⟨by simpa using List.of_mem_filter h, (usersMessagesSince_sublist messages u s).subset h⟩

theorem usersMessagesSince_append (known : s ∈ messages.map (·.id)) (added : List Message) :
    usersMessagesSince (messages ++ added) u s =
      usersMessagesSince messages u s ++ added.filter (·.Concerns u) := by
  have present : ∃ m ∈ messages, m.id == s := by simpa using known
  rw [usersMessagesSince_eq, usersMessagesSince_eq, List.skipPast_append_of_exists present,
    List.filter_append]

-- Going on from one of the messages brings those behind it.
theorem usersMessagesSince_of_split (ids : (messages.map (·.id)).Nodup) {seen missed : List Message}
    (h : usersMessagesSince messages u s = seen ++ m :: missed) :
    usersMessagesSince messages u m.id = missed := by
  rw [usersMessagesSince_eq] at h
  obtain ⟨l₁, l, hl, _, h⟩ := List.filter_eq_append_iff.mp h
  obtain ⟨l₂, r, rfl, _, _, rfl⟩ := List.filter_eq_cons_iff.mp h
  obtain ⟨l₀, h₀⟩ := List.skipPast_suffix (·.id == s) messages
  have split : messages = (l₀ ++ l₁ ++ l₂) ++ m :: r := by
    rw [← h₀, hl]
    simp only [List.append_assoc]
  rw [split, List.map_append, List.map_cons] at ids
  have other : ∀ m' ∈ l₀ ++ l₁ ++ l₂, ¬(m'.id == m.id) := fun m' hm' he =>
    List.disjoint_of_nodup_append ids (List.mem_map_of_mem hm') <| eq_of_beq he ▸ List.mem_cons_self
  rw [split, usersMessagesSince_eq, List.skipPast_append_of_forall_not other, List.skipPast_cons,
    if_pos <| beq_self_eq_true _]

theorem lastMessagesInChat_none (messages : List Message) (u v : UserId) :
    lastMessagesInChat messages u v none =
      (messages.reverse.filter (·.Between u v)).take messageLoadBufSize := by
  have skip (l : List Message) : l.dropWhile (fun _ => false) = l := by cases l <;> rfl
  simp [lastMessagesInChat, skip]

theorem lastMessagesInChat_some (messages : List Message) (u v : UserId) (s : MessageId) :
    lastMessagesInChat messages u v (some s) =
      ((messages.reverse.skipPast (·.id == s)).filter (·.Between u v)).take messageLoadBufSize :=
  rfl

theorem between_of_mem_lastMessagesInChat (h : m ∈ lastMessagesInChat messages u v startingPoint) :
    m.Between u v := by
  simpa using List.of_mem_filter <| List.mem_of_mem_take h

theorem of_mem_lastMessagesInChat (h : m ∈ lastMessagesInChat messages u v startingPoint) :
    m.Concerns u ∧ m ∈ messages := by
  refine ⟨(between_of_mem_lastMessagesInChat h).concerns, List.mem_reverse.mp ?_⟩
  have h := List.mem_of_mem_take h
  exact (List.dropWhile_suffix _).subset <| List.mem_of_mem_drop <| List.mem_of_mem_filter h

theorem createMessage_eq {db : MockDb} (open' : db.messages.poisoned = false) (m : Message) :
    (db.createMessage m).2 = { db with messages := db.messages.write (db.messages.value ++ [m]) } := by
  have lock : db.messages.lock = .ok db.messages.value := Mutex.lock_eq_ok_iff.mpr ⟨open', rfl⟩
  rw [createMessage, lock]

theorem messages_createMessages {db : MockDb} (open' : db.messages.poisoned = false)
    (messages : List Message) :
    (db.createMessages messages).messages = .new (db.messages.value ++ messages) := by
  induction messages generalizing db
  case nil => simp [createMessages, Mutex.new, ← open']
  case cons m messages ih =>
    have created := @ih { db with messages := db.messages.write (db.messages.value ++ [m]) } open'
    rw [createMessages, List.foldl_cons, ← createMessages, createMessage_eq open', created, Mutex.write,
      List.append_assoc]
    rfl

theorem users_createMessages (db : MockDb) (messages : List Message) :
    (db.createMessages messages).users = db.users := by
  induction messages generalizing db
  case nil => rfl
  case cons m messages ih =>
    rw [createMessages, List.foldl_cons, ← createMessages, ih, createMessage]
    split <;> rfl

-- Going back from a message, one comes to what was stored before it.
theorem skipPast_reverse {l r : List Message} (ids : ((l ++ m :: r).map (·.id)).Nodup) :
    (l ++ m :: r).reverse.skipPast (·.id == m.id) = l.reverse := by
  have later : ∀ m' ∈ r.reverse, ¬(m'.id == m.id) := by
    intro m' hm he
    rw [List.map_append, List.map_cons] at ids
    have fresh := (List.nodup_cons.mp <| (List.nodup_append.mp ids).right.left).left
    exact fresh <| eq_of_beq he ▸ List.mem_map_of_mem (List.mem_reverse.mp hm)
  rw [List.reverse_append, List.reverse_cons, List.append_assoc,
    List.skipPast_append_of_forall_not later, List.singleton_append, List.skipPast_cons,
    if_pos <| beq_self_eq_true _]

-- A page from a message of the chat has what comes before it there.
theorem lastMessagesInChat_before (ids : (messages.map (·.id)).Nodup) {older newer : List Message}
    (h : messages.filter (·.Between u v) = older ++ m :: newer) :
    lastMessagesInChat messages u v (some m.id) = older.reverse.take messageLoadBufSize := by
  obtain ⟨l₁, l, rfl, h₁, h⟩ := List.filter_eq_append_iff.mp h
  obtain ⟨l₂, r, rfl, h₂, _, _⟩ := List.filter_eq_cons_iff.mp h
  rw [← List.append_assoc] at ids ⊢
  rw [lastMessagesInChat_some, skipPast_reverse ids, List.filter_reverse, List.filter_append, h₁,
    List.filter_eq_nil_iff.mpr h₂, List.append_nil]

-- What comes before a message stays the same when more is stored.
theorem lastMessagesInChat_append {added : List Message}
    (ids : ((messages ++ added).map (·.id)).Nodup) (h : s ∈ messages.map (·.id)) :
    lastMessagesInChat (messages ++ added) u v (some s) = lastMessagesInChat messages u v (some s) := by
  obtain ⟨m, hm, rfl⟩ := List.mem_map.mp h
  obtain ⟨older, newer, rfl⟩ := List.append_of_mem hm
  have ids' := ((List.prefix_append (older ++ m :: newer) added).sublist.map _).nodup ids
  rw [List.append_assoc, List.cons_append] at ids ⊢
  rw [lastMessagesInChat_some, lastMessagesInChat_some, skipPast_reverse ids, skipPast_reverse ids']

-- The pages are cut from the end of what there is.
theorem reverse_take_reverse_suffix {α : Type} (l : List α) (n : Nat) :
    (l.reverse.take n).reverse <:+ l := by
  rw [← List.reverse_prefix, List.reverse_reverse]
  exact List.take_prefix ..

theorem lastMessagesInChat_none_suffix (messages : List Message) (u v : UserId) :
    (lastMessagesInChat messages u v none).reverse <:+ messages.filter (·.Between u v) := by
  rw [lastMessagesInChat_none, List.filter_reverse]
  exact reverse_take_reverse_suffix ..

theorem lastMessagesInChat_before_suffix (ids : (messages.map (·.id)).Nodup)
    {older newer : List Message} (h : messages.filter (·.Between u v) = older ++ m :: newer) :
    (lastMessagesInChat messages u v (some m.id)).reverse <:+ older := by
  rw [lastMessagesInChat_before ids h]
  exact reverse_take_reverse_suffix ..

-- The queries of a user need no messages but the user's, as long as they start from none of the others.
section Filter

theorem usersMessagesSince_filter (own : ∀ m ∈ messages, m.id = s → m.Concerns u) :
    usersMessagesSince (messages.filter (·.Concerns u)) u s = usersMessagesSince messages u s := by
  rw [usersMessagesSince_eq, usersMessagesSince_eq, ← List.filter_skipPast, List.filter_filter]
  · simp
  · simpa using own

theorem filter_between_of_filter (messages : List Message) (u v : UserId) :
    (messages.filter (·.Concerns u)).filter (·.Between u v) = messages.filter (·.Between u v) := by
  rw [List.filter_filter]
  refine List.filter_congr fun m _ => ?_
  by_cases h : m.Between u v
  · simp [h, h.concerns]
  · simp [h]

theorem lastMessagesInChat_filter
    (own : ∀ id, startingPoint = some id → ∀ m ∈ messages, m.id = id → m.Concerns u) :
    lastMessagesInChat (messages.filter (·.Concerns u)) u v startingPoint =
      lastMessagesInChat messages u v startingPoint := by
  cases startingPoint
  case none =>
    rw [lastMessagesInChat_none, lastMessagesInChat_none, ← List.filter_reverse,
      filter_between_of_filter]
  case some s =>
    rw [lastMessagesInChat_some, lastMessagesInChat_some, ← List.filter_reverse,
      ← List.filter_skipPast, filter_between_of_filter]
    simpa using own s rfl

theorem usersChats_filter (users : List (UserId × String)) (messages : List Message) (u : UserId) :
    usersChats users (messages.filter (·.Concerns u)) u = usersChats users messages u := by
  rw [usersChats, usersChats, ← List.filter_reverse, List.filterMap_filter]
  congr 2
  funext m
  simp only [chatInfo, Message.Concerns]
  grind

end Filter

-- Two stores which are the same but for messages between other users.
structure SameFor (u : UserId) (db₁ db₂ : MockDb) : Prop where
  users    : db₁.users = db₂.users
  poisoned : db₁.messages.poisoned = db₂.messages.poisoned
  messages : db₁.messages.value.filter (·.Concerns u) = db₂.messages.value.filter (·.Concerns u)

-- All messages with this id, if there are any, are the user's.
def Owns (db : MockDb) (u : UserId) (id : MessageId) : Prop :=
  ∀ m ∈ db.messages.value, m.id = id → m.Concerns u

namespace SameFor

variable {db₁ db₂ : MockDb}

theorem query {α : Type} (h : SameFor u db₁ db₂) {f : List Message → α}
    (hf : f db₁.messages.value = f db₂.messages.value) :
    db₁.messages.lock.map f = db₂.messages.lock.map f := by
  rw [Mutex.lock, Mutex.lock, h.poisoned]
  split
  · rfl
  · exact congrArg Except.ok hf

theorem findUsersChats (h : SameFor u db₁ db₂) : db₁.findUsersChats u = db₂.findUsersChats u := by
  rw [MockDb.findUsersChats, MockDb.findUsersChats, fetchUsers, fetchUsers, h.users]
  cases db₂.users.lock
  case error    => rfl
  case ok users =>
    refine h.query (f := (usersChats users · u)) ?_
    rw [← usersChats_filter, h.messages, usersChats_filter]

theorem fetchLastMessagesInChat (h : SameFor u db₁ db₂)
    (own₁ : ∀ id, startingPoint = some id → db₁.Owns u id)
    (own₂ : ∀ id, startingPoint = some id → db₂.Owns u id) :
    db₁.fetchLastMessagesInChat u v startingPoint = db₂.fetchLastMessagesInChat u v startingPoint := by
  refine h.query (f := (lastMessagesInChat · u v startingPoint)) ?_
  rw [← lastMessagesInChat_filter own₁, h.messages, lastMessagesInChat_filter own₂]

theorem fetchUsersMessagesSince (h : SameFor u db₁ db₂) (own₁ : db₁.Owns u s) (own₂ : db₂.Owns u s) :
    db₁.fetchUsersMessagesSince u s = db₂.fetchUsersMessagesSince u s := by
  refine h.query (f := (usersMessagesSince · u s)) ?_
  rw [← usersMessagesSince_filter own₁, h.messages, usersMessagesSince_filter own₂]

end SameFor
end Pheidippides.MockDb
