import Mathlib.Data.List.Nodup
import Pheidippides.Objects.MockDb
import Pheidippides.Primitives.Recency

open Recency

-- What the query for chats finds in the in-memory store.
namespace Pheidippides.MockDb

variable {users : List (UserId × String)} {messages : List Message} {m : Message} {u v : UserId}
  {chat : User} {username : String}

-- How a user appears in a rendered list.
def chatEntry (users : List (UserId × String)) (userId : UserId) : User where
  username := (usernames users userId).getD "<unknown user id>"
  id       := userId

theorem usersChats_eq (users : List (UserId × String)) (messages : List Message) (u : UserId) :
    usersChats users messages u = firsts (messages.reverse.filterMap <| chatInfo (usernames users) u) :=
  rfl

theorem chatInfo_eq_some_iff :
    chatInfo (usernames users) u m = some chat ↔ m.Between u chat.id ∧ chat = chatEntry users chat.id := by
  have entry {v : UserId} : chatEntry users v = chat ↔ v = chat.id ∧ chat = chatEntry users chat.id := by
    constructor
    · rintro rfl
      exact ⟨rfl, rfl⟩
    · rintro ⟨rfl, he⟩
      exact he.symm
  rw [chatInfo]
  split
  case isTrue hs =>
    refine (Option.some_inj.trans entry).trans <| and_congr_left fun _ => ?_
    exact ⟨fun hr => .inl ⟨hs, hr⟩,
      fun h => h.elim (·.right) fun h => h.right.trans <| hs.symm.trans h.left⟩
  case isFalse hs =>
    split
    case isTrue hr  =>
      refine (Option.some_inj.trans entry).trans <| and_congr_left fun _ => ?_
      exact ⟨fun hs' => .inr ⟨hs', hr⟩, fun h => h.elim (absurd ·.left hs) (·.left)⟩
    case isFalse hr =>
      refine iff_of_false (by simp) ?_
      rintro ⟨⟨hs', _⟩ | ⟨_, hr'⟩, _⟩
      · exact hs hs'
      · exact hr hr'

theorem mem_usersChats_iff : chat ∈ usersChats users messages u ↔
    (∃ m ∈ messages, m.Between u chat.id) ∧ chat = chatEntry users chat.id := by
  rw [usersChats_eq, mem_firsts, List.mem_filterMap]
  simp only [chatInfo_eq_some_iff, List.mem_reverse, ← and_assoc, exists_and_right]

theorem eq_chatEntry (h : chat ∈ usersChats users messages u) : chat = chatEntry users chat.id :=
  (mem_usersChats_iff.mp h).right

-- A message moves its chat to the top of the list.
theorem usersChats_concat_some (h : chatInfo (usernames users) u m = some chat) :
    usersChats users (messages ++ [m]) u = chat :: (usersChats users messages u).erase chat := by
  rw [usersChats_eq, usersChats_eq, List.reverse_append, List.reverse_singleton, List.singleton_append,
    List.filterMap_cons_some h, firsts_cons_erase]

theorem usersChats_concat_none (h : chatInfo (usernames users) u m = none) :
    usersChats users (messages ++ [m]) u = usersChats users messages u := by
  rw [usersChats_eq, usersChats_eq, List.reverse_append, List.reverse_singleton, List.singleton_append,
    List.filterMap_cons_none h]

theorem usersChats_ids_nodup (users : List (UserId × String)) (messages : List Message) (u : UserId) :
    ((usersChats users messages u).map (·.id)).Nodup := by
  refine List.Nodup.map_on (fun a ha b hb he => ?_) (firsts_nodup _)
  rw [eq_chatEntry ha, eq_chatEntry hb, he]

theorem usernames_concat (users : List (UserId × String)) (id : UserId) (username : String) :
    usernames (users ++ [(id, username)]) = Function.update (usernames users) id (some username) := by
  rw [usernames, List.foldl_append]
  rfl

theorem usernames_eq_some_iff (ids : (users.map (·.1)).Nodup) :
    usernames users v = some username ↔ (v, username) ∈ users := by
  induction users using List.reverseRecOn
  case nil => simp [usernames]
  case append_singleton users user ih =>
    obtain ⟨id, name⟩ := user
    rw [List.map_append, List.nodup_append] at ids
    rw [usernames_concat, Function.update_apply, List.mem_append, List.mem_singleton, Prod.mk.injEq]
    split
    case isTrue hv =>
      have fresh : (v, username) ∉ users := fun h =>
        ids.right.right v (List.mem_map_of_mem h) id (by simp) hv
      rw [Option.some_inj, or_iff_right fresh]
      exact ⟨fun h => ⟨hv, h.symm⟩, fun h => h.right.symm⟩
    case isFalse hv =>
      rw [ih ids.left]
      exact ⟨.inl, fun h => h.resolve_right fun h => hv h.left⟩

theorem findUsersChats_eq_ok_iff {db : MockDb} {chats : List User} :
    db.findUsersChats u = .ok chats ↔ ∃ users, db.fetchUsers = .ok users ∧
      db.messages.poisoned = false ∧ chats = usersChats users db.messages.value u := by
  rw [findUsersChats]
  cases hu : db.fetchUsers
  case error e => simp [bind, Except.bind]
  case ok users =>
    cases hp : db.messages.poisoned
    all_goals simp [bind, Except.bind, pure, Except.pure, Mutex.lock, hp, eq_comm]

end Pheidippides.MockDb
