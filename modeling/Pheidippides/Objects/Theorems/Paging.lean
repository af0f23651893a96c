import Pheidippides.Objects.Theorems.Messages
import Pheidippides.Primitives.Paging

namespace Pheidippides.MockDb

-- A store which gets more messages, with fresh ids, between any two requests.
structure Growing (dbs : Nat → MockDb) : Prop where
  unpoisoned : (dbs 0).messages.poisoned = false
  appended   : ∀ k, ∃ added, dbs (k + 1) = (dbs k).createMessages added
  ids        : ∀ k, ((dbs k).messages.value.map (·.id)).Nodup

variable {dbs : Nat → MockDb} {u v : UserId} {page buffer older newer : List Message} {m : Message}
  {k : Nat}

-- A page from the end of a list, read in reverse, is cut off at its last element.
theorem exists_page {α : Type} {l : List α} {n : Nat} (hn : 0 < n) (h : l ≠ []) :
    ∃ rest a page, l = rest ++ a :: page ∧ (l.reverse.take n).getLast? = some a ∧
      (l.reverse.take n).reverse = a :: page := by
  obtain ⟨a, last⟩ := Paging.exists_getLast? hn <| List.reverse_eq_nil_iff.not.mpr h
  obtain ⟨init, hi⟩ := List.getLast?_eq_some_iff.mp last
  refine ⟨(l.reverse.drop n).reverse, a, init.reverse, ?_, last, by rw [hi]; simp⟩
  have split := congrArg List.reverse <| List.take_append_drop n l.reverse
  rw [List.reverse_append, List.reverse_reverse, hi] at split
  simpa using split.symm

namespace Growing

theorem messages_eq (g : Growing dbs) (k : Nat) :
    ∃ added, (dbs k).messages = .new ((dbs 0).messages.value ++ added) := by
  induction k
  case zero =>
    exact ⟨[], by rw [List.append_nil, Mutex.new, ← g.unpoisoned]⟩
  case succ k ih =>
    obtain ⟨added, he⟩ := ih
    obtain ⟨added', hs⟩ := g.appended k
    refine ⟨added ++ added', ?_⟩
    rw [hs, messages_createMessages (by rw [he]; rfl), he, ← List.append_assoc]
    rfl

-- A request which goes on from the first message in the buffer.
theorem fetch (g : Growing dbs)
    (h : (dbs 0).messages.value.filter (·.Between u v) = older ++ m :: newer) (k : Nat) :
    (dbs k).fetchLastMessagesInChat u v (some m.id) =
      .ok (older.reverse.take messageLoadBufSize) := by
  obtain ⟨added, he⟩ := g.messages_eq k
  have ids := g.ids k
  rw [he, Mutex.new] at ids
  have stored : ((dbs 0).messages.value ++ added).filter (·.Between u v) =
      older ++ m :: (newer ++ added.filter (·.Between u v)) := by
    rw [List.filter_append, h, List.append_assoc, List.cons_append]
  rw [fetchLastMessagesInChat, he, ← lastMessagesInChat_before ids stored]
  rfl

-- Every page takes messages of the chat from what is left.
theorem reaches_empty (g : Growing dbs) (hp : historyPage dbs u v k = .ok page)
    (hl : page.getLast? = some m) (hb : historyBuffer dbs u v (k + 1) = .ok (m :: buffer))
    (h : (dbs 0).messages.value.filter (·.Between u v) = older ++ m :: buffer) :
    ∃ n, historyPage dbs u v n = .ok [] ∧
      historyBuffer dbs u v n = .ok ((dbs 0).messages.value.filter (·.Between u v)) := by
  induction hn : older.length using Nat.strong_induction_on generalizing k older m page buffer
  subst hn
  rename_i ih
  have next : historyPage dbs u v (k + 1) = .ok (older.reverse.take messageLoadBufSize) := by
    rw [historyPage, hp, ← g.fetch h (k + 1)]
    simp [hl, bind, Except.bind]
  by_cases ho : older = []
  case pos =>
    subst ho
    exact ⟨k + 1, next, h ▸ hb⟩
  case neg =>
    obtain ⟨older', m', page', rfl, last, reversed⟩ := exists_page (n := messageLoadBufSize) (by decide) ho
    have buffered : historyBuffer dbs u v (k + 1 + 1) = .ok (m' :: (page' ++ m :: buffer)) := by
      rw [← List.cons_append, ← reversed, historyBuffer, next, hb]
      rfl
    exact ih older'.length (by simp) next last buffered (by simpa using h) rfl

end Growing

-- Paging comes to an end, and the buffer has the messages of the chat which were stored at the first
-- request, in their order.
theorem history_complete (g : Growing dbs) (u v : UserId) :
    ∃ n, historyPage dbs u v n = .ok [] ∧
      historyBuffer dbs u v n = .ok ((dbs 0).messages.value.filter (·.Between u v)) := by
  have first : historyPage dbs u v 0 = .ok
      (((dbs 0).messages.value.filter (·.Between u v)).reverse.take messageLoadBufSize) := by
    have lock := Mutex.lock_eq_ok_iff.mpr ⟨g.unpoisoned, rfl⟩
    rw [historyPage, fetchLastMessagesInChat, lock]
    simp [bind, Except.bind, pure, Except.pure, lastMessagesInChat_none, List.filter_reverse]
  by_cases hc : (dbs 0).messages.value.filter (·.Between u v) = []
  case pos =>
    rw [hc] at first
    exact ⟨0, first, hc ▸ rfl⟩
  case neg =>
    obtain ⟨older, m, page, h, last, reversed⟩ := exists_page (n := messageLoadBufSize) (by decide) hc
    have buffered : historyBuffer dbs u v 1 = .ok (m :: page) := by
      rw [historyBuffer, first, ← reversed]
      exact congrArg _ <| List.append_nil _
    exact g.reaches_empty first last buffered h

-- There are messages in two chats already, and before every request there is one more in each.
def talkative (k : Nat) : MockDb where
  users    := .new []
  messages := .new <| (List.range (2 * k + 200)).map fun i => ⟨i, 1, 2 + i % 2, "hi", 0⟩
  auth     := .new []

theorem growing_talkative : Growing talkative where
  unpoisoned := rfl
  appended k := by
    refine ⟨[⟨2 * k + 200, 1, 2, "hi", 0⟩, ⟨2 * k + 201, 1, 3, "hi", 0⟩], ?_⟩
    have h : List.range (2 * (k + 1) + 200) =
        List.range (2 * k + 200) ++ [2 * k + 200, 2 * k + 201] := by
      rw [show 2 * (k + 1) + 200 = (2 * k + 200) + 1 + 1 by omega, List.range_succ, List.range_succ,
        List.append_assoc]
      rfl
    have even : (2 * k + 200) % 2 = 0 := by omega
    have odd : (2 * k + 201) % 2 = 1 := by omega
    rw [talkative, h, List.map_append]
    simp [talkative, createMessages, createMessage, Mutex.lock, Mutex.write, Mutex.new, even, odd]
  ids k := by simp [talkative, Mutex.new, Function.comp_def, List.nodup_range]

theorem history_complete_example :
    ∃ n, historyPage talkative 1 2 n = .ok [] ∧
      historyBuffer talkative 1 2 n =
        .ok ((talkative 0).messages.value.filter (·.Between 1 2)) :=
  history_complete growing_talkative 1 2

end Pheidippides.MockDb
