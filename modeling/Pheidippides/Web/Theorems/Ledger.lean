import Pheidippides.Messenger.Theorems.Messenger
import Pheidippides.Objects.Theorems.MockDb
import Pheidippides.Web.Ledger
import Pheidippides.Web.Theorems.Listener

namespace Pheidippides

namespace Call

variable {α ε : Type} [App α ε] {app : α} {c : Call} {m : Message}

theorem service_of_message (h : c.message = some m) :
    c.service = some (m.sender, .sendMessage m.message m.receiver) := by
  cases c <;> cases h
  rfl

theorem messages_of_silent [Journal α] (h : c.message = none) :
    Journal.messages (c.perform app).2 = Journal.messages app := by
  cases c
  case sendMessage            => cases h
  case subscribeToNewMessages => exact Journal.subscribe ..
  case insertUser             => exact Journal.insertUser ..
  case authorizeUser          => exact Journal.authorizeUser ..
  all_goals rfl

-- A call adds its message if it succeeds.
theorem messages_of_message [Journal α] (app : α) (h : c.message = some m) :
    Journal.messages (c.perform app).2 =
      Journal.messages app ++ if (c.perform app).1.toOption.isSome then [m] else [] := by
  cases c <;> cases h
  case sendMessage message sender receiver id timestamp =>
    cases hr : (App.sendMessage app message sender receiver id timestamp).1
    case ok    => exact (Journal.sendMessage_ok hr).trans <| by simp [perform, hr, Except.toOption]
    case error => exact (Journal.sendMessage_error hr).trans <| by simp [perform, hr, Except.toOption]

end Call

namespace Listener

variable {α ε : Type} [App α ε] [Unicode] [HttpServer.Allocator] [UrlEscape] [UuidText] [SerdeJson]
  [Journal α] {app : α} {w w' : Listener α} {e : Event α} {es : List (Event α)}
  {posts posts' : List (Nat × Message)} {i : Nat} {m : Message}

-- A message is stored when a handler goes on to its end, or nothing is.
theorem Goes.messages {c : Connection} {read : HttpServer.Request} {draws draws' : Draws}
    {call : Option Call} {next : Handler.Rest × Server α} {sent : Request} {t : Progress}
    (h : Goes w c read draws call next)
    (vouched : Vouched app es i w.server sent draws' call next.1 t) :
    (t.stage = .stored ∧ ∃ c₁ ∈ call, ∃ m, c₁.message = some m ∧
      Journal.messages next.2.app = Journal.messages w.server.app ++ [m]) ∨
    (t.stage ≠ .stored ∧ Journal.messages next.2.app = Journal.messages w.server.app) := by
  rw [Ne, vouched.stored, h.called.left]
  cases call
  case none    => exact .inr ⟨by simp, rfl⟩
  case some c₁ =>
    cases hm : c₁.message
    case none   => exact .inr ⟨by simp [hm], c₁.messages_of_silent hm⟩
    case some m =>
      have messages := c₁.messages_of_message w.server.app hm
      by_cases ok : (c₁.perform w.server.app).1.toOption.isSome
      · exact .inl ⟨⟨c₁, rfl, by simp [hm], ok⟩, c₁, rfl, m, hm, messages.trans <| by rw [if_pos ok]⟩
      · exact .inr ⟨by simp [ok], messages.trans <| by rw [if_neg ok, List.append_nil]⟩

-- What has come in on the connection asks for the message, and its sender has been named for it. The id
-- and the time have been drawn when it was handled.
structure Posted (app : α) (es : List (Event α)) (i : Nat) (c : Connection) (m : Message) : Prop where
  sent  : c.Sends fun sent => Named app es i sent.headers m.sender ∧
    Server.asks sent = some (.sendMessage m.message m.receiver)
  drawn : ∃ draws, .run i draws ∈ es ∧ m.id = draws.messageId ∧ m.timestamp = draws.timestamp

omit [Journal α] in
theorem Posted.later {c c' : Connection} (h : Posted app es i c m) (e : Event α)
    (keeps : ∀ {P}, c.Sends P → c'.Sends P) : Posted app (es ++ [e]) i c' m where
  sent := keeps <| h.sent.imp fun _ ⟨named, asks⟩ => ⟨named.later e, asks⟩
  drawn :=
    have ⟨draws, hm, hd⟩ := h.drawn
    ⟨draws, List.mem_append_left _ hm, hd⟩

-- The messages are in the order in which they have been handled, each with its connection.
structure Ledger (app : α) (es : List (Event α)) (posts : List (Nat × Message)) (w : Listener α) :
    Prop where
  stored   : Journal.messages w.server.app = Journal.messages app ++ posts.map (·.2)
  once     : (posts.map (·.1)).Nodup
  accepted : ∀ i, i ∈ posts.map (·.1) ↔
    ∃ c : Connection, w.connections[i]? = some c ∧ c.task = .answered Server.accepted
  posted   : ∀ i m, (i, m) ∈ posts → ∃ c : Connection, w.connections[i]? = some c ∧ Posted app es i c m

namespace Ledger

-- An event after which the messages and the answers are the same.
theorem keep (h : Ledger app es posts w) (e : Event α)
    (messages : Journal.messages w'.server.app = Journal.messages w.server.app)
    (answers : ∀ i : Nat,
      (∃ c : Connection, w'.connections[i]? = some c ∧ c.task = .answered Server.accepted) ↔
        ∃ c : Connection, w.connections[i]? = some c ∧ c.task = .answered Server.accepted)
    (keeps : ∀ (i : Nat) (c : Connection), w.connections[i]? = some c →
      ∃ c' : Connection, w'.connections[i]? = some c' ∧ ∀ {P}, c.Sends P → c'.Sends P) :
    Ledger app (es ++ [e]) posts w' where
  stored   := messages.trans h.stored
  once     := h.once
  accepted i := (h.accepted i).trans (answers i).symm
  posted i m hm :=
    have ⟨c, hc, posted⟩ := h.posted i m hm
    have ⟨c', hc', keeps⟩ := keeps i c hc
    ⟨c', hc', posted.later e keeps⟩

omit [Journal α] [Unicode] [HttpServer.Allocator] [UrlEscape] [UuidText] [SerdeJson] in
theorem exists_set {i : Nat} {c c' : Connection} {P : Connection → Prop}
    (hc : w.connections[i]? = some c) (j : Nat) :
    (∃ c₁ : Connection, (w.connections.set i c')[j]? = some c₁ ∧ P c₁) ↔
      (j = i ∧ P c') ∨ (j ≠ i ∧ ∃ c₁ : Connection, w.connections[j]? = some c₁ ∧ P c₁) := by
  simp only [getElem?_set_iff hc]
  grind

-- An event which concerns one connection.
theorem keep_set {c c' : Connection} (h : Ledger app es posts w) (e : Event α)
    (hc : w.connections[i]? = some c) (hw : w'.connections = w.connections.set i c')
    (messages : Journal.messages w'.server.app = Journal.messages w.server.app)
    (answers : c'.task = .answered Server.accepted ↔ c.task = .answered Server.accepted)
    (keeps : ∀ {P}, c.Sends P → c'.Sends P) : Ledger app (es ++ [e]) posts w' := by
  refine h.keep e messages (fun j => ?_) fun j c₁ hc₁ => ?_
  · rw [hw, exists_set hc]
    obtain rfl | hij := eq_or_ne j i
    · simp [hc, answers]
    · simp [hij]
  · rw [hw]
    obtain rfl | hij := eq_or_ne j i
    · cases hc.symm.trans hc₁
      exact ⟨c', (getElem?_set_iff hc).mpr <| .inl ⟨rfl, rfl⟩, keeps⟩
    · exact ⟨c₁, (getElem?_set_iff hc).mpr <| .inr ⟨hij, hc₁⟩, id⟩

-- A connection which gets the answer that its message has been stored.
theorem post {c c' : Connection} {draws : Draws} (h : Ledger app es posts w)
    (hc : w.connections[i]? = some c) (new : ∀ response, c.task ≠ .answered response)
    (hw : w'.connections = w.connections.set i c') (ha : c'.task = .answered Server.accepted)
    (messages : Journal.messages w'.server.app = Journal.messages w.server.app ++ [m])
    (posted : Posted app (es ++ [.run i draws]) i c' m) :
    Ledger app (es ++ [.run i draws]) (posts ++ [(i, m)]) w' where
  stored := by simp [messages, h.stored]
  once   := by
    refine List.map_append ▸ List.nodup_append.mpr ⟨h.once, List.nodup_singleton i, fun j hj k hk he => ?_⟩
    obtain rfl : j = i := he.trans <| List.mem_singleton.mp hk
    have ⟨c₁, hc₁, answered⟩ := (h.accepted j).mp hj
    cases hc.symm.trans hc₁
    exact new _ answered
  accepted j := by
    rw [hw, exists_set hc, List.map_append, List.mem_append, h.accepted]
    obtain rfl | hij := eq_or_ne j i
    · simp [ha]
    · simp [hij]
  posted j m' hm := by
    rw [hw]
    obtain old | last := List.mem_append.mp hm
    · have ⟨c₁, hc₁, posted⟩ := h.posted j m' old
      refine ⟨c₁, (getElem?_set_iff hc).mpr <| .inr ⟨?_, hc₁⟩, posted.later _ id⟩
      rintro rfl
      have ⟨c₂, hc₂, answered⟩ := (h.accepted j).mp <| List.mem_map.mpr ⟨_, old, rfl⟩
      cases hc.symm.trans hc₂
      exact new _ answered
    · cases List.mem_singleton.mp last
      exact ⟨c', (getElem?_set_iff hc).mpr <| .inl ⟨rfl, rfl⟩, posted⟩

theorem change (h : Ledger app es posts ((system app).run es))
    (undisturbed : ((system app).run es).Undisturbed e) (change : Change ((system app).run es) e w') :
    ∃ posts', posts <+: posts' ∧ Ledger app (es ++ [e]) posts' w' := by
  have same (i : Nat) (c : Connection) (hc : ((system app).run es).connections[i]? = some c) :
      ∃ c' : Connection, ((system app).run es).connections[i]? = some c' ∧ ∀ {P}, c.Sends P → c'.Sends P :=
    ⟨c, hc, id⟩
  cases change
  case moves hc hm =>
    refine ⟨posts, List.prefix_rfl, h.keep_set e hc rfl rfl ?_ (·.moves hm)⟩
    rw [← Connection.Task.response_eq_some_iff, hm.response, Connection.Task.response_eq_some_iff]
  case accept      =>
    have old {i : Nat} {c : Connection} (hc : ((system app).run es).connections[i]? = some c) :
        (((system app).run es).connections ++ [.new])[i]? = some c :=
      (List.getElem?_append_left (List.getElem?_eq_some_iff.mp hc).1).trans hc
    refine ⟨posts, List.prefix_rfl, h.keep _ rfl (fun i => ⟨?_, ?_⟩) fun i c hc => ⟨c, old hc, id⟩⟩
    · rintro ⟨c, hc, ha⟩
      obtain hc | rfl := getElem?_concat hc
      · exact ⟨c, hc, ha⟩
      · cases ha
    · exact fun ⟨c, hc, ha⟩ => ⟨c, old hc, ha⟩
  case goes i c read draws call next task hc goes leaves =>
    have ⟨draws', hm, sends⟩ := goes.vouched hc (stands_run es i c hc)
    have ⟨sent, _, t, vouched⟩ := sends.exists_request
    obtain ⟨stored, c₁, hc₁, m, hm₁, messages⟩ | ⟨nothing, messages⟩ := goes.messages vouched
    · have answered := (vouched.answered_iff leaves).mpr stored
      refine ⟨_, List.prefix_append .., h.post hc goes.not_answered rfl answered messages
        ⟨?_, draws', hm, vouched.drawn c₁ hc₁ m hm₁⟩⟩
      exact sends.imp fun _ ⟨_, vouched⟩ => vouched.named c₁ hc₁ _ _ <| Call.service_of_message hm₁
    · refine ⟨posts, List.prefix_rfl,
        h.keep_set _ hc rfl messages (iff_of_false ?_ <| goes.not_answered _) id⟩
      exact fun ha => nothing <| (vouched.answered_iff leaves).mp ha
  case crash i c read draws call next res hc goes hd hr =>
    have ⟨draws', _, sends⟩ := goes.vouched hc (stands_run es i c hc)
    have ⟨sent, _, t, vouched⟩ := sends.exists_request
    have working : t.stage = .working := by
      have ends := vouched.kept.meets
      rw [hd] at ends
      obtain _ | _ | working := ends <;> cases hr
      exact working
    obtain ⟨stored, _⟩ | ⟨_, messages⟩ := goes.messages vouched
    · cases working.symm.trans stored
    · exact ⟨posts, List.prefix_rfl, h.keep _ messages (fun _ => .rfl) same⟩
  case app => exact ⟨posts, List.prefix_rfl, h.keep _ undisturbed (fun _ => .rfl) same⟩
  all_goals exact ⟨posts, List.prefix_rfl, h.keep _ rfl (fun _ => .rfl) same⟩

end Ledger

theorem ledger_start : Ledger app [] [] (start app) where
  stored       := (List.append_nil _).symm
  once         := .nil
  accepted i   := by simp [start]
  posted _ _ h := by cases h

theorem ledger_exec {es' : List (Event α)} (h : Ledger app es posts ((system app).run es))
    (undisturbed : (system app).Along Undisturbed ((system app).run es) es') :
    ∃ posts', posts <+: posts' ∧ Ledger app (es ++ es') posts' ((system app).run (es ++ es')) := by
  induction es' generalizing es posts
  case nil            => exact ⟨posts, List.prefix_rfl, by rwa [List.append_nil]⟩
  case cons e es' ih =>
    have ⟨hd, tl⟩ := undisturbed
    have ⟨posts₁, more₁, h₁⟩ := h.change hd <| step_change _ e
    have next : ((system app).run es).step e = (system app).run (es ++ [e]) :=
      ((system app).run_concat es e).symm
    have ⟨posts₂, more₂, h₂⟩ := ih (next ▸ h₁) (next ▸ tl)
    exact ⟨posts₂, more₁.trans more₂, by simpa using h₂⟩

-- No message is lost and none is stored twice, in whatever order bytes arrive and tasks go on. There is
-- just one message for each connection which is answered that its message has been stored, and what is
-- stored stays where it is.
theorem ledger_run {es es' : List (Event α)}
    (undisturbed : (system app).Along Undisturbed (start app) (es ++ es')) :
    ∃ posts posts', posts <+: posts' ∧ Ledger app es posts ((system app).run es) ∧
      Ledger app (es ++ es') posts' ((system app).run (es ++ es')) := by
  have ⟨hd, tl⟩ := System.Along.append.mp undisturbed
  have ⟨posts, _, h⟩ := ledger_exec ledger_start hd
  rw [List.nil_append] at h
  have ⟨posts', more, h'⟩ := ledger_exec h tl
  exact ⟨posts, posts', more, h, h'⟩

end Listener

namespace World

theorem announce_messages (w : World) (m : Message) : (w.announce m).messages = w.messages := by
  rw [announce]
  split_ifs <;> rfl

theorem onStream_messages (w : World) (i : Nat) (action : Stream.Action) :
    (w.onStream i action).messages = w.messages := by
  rw [onStream]
  split <;> rfl

theorem sendMessage_messages (w : World) (m : Message) :
    (w.sendMessage m).2.messages =
      if (w.sendMessage m).1.toOption.isSome then w.messages ++ [m] else w.messages := by
  rw [sendMessage]
  cases hl : w.db.messages.lock
  case error e =>
    have create : w.db.createMessage m = (.error e, w.db) := by rw [MockDb.createMessage, hl]
    simp [create, World.create, Except.toOption]
  case ok messages =>
    obtain ⟨_, rfl⟩ := Mutex.lock_eq_ok_iff.mp hl
    have create : w.db.createMessage m =
        (.ok (), { w.db with messages := w.db.messages.write (w.db.messages.value ++ [m]) }) := by
      rw [MockDb.createMessage, hl]
    simp only [create, World.create, Except.toOption, Option.isSome_some, if_true]
    exact announce_messages _ m

theorem subscribeToNewMessages_messages (w : World) (userId : UserId)
    (startingPoint : Option MessageId) :
    (w.subscribeToNewMessages userId startingPoint).2.messages = w.messages := by
  rw [subscribeToNewMessages_exec]
  exact onStream_messages (w.register userId startingPoint) w.streams.length .fetch

theorem insertUser_messages [Unicode] (db : MockDb) (login : String) (userId : UserId) :
    (Messenger.insertUser (δ := MockDb.Error) db login userId).2.messages = db.messages := by
  rw [Messenger.insertUser_store]
  have spec := MockDb.createUser_spec db login userId
  change (db.createUser login userId).2.messages = _
  generalize db.createUser login userId = res at spec
  cases spec <;> rfl

theorem authorizeUser_messages [Argon2] (db : MockDb) (login password : String) (userId : UserId)
    (salt : Option String) :
    (Messenger.authorizeUser (ε := MockDb.Error) db login password userId salt).2.messages =
      db.messages := by
  obtain same | ⟨info, update⟩ := Messenger.authorizeUser_store db login password userId salt
  · rw [same]
  · rw [update]
    have spec := MockDb.updateAuthentication_spec db userId info
    change (db.updateAuthentication userId info).2.messages = _
    generalize db.updateAuthentication userId info = res at spec
    cases spec <;> rfl

instance [Unicode] [Argon2] : Journal World where
  messages := messages
  sendMessage_ok {w message sender receiver id timestamp _} h := by
    change (w.sendMessage _).1 = _ at h
    exact (sendMessage_messages w _).trans <| by rw [h]; rfl
  sendMessage_error {w message sender receiver id timestamp _} h := by
    change (w.sendMessage _).1 = _ at h
    exact (sendMessage_messages w _).trans <| by rw [h]; rfl
  subscribe := subscribeToNewMessages_messages
  insertUser w login userId := congrArg Mutex.value <| insertUser_messages w.db login userId
  authorizeUser w login password userId salt :=
    congrArg Mutex.value <| authorizeUser_messages w.db login password userId salt

end World

namespace Listener

-- A signup and two messages, of which one is not sent to an end.
theorem ledger_run_example :
    let _ := asciiUnicode
    let _ := clearText
    let _ := noEscapes
    let _ := decimalIds
    let _ := plainText
    let _ := HttpServer.Request.addressSpace
    let draws : Draws := ⟨"a", 1, some "salt", 10, 0⟩
    let head (line : String) : List UInt8 :=
      Utf8.encode (line ++ " HTTP/1.1\r\nCookie: _pheidippides_sid=a\r\nContent-Length: 5\r\n\r\n")
    let es : List (Event World) := [
      .app .empty, .accept, .receive 0 (head "POST /signup" ++ Utf8.encode "Ada x"), .run 0 draws,
      .run 0 draws, .run 0 draws, .run 0 draws, .accept, .accept, .receive 1 (head "POST /message/2"),
      .run 1 draws, .receive 2 (head "POST /message/2")]
    let es' : List (Event World) := [
      .run 2 draws, .receive 1 (Utf8.encode "hello"), .run 1 draws, .receive 2 (Utf8.encode "he"),
      .run 1 draws, .lose 2]
    ∃ posts posts', posts <+: posts' ∧ Ledger .empty es posts ((system .empty).run es) ∧
      Ledger .empty (es ++ es') posts' ((system .empty).run (es ++ es')) := by
  intro _ _ _ _ _ _ draws head es es'
  have undisturbed : (system World.empty).Along Undisturbed (start .empty) (es ++ es') :=
    of_decide_eq_true <| by decide +kernel
  exact ledger_run undisturbed

end Listener
end Pheidippides
