import Pheidippides.Postgres.Store

open Pheidippides.Postgres

namespace Pheidippides.PostgresStore

variable {db db' : PostgresStore} {username : String} {userId : UserId} {info : AuthenticationInfo}
  {m : Message}

-- The foreign keys of the table of messages, as the joins use them.
theorem known (db : PostgresStore) : ∀ m ∈ db.messages.messages,
    m.sender ∈ db.users.fetchUsers.map (·.1) ∧ m.receiver ∈ db.users.fetchUsers.map (·.1) := by
  have ids : db.users.fetchUsers.map (·.1) = db.users.ids := by
    simp [PostgresUsers.fetchUsers, PostgresUsers.ids, Function.comp_def]
  exact fun m hm => ids ▸ ⟨db.messagesFromFkey m hm, db.messagesToFkey m hm⟩

theorem fetchUsers_ids_nodup (db : PostgresStore) : (db.users.fetchUsers.map (·.1)).Nodup := by
  simpa [PostgresUsers.fetchUsers, Function.comp_def] using db.users.usersPkey

-- Rows of two of the tables are only ever added.
structure Grows (db db' : PostgresStore) : Prop where
  users    : db.users.users <+: db'.users.users
  messages : db.messages.messages <+: db'.messages.messages

theorem Grows.refl (db : PostgresStore) : db.Grows db :=
  ⟨List.prefix_rfl, List.prefix_rfl⟩

theorem Grows.trans {db₁ db₂ db₃ : PostgresStore} (h : db₁.Grows db₂) (h' : db₂.Grows db₃) :
    db₁.Grows db₃ :=
  ⟨h.users.trans h'.users, h.messages.trans h'.messages⟩

-- All that `create_message` can come to.
inductive CreatedMessage (db : PostgresStore) (m : Message) :
    Except Postgres.Error Unit × PostgresStore → Prop
  | failed {e : Postgres.Error} :
    ¬(PostgresDb.Accepts db.users.ids m ∧ m.id ∉ db.messages.messages.map (·.id)) →
    CreatedMessage db m (.error e, db)
  | created {db' : PostgresStore} : PostgresDb.Accepts db.users.ids m →
    m.id ∉ db.messages.messages.map (·.id) → db'.messages.messages = db.messages.messages ++ [m.row] →
    db'.users = db.users → db'.auth = db.auth → CreatedMessage db m (.ok (), db')

theorem createMessage_spec (db : PostgresStore) (m : Message) :
    CreatedMessage db m (db.createMessage m) := by
  have spec := db.messages.createMessage_spec db.users.ids m
  unfold createMessage
  split
  case h_1 hc =>
    rw [hc] at spec
    cases spec with | failed h => exact .failed h
  case h_2 hc =>
    rw [hc] at spec
    cases spec with | created accepted fresh messages => exact .created accepted fresh messages rfl rfl

section

variable [Unicode] [SqlLower]

-- All that `create_user` can come to.
inductive CreatedUser (db : PostgresStore) (username : String) (userId : UserId) :
    Except Postgres.Error (Option UserId) × PostgresStore → Prop
  | refused {res : Except Postgres.Error (Option UserId)} :
    (∀ stored, ¬db.users.Admits username userId stored) → (∀ id, res ≠ .ok (some id)) →
    CreatedUser db username userId (res, db)
  | created {stored : Varchar 150} {db' : PostgresStore} : db.users.Admits username userId stored →
    db'.users.users = db.users.users ++ [⟨stored, userId⟩] → db'.auth = db.auth →
    db'.messages = db.messages → CreatedUser db username userId (.ok (some userId), db')

theorem createUser_spec (db : PostgresStore) (username : String) (userId : UserId) :
    CreatedUser db username userId (db.createUser username userId) := by
  have spec := db.users.createUser_spec username userId
  rw [createUser]
  generalize_proofs subset
  generalize db.users.createUser username userId = res at spec subset ⊢
  cases spec
  case refused res admits failed =>
    refine .refused admits fun id h => ?_
    match res, failed with
    | .ok (some id'), failed => exact failed id' rfl
    | .ok none, _            => cases h
    | .error _, _            => cases h
  case created admits users => exact .created admits users rfl rfl

end

variable [PasswordHash]

-- All that `update_authentication` can come to.
inductive UpdatedAuthentication (db : PostgresStore) (userId : UserId) (info : AuthenticationInfo) :
    Except Postgres.Error (Option AuthenticationInfo) × PostgresStore → Prop
  | failed {e : Postgres.Error} : (∀ old, db.fetchAuthentication userId ≠ .ok old) ∨
      (∀ phcString, varchar 250 info.phcString ≠ .ok phcString) ∨ userId ∉ db.users.ids →
    UpdatedAuthentication db userId info (.error e, db)
  | updated {old : Option AuthenticationInfo} {phcString : Varchar 250} {db' : PostgresStore} :
    db.fetchAuthentication userId = .ok old → varchar 250 info.phcString = .ok phcString →
    userId ∈ db.users.ids →
    db'.auth.phcStringOf = Function.update db.auth.phcStringOf userId (some phcString) →
    db'.users = db.users → db'.messages = db.messages →
    UpdatedAuthentication db userId info (.ok old, db')

theorem updateAuthentication_spec (db : PostgresStore) (userId : UserId) (info : AuthenticationInfo) :
    UpdatedAuthentication db userId info (db.updateAuthentication userId info) := by
  have spec := db.auth.updateAuthentication_spec userId info
  rw [updateAuthentication]
  split
  case h_1 hu =>
    rw [hu] at spec
    cases spec with | failed h => exact .failed <| h.imp_right .inl
  case h_2 hu =>
    rw [hu] at spec
    cases spec with | updated fetched stored auth =>
    split
    case isTrue known  => exact .updated fetched stored known auth rfl rfl
    case isFalse known => exact .failed <| .inr <| .inr known

variable [Unicode] [SqlLower]

theorem grows_step (db : PostgresStore) (e : Event) : db.Grows (db.step e) := by
  cases e
  case createUser username userId =>
    have spec := db.createUser_spec username userId
    rw [step]
    generalize db.createUser username userId = res at spec ⊢
    cases spec
    case refused                      => exact .refl db
    case created _ users _ messages   => exact ⟨users ▸ List.prefix_append .., messages ▸ List.prefix_rfl⟩
  case updateAuthentication userId info =>
    have spec := db.updateAuthentication_spec userId info
    rw [step]
    generalize db.updateAuthentication userId info = res at spec ⊢
    cases spec
    case failed                       => exact .refl db
    case updated _ _ _ users messages => exact ⟨users ▸ List.prefix_rfl, messages ▸ List.prefix_rfl⟩
  case createMessage m =>
    have spec := db.createMessage_spec m
    rw [step]
    generalize db.createMessage m = res at spec ⊢
    cases spec
    case failed                       => exact .refl db
    case created messages users _     => exact ⟨users ▸ List.prefix_rfl, messages ▸ List.prefix_append ..⟩

theorem grows_exec (db : PostgresStore) (es : List Event) : db.Grows (system.exec db es) :=
  System.exec_induction (P := (db.Grows ·)) es (.refl db) fun db' e h => h.trans <| grows_step db' e

end Pheidippides.PostgresStore
