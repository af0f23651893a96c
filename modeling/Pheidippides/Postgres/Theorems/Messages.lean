import Pheidippides.Postgres.Db

open Pheidippides.Postgres

namespace Pheidippides

namespace Postgres

variable {t t' : Timestamp}

theorem microseconds_le (h : t ≤ t') : microseconds t ≤ microseconds t' :=
  Int.tdiv_le_tdiv (by omega) h

theorem lt_of_microseconds (h : microseconds t < microseconds t') : t < t' :=
  Int.lt_of_not_ge fun hn => Int.not_le.mpr h <| microseconds_le hn

end Postgres

namespace Message

variable {m m' : Message}

@[simp] theorem id_row : m.row.id = m.id := rfl
@[simp] theorem sender_row : m.row.sender = m.sender := rfl
@[simp] theorem receiver_row : m.row.receiver = m.receiver := rfl
@[simp] theorem message_row : m.row.message = m.message := rfl

@[simp]
theorem concerns_row {u : UserId} : m.row.Concerns u ↔ m.Concerns u :=
  .rfl

@[simp]
theorem between_row {u v : UserId} : m.row.Between u v ↔ m.Between u v :=
  .rfl

@[simp]
theorem map_id_row (messages : List Message) : (messages.map row).map (·.id) = messages.map (·.id) :=
  List.map_map

theorem timestamp_row_lt_iff :
    m.row.timestamp < m'.row.timestamp ↔ microseconds m.timestamp < microseconds m'.timestamp :=
  Int.mul_lt_mul_left (by decide)

end Message

namespace PostgresDb

variable {db db' : PostgresDb} {userIds : List UserId} {messages : List Message} {m : Message}

-- All that `create_message` can come to.
inductive CreatedMessage (db : PostgresDb) (userIds : List UserId) (m : Message) :
    Except PgError PostgresDb → Prop
  | failed {e : PgError} : ¬(Accepts userIds m ∧ m.id ∉ db.messages.map (·.id)) →
    CreatedMessage db userIds m (.error e)
  | created {db' : PostgresDb} : Accepts userIds m → m.id ∉ db.messages.map (·.id) →
    db'.messages = db.messages ++ [m.row] → CreatedMessage db userIds m (.ok db')

theorem createMessage_spec (db : PostgresDb) (userIds : List UserId) (m : Message) :
    CreatedMessage db userIds m (db.createMessage userIds m) := by
  unfold createMessage Postgres.bind timestamptz
  by_cases text : IsText m.message
  case neg => simpa [text] using .failed fun h => text h.left.left
  by_cases time : IsTimestamptz m.timestamp
  case neg => simpa [text, time] using .failed fun h => time h.left.right.left
  simp only [text, time, if_true]
  change CreatedMessage db userIds m (db.insert userIds m.row)
  unfold insert
  split
  case isTrue taken => exact .failed fun h => h.right taken
  case isFalse fresh =>
    split
    case isTrue known  => exact .created ⟨text, time, known⟩ fresh rfl
    case isFalse known => exact .failed fun h => known h.left.right.right

theorem createMessage_of_eq_ok (h : db.createMessage userIds m = .ok db') :
    Accepts userIds m ∧ m.id ∉ db.messages.map (·.id) ∧ db'.messages = db.messages ++ [m.row] := by
  have spec := db.createMessage_spec userIds m
  rw [h] at spec
  cases spec with | created accepted fresh messages => exact ⟨accepted, fresh, messages⟩

theorem exists_createMessage (accepted : Accepts userIds m) (fresh : m.id ∉ db.messages.map (·.id)) :
    ∃ db', db.createMessage userIds m = .ok db' := by
  have spec := db.createMessage_spec userIds m
  generalize db.createMessage userIds m = res at spec
  cases spec
  case failed h          => exact absurd ⟨accepted, fresh⟩ h
  case created db' _ _ _ => exact ⟨db', rfl⟩

-- What a constraint of the table asks of a new row.
theorem forall_createMessage (h : db.createMessage userIds m = .ok db') {p : Message → Prop} :
    (∀ m' ∈ db'.messages, p m') ↔ (∀ m' ∈ db.messages, p m') ∧ p m.row := by
  rw [(createMessage_of_eq_ok h).right.right]
  simp [or_imp, forall_and]

theorem messages_createMessages (h : db.createMessages userIds messages = .ok db') :
    db'.messages = db.messages ++ messages.map Message.row := by
  induction messages generalizing db
  case nil => cases h; simp
  case cons m messages ih =>
    rw [createMessages, List.foldlM_cons] at h
    cases hc : db.createMessage userIds m
    case error e =>
      rw [hc] at h
      cases h
    case ok db₁ =>
      rw [hc] at h
      rw [ih h, (createMessage_of_eq_ok hc).right.right]
      simp

theorem exists_createMessages (accepted : ∀ m ∈ messages, Accepts userIds m)
    (ids : ((db.messages ++ messages).map (·.id)).Nodup) :
    ∃ db', db.createMessages userIds messages = .ok db' := by
  induction messages generalizing db
  case nil => exact ⟨db, rfl⟩
  case cons m messages ih =>
    have ⟨head, tail⟩ := List.forall_mem_cons.mp accepted
    have fresh : m.id ∉ db.messages.map (·.id) := by
      simp only [List.map_append, List.map_cons] at ids
      exact fun h => List.disjoint_of_nodup_append ids h List.mem_cons_self
    obtain ⟨db₁, hc⟩ := exists_createMessage head fresh
    rw [createMessages, List.foldlM_cons, hc]
    refine ih tail ?_
    rw [(createMessage_of_eq_ok hc).right.right]
    simpa using ids

end PostgresDb
end Pheidippides
