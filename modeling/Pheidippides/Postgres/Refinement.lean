import Pheidippides.Objects.MockDb
import Pheidippides.Postgres.Store

open Pheidippides.Postgres

namespace Pheidippides

-- What a call that writes has returned.
inductive Outcome
  | createUser (userId : Option UserId)
  | updateAuthentication (oldAuth : Option AuthenticationInfo)
  | createMessage
  | failed
  deriving DecidableEq, Repr

def Outcome.of {ε α : Type} (outcome : α → Outcome) : Except ε α → Outcome
  | .ok a    => outcome a
  | .error _ => failed

namespace PostgresStore

variable [PasswordHash] [Unicode] [SqlLower]

def outcome (db : PostgresStore) : Event → Outcome
  | .createUser username userId       => .of .createUser (db.createUser username userId).1
  | .updateAuthentication userId info => .of .updateAuthentication (db.updateAuthentication userId info).1
  | .createMessage m                  => .of (fun _ => .createMessage) (db.createMessage m).1

-- The texts and times of the call fit into their columns, both sides fold the name alike, the id of a new
-- row is fresh, and the users of whom the call speaks exist.
def Plain (db : PostgresStore) : Event → Prop
  | .createUser username userId       =>
    PostgresUsers.SameFold username ∧ IsText username ∧ username.length ≤ 150 ∧ userId ∉ db.users.ids
  | .updateAuthentication userId info =>
    info.IsPhc ∧ IsText info.phcString ∧ info.phcString.length ≤ 250 ∧ userId ∈ db.users.ids
  | .createMessage m                  =>
    PostgresDb.Accepts db.users.ids m ∧ m.id ∉ db.messages.messages.map (·.id)

instance (db : PostgresStore) : ∀ e, Decidable (db.Plain e)
  | .createUser ..           => inferInstanceAs (Decidable (_ ∧ _))
  | .updateAuthentication .. => inferInstanceAs (Decidable (_ ∧ _))
  | .createMessage _         => inferInstanceAs (Decidable (_ ∧ _))

end PostgresStore

namespace MockDb

variable [Unicode]

def step (db : MockDb) : PostgresStore.Event → MockDb
  | .createUser username userId       => (db.createUser username userId).2
  | .updateAuthentication userId info => (db.updateAuthentication userId info).2
  | .createMessage m                  => (db.createMessage m).2

def system : System MockDb PostgresStore.Event where
  init := empty
  step := step

def outcome (db : MockDb) : PostgresStore.Event → Outcome
  | .createUser username userId       => .of .createUser (db.createUser username userId).1
  | .updateAuthentication userId info => .of .updateAuthentication (db.updateAuthentication userId info).1
  | .createMessage m                  => .of (fun _ => .createMessage) (db.createMessage m).1

end MockDb
end Pheidippides
