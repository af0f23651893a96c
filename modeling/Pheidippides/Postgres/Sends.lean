import Pheidippides.Postgres.Db
import Pheidippides.Primitives.System

namespace Pheidippides

-- Concurrent calls of `send_message` over the Postgres store: `inFlight` are the messages which have
-- got their timestamp and are not inserted yet.
structure PostgresSends where
  now      : Timestamp
  users    : List UserId
  inFlight : List Message
  db       : PostgresDb

namespace PostgresSends

def empty : PostgresSends where
  now      := 0
  users    := []
  inFlight := []
  db       := .empty

-- A call takes its timestamp in `stamp` and is through with its insertion in `commit`. An insertion may
-- also fail.
inductive Event
  | clock  (now : Timestamp)
  | user   (userId : UserId)
  | stamp  (id : MessageId) (sender receiver : UserId) (message : String)
  | commit (m : Message)
  | fail   (m : Message)

def commit (w : PostgresSends) (m : Message) : PostgresSends :=
  if m ∈ w.inFlight then
    match w.db.createMessage w.users m with
    | .ok db   => { w with inFlight := w.inFlight.erase m, db }
    | .error _ => { w with inFlight := w.inFlight.erase m }
  else
    w

def step (w : PostgresSends) : Event → PostgresSends
  | .clock now                        => { w with now }
  | .user userId                      => { w with users := w.users ++ [userId] }
  | .stamp id sender receiver message =>
    { w with inFlight := w.inFlight ++ [⟨id, sender, receiver, message, w.now⟩] }
  | .commit m                         => w.commit m
  | .fail m                           => { w with inFlight := w.inFlight.erase m }

def system : System PostgresSends Event where
  init := empty
  step := step

-- The event is the successful insertion of the row.
def Commits (w : PostgresSends) (e : Event) (row : Message) : Prop :=
  ∃ m ∈ w.inFlight, e = .commit m ∧ row = m.row ∧ PostgresDb.Accepts w.users m ∧
    m.id ∉ w.db.messages.map (·.id)

-- A fetch in the state `w` returns all that the user has got since the state `w₁`.
def Resumes (w₁ w : PostgresSends) (userId : UserId) (startingPoint : MessageId) : Prop :=
  ∀ {res}, w.db.FetchUsersMessagesSince userId startingPoint res →
    ∀ m ∈ w.db.messages, m ∉ w₁.db.messages → m.Concerns userId → m ∈ res

end PostgresSends
end Pheidippides
