import Pheidippides.Messenger.Messenger
import Pheidippides.Primitives.System

namespace Pheidippides

-- A call of `create_user`, with the id that the store draws for it.
structure Signup where
  login    : String
  password : String
  userId   : UserId
  deriving DecidableEq, Repr

-- Concurrent calls of `create_user`: `waiting` are those which have inserted their user and not stored
-- the authentication yet. The last two fields are history: the calls which have inserted a user, and
-- what the calls have returned.
structure Accounts (σ ε δ : Type) where
  store    : σ
  waiting  : List Signup
  inserted : List Signup
  returned : List (Signup × Except (MessengerError ε δ) (Option UserId))

namespace Accounts

variable {σ ε δ : Type}

def start (store : σ) : Accounts σ ε δ where
  store    := store
  waiting  := []
  inserted := []
  returned := []

-- `other` is whatever else happens to the store.
inductive Event (σ : Type)
  | insert    (s : Signup)
  | authorize (s : Signup) (salt : Option String)
  | other     (store : σ)

variable [DataAccess σ ε] [AuthStorage σ δ] [Argon2]

def insert (w : Accounts σ ε δ) (s : Signup) : Accounts σ ε δ :=
  match Messenger.insertUser w.store s.login s.userId with
  | (.ok (some _), store) =>
    { w with store, waiting := w.waiting ++ [s], inserted := w.inserted ++ [s] }
  | (res, store) => { w with store, returned := w.returned ++ [(s, res)] }

def authorize (w : Accounts σ ε δ) (s : Signup) (salt : Option String) : Accounts σ ε δ :=
  if s ∈ w.waiting then
    let (res, store) := Messenger.authorizeUser w.store s.login s.password s.userId salt
    { w with store, waiting := w.waiting.erase s, returned := w.returned ++ [(s, res)] }
  else
    w

def step (w : Accounts σ ε δ) : Event σ → Accounts σ ε δ
  | .insert s         => w.insert s
  | .authorize s salt => w.authorize s salt
  | .other store      => { w with store }

def system (store : σ) : System (Accounts σ ε δ) (Event σ) where
  init := start store
  step := step

def success : Signup × Except (MessengerError ε δ) (Option UserId) → Option Signup
  | (s, .ok (some _)) => some s
  | _                 => none

-- The calls which have returned an id.
def successes (w : Accounts σ ε δ) : List Signup :=
  w.returned.filterMap success

variable [LawfulStore σ]

-- The ids are fresh, and whatever else happens to the store leaves the two tables alone.
def Regular (w : Accounts σ ε δ) (e : Event σ) : Prop :=
  (∀ {s}, e = .insert s → s.userId ∉ (LawfulStore.users w.store).map (·.1)) ∧
    ∀ {store}, e = .other store → LawfulStore.users store = LawfulStore.users w.store ∧
      LawfulStore.auth store = LawfulStore.auth w.store

-- No half of a call leaves a user behind whom nobody will give an authentication.
def Completing (w : Accounts σ ε δ) : Event σ → Prop
  | .insert s         => Messenger.Reverts w.store s.login s.userId
  | .authorize s salt => s ∈ w.waiting → Messenger.Authenticates w.store s.password s.userId salt
  | .other _          => True

end Accounts
end Pheidippides
