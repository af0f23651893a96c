import Pheidippides.Objects.DataAccess
import Mathlib.Logic.Function.Basic

namespace Pheidippides

open Unicode

-- A store of accounts is a table of users and a table of authentications, each of which is written by one
-- operation. What is stored may differ from what has been asked for, and an operation which returns an
-- error may still have written: the connection may be lost after the store has committed.
class LawfulStore (σ : Type) {ε δ : outParam Type} [DataAccess σ ε] [AuthStorage σ δ] where
  users : σ → List (UserId × String)
  auth  : σ → UserId → Option AuthenticationInfo
  createUser_auth : ∀ (s : σ) name id, auth (DataAccess.createUser s name id).2 = auth s
  createUser_none : ∀ (s : σ) name id, (DataAccess.createUser s name id).1 = .ok none →
    users (DataAccess.createUser s name id).2 = users s
  createUser_some : ∀ (s : σ) name id {i}, (DataAccess.createUser s name id).1 = .ok (some i) →
    i = id ∧ ∃ stored, users (DataAccess.createUser s name id).2 = users s ++ [(id, stored)]
  createUser_error : ∀ (s : σ) name id {e}, (DataAccess.createUser s name id).1 = .error e →
    users (DataAccess.createUser s name id).2 = users s ∨
      ∃ stored, users (DataAccess.createUser s name id).2 = users s ++ [(id, stored)]
  updateAuthentication_users : ∀ (s : σ) id info,
    users (AuthStorage.updateAuthentication s id info).2 = users s
  updateAuthentication_ok : ∀ (s : σ) id info {o},
    (AuthStorage.updateAuthentication s id info).1 = .ok o → ∃ stored,
      auth (AuthStorage.updateAuthentication s id info).2 = Function.update (auth s) id (some stored)
  updateAuthentication_error : ∀ (s : σ) id info {e},
    (AuthStorage.updateAuthentication s id info).1 = .error e →
      auth (AuthStorage.updateAuthentication s id info).2 = auth s ∨ ∃ stored,
        auth (AuthStorage.updateAuthentication s id info).2 = Function.update (auth s) id (some stored)

-- A store whose operations take effect as a whole or fail, and answer what the tables say.
class AtomicStore (σ : Type) {ε δ : outParam Type} [Unicode] [DataAccess σ ε] [AuthStorage σ δ] extends
    LawfulStore σ where
  eq_of_createUser_error : ∀ (s : σ) name id {e},
    (DataAccess.createUser s name id).1 = .error e → (DataAccess.createUser s name id).2 = s
  eq_of_createUser_none : ∀ (s : σ) name id,
    (DataAccess.createUser s name id).1 = .ok none → (DataAccess.createUser s name id).2 = s
  users_of_createUser_some : ∀ (s : σ) name id {i}, (DataAccess.createUser s name id).1 = .ok (some i) →
    (∀ user ∈ users s, toLowercase user.2 ≠ toLowercase name) ∧
      users (DataAccess.createUser s name id).2 = users s ++ [(id, name)]
  eq_of_updateAuthentication_error : ∀ (s : σ) id info {e},
    (AuthStorage.updateAuthentication s id info).1 = .error e →
      (AuthStorage.updateAuthentication s id info).2 = s
  auth_of_updateAuthentication_ok : ∀ (s : σ) id info {o},
    (AuthStorage.updateAuthentication s id info).1 = .ok o →
      auth (AuthStorage.updateAuthentication s id info).2 = Function.update (auth s) id (some info)
  findUserByUsername_ok : ∀ {s : σ} {name found},
    DataAccess.findUserByUsername s name = .ok found →
      found = DataAccess.defaultFindUserByUsername (users s) name
  fetchAuthentication_ok : ∀ {s : σ} {id found},
    AuthStorage.fetchAuthentication s id = .ok found → found = auth s id

end Pheidippides
