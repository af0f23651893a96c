import Pheidippides.Objects.DataAccess

namespace Pheidippides

-- What is used of the `argon2` crate. Hashing a password may fail.
class Argon2 where
  hashPassword   : (password salt : String) → Option AuthenticationInfo
  verifyPassword : AuthenticationInfo → (password : String) → Bool

open Argon2

-- A hash verifies against the password it was made from, and against no other.
class LawfulArgon2 [Argon2] : Prop where
  verifyPassword_iff : ∀ {password salt info}, hashPassword password salt = some info →
    ∀ p, verifyPassword info p = true ↔ p = password

inductive AuthServiceError (ε : Type)
  | couldntFetchAuthentication (userId : UserId) (e : ε)
  | passwordHashGenerationThreadFailed
  | couldntGenerateHash (password : String)
  | couldntUpdateAuthentication (userId : UserId) (e : ε)
  deriving DecidableEq, Repr

namespace AuthServiceUsingArgon2

variable {σ ε : Type} [AuthStorage σ ε] [Argon2]

-- The thread which verifies the password is taken to come to its end.
def verifyUser (storage : σ) (userId : UserId) (password : String) :
    Except (AuthServiceError ε) Bool :=
  match AuthStorage.fetchAuthentication storage userId with
  | .error e            => .error <| .couldntFetchAuthentication userId e
  | .ok none            => .ok false
  | .ok (some authInfo) => .ok <| verifyPassword authInfo password

-- The hash is generated in a thread which draws the salt, or dies.
def createUser (storage : σ) (userId : UserId) (password : String) (salt : Option String) :
    Except (AuthServiceError ε) Unit × σ :=
  match salt with
  | none => (.error .passwordHashGenerationThreadFailed, storage)
  | some salt =>
    match hashPassword password salt with
    | none => (.error <| .couldntGenerateHash password, storage)
    | some authInfo =>
      match AuthStorage.updateAuthentication storage userId authInfo with
      | (.error e, storage) => (.error <| .couldntUpdateAuthentication userId e, storage)
      | (.ok _, storage)    => (.ok (), storage)

end AuthServiceUsingArgon2
end Pheidippides
