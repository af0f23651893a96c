import Mathlib.Data.List.Infix
import Pheidippides.Objects.Basic

namespace Pheidippides

-- `str::to_lowercase`, the full Unicode mapping.
class Unicode where
  toLowercase : String → String

-- What is left of it for Latin letters.
@[reducible]
def asciiUnicode : Unicode where
  toLowercase s := .ofList <| s.toList.map Char.toLower

-- Whether one string occurs in another, `str::contains`.
def strContains (haystack needle : String) : Bool :=
  decide (needle.toList <:+: haystack.toList)

-- The trait of the stores. A store is a value of type `σ`, and an operation which writes returns the
-- store it leaves behind, also when it fails. Ids which an operation draws at random are arguments.
class DataAccess (σ : Type) (ε : outParam Type) where
  fetchUsers               : σ → Except ε (List (UserId × String))
  fetchUser                : σ → UserId → Except ε (Option User)
  findUserByUsername       : σ → String → Except ε (Option UserId)
  findUsersBySubstring     : σ → String → Except ε (List User)
  createUser               : σ → String → UserId → Except ε (Option UserId) × σ
  findUsersChats           : σ → UserId → Except ε (List User)
  fetchLastMessagesInChat  : σ → UserId → UserId → Option MessageId → Except ε (List Message)
  fetchUsersMessagesSince  : σ → UserId → MessageId → Except ε (List Message)
  createMessage            : σ → Message → Except ε Unit × σ

-- The bodies of the trait's provided methods, over the result of `fetch_users`.
namespace DataAccess

variable [Unicode]

open Unicode

def defaultFetchUser (users : List (UserId × String)) (userId : UserId) : Option User :=
  users.filterMap (fun (id, username) => if id = userId then some ⟨username, id⟩ else none) |>.head?

def defaultFindUserByUsername
    (users : List (UserId × String)) (requestedUsername : String) : Option UserId :=
  users.filterMap (fun (id, username) =>
    if toLowercase username = toLowercase requestedUsername then some id else none) |>.head?

def defaultFindUsersBySubstring
    (users : List (UserId × String)) (substring : String) : List User :=
  let searchQuery := toLowercase substring
  users.filterMap fun (userId, username) =>
    if strContains (toLowercase username) searchQuery then some ⟨username, userId⟩ else none

end DataAccess

-- A password hash in the PHC string format.
structure AuthenticationInfo where
  phcString : String
  deriving DecidableEq, Repr

class AuthStorage (σ : Type) (ε : outParam Type) where
  fetchAuthentication  : σ → UserId → Except ε (Option AuthenticationInfo)
  updateAuthentication :
    σ → UserId → AuthenticationInfo → Except ε (Option AuthenticationInfo) × σ

end Pheidippides
