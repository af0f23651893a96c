import Pheidippides.Objects.DataAccess

namespace Pheidippides

-- What is used of the `password-hash` crate: the hash which a PHC string stands for, as a text again.
class PasswordHash where
  parse : String → Option AuthenticationInfo

-- What all PHC strings have in common.
@[reducible]
def dollarPhc : PasswordHash where
  parse s := if s.toList.head? = some '$' then some ⟨s⟩ else none

inductive AuthenticationInfoParsingError
  | incorrectPhcString (s : String)
  deriving DecidableEq, Repr

namespace AuthenticationInfo

variable [PasswordHash]

def fromStr (s : String) : Except AuthenticationInfoParsingError AuthenticationInfo :=
  match PasswordHash.parse s with
  | some info => .ok info
  | none      => .error <| .incorrectPhcString s

-- It is always so in the source, where an `AuthenticationInfo` holds a hash which has been parsed or
-- computed.
def IsPhc (info : AuthenticationInfo) : Prop :=
  PasswordHash.parse info.phcString = some info

instance (info : AuthenticationInfo) : Decidable info.IsPhc :=
  inferInstanceAs (Decidable (_ = _))

theorem fromStr_of_isPhc {info : AuthenticationInfo} (h : info.IsPhc) :
    fromStr info.phcString = .ok info := by
  rw [fromStr, h]

end AuthenticationInfo
end Pheidippides
