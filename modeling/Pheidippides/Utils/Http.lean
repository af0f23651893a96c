import Pheidippides.Objects.DataAccess
import Pheidippides.Utils.Str
import Mathlib.Logic.Function.Basic

namespace Pheidippides

-- A string by its lowercase form.
structure CaseInsensitiveString where
  lowercase : String
  deriving DecidableEq, Repr

namespace CaseInsensitiveString

def ofString [Unicode] (value : String) : CaseInsensitiveString where
  lowercase := Unicode.toLowercase value

end CaseInsensitiveString

-- For ASCII text the mapping is that of the Latin letters.
class LawfulUnicode [Unicode] : Prop where
  ascii : ∀ {s : String}, (∀ c ∈ s.toList, c.toNat < 128) →
    Unicode.toLowercase s = Str.toAsciiLowercase s

theorem asciiUnicode_lawful : @LawfulUnicode asciiUnicode :=
  @LawfulUnicode.mk asciiUnicode fun _ => rfl

abbrev Header  := CaseInsensitiveString × String
abbrev Headers := CaseInsensitiveString → Option String

inductive CookieParsingError
  | incorrectHeader
  deriving DecidableEq, Repr

variable [Unicode]

def getCookiesHashmap (headers : Headers) : Except CookieParsingError (String → Option String) :=
  match headers (.ofString "Cookie") with
  | none => .ok fun _ => none
  | some cookieList =>
    (Str.split "; " cookieList).foldlM (fun res cookie =>
      match Str.splitOnce '=' cookie with
      | some (key, value) => .ok <| Function.update res key (some value)
      | none              => .error .incorrectHeader) fun _ => none

def headerSetCookie (key value : String) : Header :=
  (.ofString "Set-Cookie", key ++ "=" ++ value)

-- A cookie as the browser sends it, and the value of the `Cookie` header for a list of them.
def cookiePair (cookie : String × String) : String :=
  cookie.1 ++ "=" ++ cookie.2

def cookieHeader (cookies : List (String × String)) : String :=
  "; ".intercalate <| cookies.map cookiePair

-- A cookie which can be told from what is around it.
structure IsCookie (cookie : String × String) : Prop where
  name      : '=' ∉ cookie.1.toList
  nameEnds  : ¬"; ".toList <:+: cookie.1.toList
  valueEnds : ¬"; ".toList <:+: cookie.2.toList

instance (cookie : String × String) : Decidable (IsCookie cookie) :=
  decidable_of_iff ('=' ∉ cookie.1.toList ∧ ¬"; ".toList <:+: cookie.1.toList ∧
      ¬"; ".toList <:+: cookie.2.toList)
    ⟨fun h => ⟨h.left, h.right.left, h.right.right⟩, fun h => ⟨h.name, h.nameEnds, h.valueEnds⟩⟩

end Pheidippides
