import Pheidippides.Utils.Str
import Pheidippides.Primitives.PercentEncoding
import Mathlib.Logic.Function.Basic

namespace Pheidippides

-- What is used of the `url_escape` crate. There is no text where the escaped bytes are not UTF-8.
class UrlEscape where
  decode : String → Option String

namespace FormData

-- `notUtf8` is none of the errors of the source. The crate puts the bytes into a `String` unchecked, and
-- what becomes of the process with such a string is undefined.
inductive Error
  | customMessage (msg : String)
  | cantParseKey (s : String)
  | cantParseValue (s : String)
  | notUtf8
  deriving DecidableEq, Repr

variable [UrlEscape]

-- Every `+` becomes a space before the escapes are decoded.
def decode (text : String) : Option String :=
  UrlEscape.decode <| .ofList <| text.toList.map fun c => if c = '+' then ' ' else c

-- The two halves of the map access, which return what is left of the string as well.
def nextKeySeed {α : Type} (seed : String → Except Error α) (str : String) :
    Except Error (Option (α × String)) :=
  if str.isEmpty then
    .ok none
  else match Str.splitOnce '=' str with
    | some (key, rest) => (seed key).map fun key => some (key, rest)
    | none             => .error <| .cantParseKey str

def nextValueSeed {α : Type} (seed : String → Except Error α) (str : String) :
    Except Error (α × String) :=
  if str.isEmpty then
    .error <| .cantParseValue str
  else match Str.splitOnce '&' str with
    | some (value, rest) => (seed value).map fun value => (value, rest)
    | none               => (seed str).map fun value => (value, "")

-- What the two halves hand to their seeds, and what they leave.
def takeKey (str : String) : Except Error (Option (String × String)) :=
  if str.isEmpty then
    .ok none
  else match Str.splitOnce '=' str with
    | some (key, rest) => .ok <| some (key, rest)
    | none             => .error <| .cantParseKey str

def takeValue (str : String) : Except Error (String × String) :=
  if str.isEmpty then
    .error <| .cantParseValue str
  else match Str.splitOnce '&' str with
    | some (value, rest) => .ok (value, rest)
    | none               => .ok (str, "")

section Seeds

omit [UrlEscape]

variable {α : Type} {seed : String → Except Error α}

theorem nextKeySeed_eq (str : String) : nextKeySeed seed str =
    (takeKey str).bind fun
      | none             => .ok none
      | some (key, rest) => (seed key).map fun key => some (key, rest) := by
  rw [nextKeySeed, takeKey]
  split
  · rfl
  · cases Str.splitOnce '=' str <;> rfl

theorem nextValueSeed_eq (str : String) : nextValueSeed seed str =
    (takeValue str).bind fun (value, rest) => (seed value).map fun value => (value, rest) := by
  rw [nextValueSeed, takeValue]
  split
  · rfl
  · cases Str.splitOnce '&' str <;> rfl

theorem length_of_takeKey {str key rest : String} (h : takeKey str = .ok (some (key, rest))) :
    rest.length < str.length := by
  rw [takeKey] at h
  split at h
  case isTrue => cases h
  case isFalse =>
    split at h <;> cases h
    case h_1 hs => exact Str.length_of_splitOnce hs

theorem length_of_takeValue {str value rest : String} (h : takeValue str = .ok (value, rest)) :
    rest.length ≤ str.length := by
  rw [takeValue] at h
  split at h
  case isTrue => cases h
  case isFalse =>
    split at h <;> cases h
    case h_1 hs => exact Nat.le_of_lt <| Str.length_of_splitOnce hs
    case h_2    => exact Nat.zero_le _

theorem length_of_nextKeySeed {str rest : String} {key : α}
    (h : nextKeySeed seed str = .ok (some (key, rest))) : rest.length < str.length := by
  rw [nextKeySeed_eq] at h
  match hk : takeKey str with
  | .error _               => cases hk ▸ h
  | .ok none               => cases hk ▸ h
  | .ok (some (key', rest')) =>
    rw [hk] at h
    cases hs : seed key' <;> simp only [Except.bind, hs, Except.map] at h <;> cases h
    exact length_of_takeKey hk

theorem length_of_nextValueSeed {str rest : String} {value : α}
    (h : nextValueSeed seed str = .ok (value, rest)) : rest.length ≤ str.length := by
  rw [nextValueSeed_eq] at h
  match hv : takeValue str with
  | .error _            => cases hv ▸ h
  | .ok (value', rest') =>
    rw [hv] at h
    cases hs : seed value' <;> simp only [Except.bind, hs, Except.map] at h <;> cases h
    exact length_of_takeValue hv

end Seeds

-- `deserialize_string` of `StringValue`
def string (part : String) : Except Error String :=
  match decode part with
  | some text => .ok text
  | none      => .error .notUtf8

-- `deserialize_identifier`, by which the field is found that has the name. Bytes that are no text are the
-- name of none.
def identifier (fields : List String) (part : String) : Except Error (Option String) :=
  .ok <| (decode part).filter (· ∈ fields)

-- `deserialize_ignored_any`, which does not decode anything.
def ignoredAny (_part : String) : Except Error Unit :=
  .ok ()

-- The visitor which `derive(Deserialize)` makes for a struct. A field of the struct may come once, and
-- any other field is skipped.
def visitMap (fields : List String) (found : String → Option String) (str : String) :
    Except Error (String → Option String) :=
  match _hk : nextKeySeed (identifier fields) str with
  | .error e                    => .error e
  | .ok none                    => .ok found
  | .ok (some (none, rest))     =>
    match _hv : nextValueSeed ignoredAny rest with
    | .error e       => .error e
    | .ok ((), rest) => visitMap fields found rest
  | .ok (some (some key, rest)) =>
    if (found key).isSome then
      .error <| .customMessage <| "duplicate field `" ++ key ++ "`"
    else match _hv : nextValueSeed string rest with
      | .error e          => .error e
      | .ok (value, rest) => visitMap fields (Function.update found key (some value)) rest
termination_by str.length
decreasing_by
  all_goals exact Nat.lt_of_le_of_lt (length_of_nextValueSeed _hv) <| length_of_nextKeySeed _hk

-- The fields of a struct, where a `String` has to be there and an `Option<String>` does not.
def fromStr (fields : List String) (s : String) : Except Error (String → Option String) :=
  visitMap fields (fun _ => none) s

def field (found : String → Option String) (name : String) : Except Error String :=
  match found name with
  | some value => .ok value
  | none       => .error <| .customMessage <| "missing field `" ++ name ++ "`"

omit [UrlEscape] in
theorem toOption_field (found : String → Option String) (name : String) :
    (field found name).toOption = found name := by
  rw [field]
  cases found name <;> rfl

-- The map access run to its end, keys and values in turn.
def entries (str : String) : Except Error (List (String × String)) :=
  match _hk : nextKeySeed string str with
  | .error e               => .error e
  | .ok none               => .ok []
  | .ok (some (key, rest)) =>
    match _hv : nextValueSeed string rest with
    | .error e          => .error e
    | .ok (value, rest) => (entries rest).map ((key, value) :: ·)
termination_by str.length
decreasing_by exact Nat.lt_of_le_of_lt (length_of_nextValueSeed _hv) <| length_of_nextKeySeed _hk

-- The pairs of texts which the access comes upon.
def scan (str : String) : Except Error (List (String × String)) :=
  match _hk : takeKey str with
  | .error e               => .error e
  | .ok none               => .ok []
  | .ok (some (key, rest)) =>
    match _hv : takeValue rest with
    | .error e          => .error e
    | .ok (value, rest) => (scan rest).map ((key, value) :: ·)
termination_by str.length
decreasing_by exact Nat.lt_of_le_of_lt (length_of_takeValue _hv) <| length_of_takeKey _hk

-- Form encodings of a text: a character may stand for itself, unless it is `%` or `+`, or be escaped, and
-- a space may become a `+`.
inductive Encodes : List Char → List Char → Prop
  | nil : Encodes [] []
  | literal {c : Char} {text enc : List Char} : c ≠ '%' → c ≠ '+' → Encodes text enc →
    Encodes (c :: text) (c :: enc)
  | plus {text enc : List Char} : Encodes text enc → Encodes (' ' :: text) ('+' :: enc)
  | escaped {c : Char} {text esc enc : List Char} :
    PercentEncoding.EscapedBytes (String.utf8EncodeChar c) esc → Encodes text enc →
    Encodes (c :: text) (esc ++ enc)

-- An encoded part of a pair has no separators of its own.
def EncodesPart (text part : String) : Prop :=
  Encodes text.toList part.toList ∧ '=' ∉ part.toList ∧ '&' ∉ part.toList

def joinPairs : List (String × String) → String
  | []                      => ""
  | [(key, value)]          => key ++ "=" ++ value
  | (key, value) :: parts   => key ++ "=" ++ value ++ "&" ++ joinPairs parts

-- Form encodings of a list of pairs.
def EncodesPairs (pairs : List (String × String)) (str : String) : Prop :=
  ∃ parts, str = joinPairs parts ∧
    pairs.Forall₂ (fun pair part => EncodesPart pair.1 part.1 ∧ EncodesPart pair.2 part.2) parts

-- What is known of the crate: it undoes percent-encoding.
class LawfulUrlEscape : Prop where
  decode_encodes : ∀ {text enc}, PercentEncoding.Encodes text enc →
    UrlEscape.decode (.ofList enc) = some (.ofList text)

-- What is documented of the crate: every escape is decoded, and all else is left as it is. This settles
-- what comes out wherever the bytes are those of a text.
class DecodesEscapes : Prop where
  decode_of_bytes : ∀ {s text}, PercentEncoding.bytes 0 s.toList = Utf8.encode text →
    UrlEscape.decode s = some text

-- The reading of a string by its separators.
def reference (str : String) : Option (List (String × String)) :=
  ((Str.split "&" str).filter (· ≠ "")).mapM (Str.splitOnce '=')

-- Every piece has a `=`, except that the last one may be empty.
def Regular : List String → Prop
  | []              => True
  | [piece]         => piece = "" ∨ '=' ∈ piece.toList
  | piece :: pieces => '=' ∈ piece.toList ∧ Regular pieces

instance Regular.decidable : (pieces : List String) → Decidable (Regular pieces)
  | []                      => .isTrue trivial
  | [_]                     => inferInstanceAs (Decidable (_ ∨ _))
  | piece :: next :: pieces =>
    let _ := Regular.decidable (next :: pieces)
    inferInstanceAs (Decidable ('=' ∈ piece.toList ∧ Regular (next :: pieces)))

end FormData
end Pheidippides
