import Pheidippides.Primitives.Utf8
import Mathlib.Data.List.Basic

-- Percent-encoding of text as UTF-8.
namespace PercentEncoding

def hexValue (c : Char) : Option Nat :=
  if '0' ≤ c ∧ c ≤ '9' then some (c.toNat - '0'.toNat)
  else if 'A' ≤ c ∧ c ≤ 'F' then some (c.toNat - 'A'.toNat + 10)
  else if 'a' ≤ c ∧ c ≤ 'f' then some (c.toNat - 'a'.toNat + 10)
  else none

-- The escapes of some bytes, in either case of the digits.
inductive EscapedBytes : List UInt8 → List Char → Prop
  | nil : EscapedBytes [] []
  | cons {b : UInt8} {bs : List UInt8} {x y : Char} {enc : List Char} :
    hexValue x = some (b.toNat / 16) → hexValue y = some (b.toNat % 16) → EscapedBytes bs enc →
    EscapedBytes (b :: bs) ('%' :: x :: y :: enc)

-- Each character of a text stands for itself, unless it is `%`, or is written as the escapes of its bytes.
inductive Encodes : List Char → List Char → Prop
  | nil : Encodes [] []
  | literal {c : Char} {text enc : List Char} : c ≠ '%' → Encodes text enc →
    Encodes (c :: text) (c :: enc)
  | escaped {c : Char} {text esc enc : List Char} : EscapedBytes (String.utf8EncodeChar c) esc →
    Encodes text enc → Encodes (c :: text) (esc ++ enc)

-- The value of an escape, if the characters that follow a `%` are one.
def escape : List Char → Option UInt8
  | x :: y :: _ => (hexValue x).bind fun a => (hexValue y).map fun b => .ofNat (a * 16 + b)
  | _           => none

-- Everything but an escape stands for itself. The number counts down the rest of an escape.
def bytes : Nat → List Char → List UInt8
  | _, []         => []
  | n + 1, _ :: l => bytes n l
  | 0, c :: l     =>
    match if c = '%' then escape l else none with
    | some b => b :: bytes 2 l
    | none   => String.utf8EncodeChar c ++ bytes 0 l

-- The text, if the bytes are those of one.
def decode (s : String) : Option String :=
  Utf8.decode? (bytes 0 s.toList)

variable {text enc : List Char} {bs : List UInt8}

theorem bytes_escapedBytes (h : EscapedBytes bs enc) (rest : List Char) :
    bytes 0 (enc ++ rest) = bs ++ bytes 0 rest := by
  induction h
  case nil => rfl
  case cons b bs x y enc hx hy _ ih =>
    have value : UInt8.ofNat (b.toNat / 16 * 16 + b.toNat % 16) = b := by
      rw [Nat.mul_comm, Nat.div_add_mod, UInt8.ofNat_toNat]
    have esc : escape (x :: y :: (enc ++ rest)) = some b := by
      rw [escape, hx, hy]
      exact congrArg some value
    simp [bytes, esc, ih]

theorem bytes_encodes (h : Encodes text enc) : bytes 0 enc = text.flatMap String.utf8EncodeChar := by
  induction h
  case nil => rfl
  case literal hc _ ih => rw [bytes, if_neg hc, ih, List.flatMap_cons]
  case escaped h _ ih  => rw [bytes_escapedBytes h, ih, List.flatMap_cons]

theorem decode_of_bytes {s t : String} (h : bytes 0 s.toList = Utf8.encode t) : decode s = some t := by
  rw [decode, h, Utf8.decode?_encode]

theorem bytes_eq_encode (h : Encodes text enc) :
    bytes 0 (String.ofList enc).toList = Utf8.encode (.ofList text) := by
  rw [String.toList_ofList, bytes_encodes h, Utf8.encode, String.toList_ofList]

theorem decode_encodes (h : Encodes text enc) : decode (.ofList enc) = some (.ofList text) :=
  decode_of_bytes <| bytes_eq_encode h

end PercentEncoding
