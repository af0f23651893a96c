import Pheidippides.Primitives.Scan
import Pheidippides.Primitives.Utf8
import Mathlib.Data.List.DropRight

-- The format of the responses of HTTP, as a client takes them apart.
namespace HttpMessage

-- The names of the headers are as they have been written.
structure Response where
  version : String
  status  : String
  headers : List (String × String)
  body    : List UInt8
  deriving DecidableEq, Repr

-- Some bytes up to a carriage return with a line feed, and the bytes behind it.
def takeLine : List UInt8 → Option (List UInt8 × List UInt8)
  | []               => none
  | 13 :: 10 :: rest => some ([], rest)
  | b :: bytes       => (takeLine bytes).map fun (line, rest) => (b :: line, rest)

theorem takeLine_length {bytes line rest : List UInt8} (h : takeLine bytes = some (line, rest)) :
    rest.length < bytes.length := by
  fun_induction takeLine bytes generalizing line
  case case1 => cases h
  case case2 => cases h; simp only [List.length_cons]; omega
  case case3 b bytes _ ih =>
    obtain ⟨⟨line, _⟩, hl, he⟩ := Option.map_eq_some_iff.mp h
    cases he
    exact Nat.lt_succ_of_lt <| ih hl

-- A version and a status, with a space in between.
def statusLine (line : String) : Option (String × String) :=
  match line.toList.dropWhile (· ≠ ' ') with
  | ' ' :: status => some (.ofList <| line.toList.takeWhile (· ≠ ' '), .ofList status)
  | _             => none

def isBlank (c : Char) : Bool :=
  c = ' ' || c = '\t'

-- The value of a header is what is left without the blanks around it.
def strip (value : String) : String :=
  .ofList <| (value.toList.dropWhile isBlank).rdropWhile isBlank

-- A name and a value, with a colon in between.
def header (line : String) : Option (String × String) :=
  match line.toList.dropWhile (· ≠ ':') with
  | ':' :: value => some (.ofList <| line.toList.takeWhile (· ≠ ':'), strip (.ofList value))
  | _            => none

-- The lines up to an empty one, and the bytes behind it.
def headers (bytes : List UInt8) : Option (List (String × String) × List UInt8) :=
  match _h : takeLine bytes with
  | none              => none
  | some ([], rest)   => some ([], rest)
  | some (line, rest) => do
    let first          ← (Utf8.decode? line).bind header
    let (others, body) ← headers rest
    return (first :: others, body)
termination_by bytes.length
decreasing_by exact takeLine_length _h

def parse (bytes : List UInt8) : Option Response := do
  let (line, rest)      ← takeLine bytes
  let (version, status) ← (Utf8.decode? line).bind statusLine
  let (headers, body)   ← headers rest
  return { version, status, headers, body }

-- A header which can be written in a line of its own.
structure IsHeader (header : String × String) : Prop where
  colon : ':' ∉ header.1.toList
  name  : '\r' ∉ header.1.toList
  value : '\r' ∉ header.2.toList

-- No blank stands at either end.
def IsStripped (value : String) : Prop :=
  (∀ c ∈ value.toList.head?, isBlank c = false) ∧ ∀ c ∈ value.toList.getLast?, isBlank c = false

instance (value : String) : Decidable (IsStripped value) :=
  @instDecidableAnd _ _ (Option.decidableForallMem _) (Option.decidableForallMem _)

-- A header as it is read.
def stripped (header : String × String) : String × String :=
  (header.1, strip header.2)

variable {version status line name value : String} {rest : List UInt8}

theorem strip_of_isStripped (h : IsStripped value) : strip value = value := by
  have left : value.toList.dropWhile isBlank = value.toList := by
    cases hl : value.toList
    case nil         => rfl
    case cons c rest => exact List.dropWhile_cons_of_neg <| by simp [h.left c (by simp [hl])]
  have right : value.toList.rdropWhile isBlank = value.toList := by
    rw [List.rdropWhile_eq_self_iff]
    intro hl
    simp [h.right _ <| List.getLast?_eq_some_getLast hl]
  rw [strip, left, right, String.ofList_toList]

theorem strip_space : strip (" " ++ value) = strip value := by
  have space : isBlank ' ' = true := rfl
  simp [strip, space]

theorem stripped_of_isStripped (h : IsStripped value) : stripped (name, value) = (name, value) :=
  Prod.ext rfl <| strip_of_isStripped h

theorem map_stripped {hs : List (String × String)} (h : ∀ header ∈ hs, IsStripped header.2) :
    hs.map stripped = hs :=
  (List.map_congr_left fun header hm => stripped_of_isStripped <| h header hm).trans <| List.map_id hs

theorem takeLine_append (h : '\r' ∉ line.toList) :
    takeLine (Utf8.encode (line ++ "\r\n") ++ rest) = some (Utf8.encode line, rest) := by
  have aux (bytes : List UInt8) (hb : 13 ∉ bytes) :
      takeLine (bytes ++ 13 :: 10 :: rest) = some (bytes, rest) := by
    induction bytes
    case nil => rfl
    case cons b bytes ih =>
      have ⟨hd, tl⟩ := not_or.mp <| List.mem_cons.not.mp hb
      rw [List.cons_append, takeLine, ih tl]
      · rfl
      · rintro _ rfl
        exact absurd rfl hd
  have bytes : Utf8.encode (line ++ "\r\n") ++ rest = Utf8.encode line ++ 13 :: 10 :: rest := by
    rw [Utf8.encode_append, List.append_assoc]
    rfl
  rw [bytes, aux]
  rwa [Utf8.mem_encode_iff (c := '\r') (by decide) rfl]

theorem statusLine_append (h : ' ' ∉ version.toList) :
    statusLine (version ++ " " ++ status) = some (version, status) := by
  have text : (version ++ " " ++ status).toList = version.toList ++ ' ' :: status.toList := by simp
  rw [statusLine, text, Scan.takeWhile_append h, Scan.dropWhile_append h]
  simp

theorem header_append (h : ':' ∉ name.toList) :
    header (name ++ ": " ++ value) = some (stripped (name, value)) := by
  have text : (name ++ ": " ++ value).toList = name.toList ++ ':' :: (" " ++ value).toList := by simp
  rw [header, text, Scan.takeWhile_append h, Scan.dropWhile_append h]
  simp only [String.ofList_toList, strip_space, stripped]

theorem headers_of_nil {bytes : List UInt8} (h : takeLine bytes = some ([], rest)) :
    headers bytes = some ([], rest) := by
  rw [headers]
  split <;> simp_all

theorem headers_of_line {bytes body : List UInt8} {first : String × String}
    {others : List (String × String)} (h : takeLine bytes = some (Utf8.encode line, rest))
    (hf : header line = some first) (hr : headers rest = some (others, body)) :
    headers bytes = some (first :: others, body) := by
  have ne : Utf8.encode line ≠ [] := by
    intro he
    have : line = "" := Utf8.encode_inj.mp he
    subst this
    cases hf
  rw [headers]
  split
  case h_1 hn => simp [h] at hn
  case h_2 hn => simp [h, ne] at hn
  case h_3 line' rest' _ hn =>
    obtain ⟨rfl, rfl⟩ : Utf8.encode line = line' ∧ rest = rest' := by simpa [h] using hn
    simp [Utf8.decode?_encode, hf, hr]

-- Headers are read as they have been written, but for blanks, and whatever comes behind them.
theorem headers_append {hs : List (String × String)} (h : ∀ header ∈ hs, IsHeader header) :
    headers (hs.flatMap (fun header => Utf8.encode (header.1 ++ ": " ++ header.2 ++ "\r\n")) ++
      (Utf8.encode "\r\n" ++ rest)) = some (hs.map stripped, rest) := by
  induction hs
  case nil =>
    have empty : takeLine (Utf8.encode ("" ++ "\r\n") ++ rest) = some (Utf8.encode "", rest) :=
      takeLine_append (by simp)
    exact headers_of_nil empty
  case cons first hs ih =>
    have ⟨hd, tl⟩ := List.forall_mem_cons.mp h
    rw [List.flatMap_cons, List.append_assoc]
    refine headers_of_line (takeLine_append ?_) (header_append hd.colon) (ih tl)
    simpa [hd.name] using hd.value

theorem parse_append (rest : List UInt8) {hs : List (String × String)} (hv : ' ' ∉ version.toList)
    (hl : '\r' ∉ version.toList ∧ '\r' ∉ status.toList) (hh : ∀ header ∈ hs, IsHeader header) :
    parse (Utf8.encode (version ++ " " ++ status ++ "\r\n") ++
      (hs.flatMap (fun header => Utf8.encode (header.1 ++ ": " ++ header.2 ++ "\r\n")) ++
        (Utf8.encode "\r\n" ++ rest))) = some ⟨version, status, hs.map stripped, rest⟩ := by
  have line : '\r' ∉ (version ++ " " ++ status).toList := by simpa [hl.left] using hl.right
  have first : (Utf8.decode? (Utf8.encode (version ++ " " ++ status))).bind statusLine =
      some (version, status) := by
    rw [Utf8.decode?_encode, Option.bind_some, statusLine_append hv]
  simp only [parse, takeLine_append line, first, headers_append hh, Option.bind_eq_bind,
    Option.bind_some, Option.pure_def]

end HttpMessage
