import Pheidippides.Primitives.Scan
import Pheidippides.Primitives.Utf8

-- The format of server-sent events, as a client decodes it.
namespace EventStream

-- A line which may stand anywhere in a stream. At the beginning a byte order mark would be ignored.
structure IsLine (line : List Char) : Prop where
  cr  : '\r' ∉ line
  lf  : '\n' ∉ line
  bom : line.head? ≠ some '\ufeff'

instance (line : List Char) : Decidable (IsLine line) :=
  decidable_of_iff ('\r' ∉ line ∧ '\n' ∉ line ∧ line.head? ≠ some '\ufeff')
    ⟨fun h => ⟨h.left, h.right.left, h.right.right⟩, fun h => ⟨h.cr, h.lf, h.bom⟩⟩

-- The lines which end with a line feed, a carriage return or both. What is left behind the last line end
-- is no line.
def linesAux (line : List Char) : List Char → List (List Char)
  | []                => []
  | '\r' :: '\n' :: l => line :: linesAux [] l
  | c :: l            =>
    if c = '\r' ∨ c = '\n' then line :: linesAux [] l else linesAux (line ++ [c]) l

def lines : List Char → List (List Char) :=
  linesAux []

def unlines (ls : List (List Char)) : List Char :=
  ls.flatMap (· ++ ['\n'])

-- The bytes of some lines.
def encode (ls : List (List Char)) : List UInt8 :=
  Utf8.encode (.ofList <| unlines ls)

structure Event where
  type        : String
  data        : String
  lastEventId : String
  deriving DecidableEq, Repr

-- The first three are buffers. With the fourth a client asks to go on after it has lost its connection.
structure Decoder where
  data             : List Char
  type             : List Char
  id               : List Char
  lastEventId      : List Char
  reconnectionTime : Option Nat
  deriving DecidableEq, Repr

namespace Decoder

def new : Decoder where
  data             := []
  type             := []
  id               := []
  lastEventId      := []
  reconnectionTime := none

def field (c : Decoder) (name value : List Char) : Decoder :=
  if name = "event".toList then
    { c with type := value }
  else if name = "data".toList then
    { c with data := c.data ++ value ++ ['\n'] }
  else if name = "id".toList then
    if '\x00' ∈ value then c else { c with id := value }
  else if name = "retry".toList then
    if value ≠ [] ∧ value.all Char.isDigit then
      { c with reconnectionTime := some (Nat.ofDigitChars 10 value 0) }
    else c
  else c

-- Without data there is no event.
def dispatch (c : Decoder) : Option Event × Decoder :=
  let c := { c with lastEventId := c.id }
  if c.data = [] then
    (none, { c with type := [] })
  else
    let event : Event := {
      type        := if c.type = [] then "message" else .ofList c.type
      data        := .ofList <| if c.data.getLast? = some '\n' then c.data.dropLast else c.data
      lastEventId := .ofList c.lastEventId }
    (some event, { c with data := [], type := [] })

-- A line which begins with a colon is a comment. Of a value one leading space is dropped.
def line (c : Decoder) (line : List Char) : Option Event × Decoder :=
  if line = [] then
    c.dispatch
  else if line.head? = some ':' then
    (none, c)
  else
    let name  := line.takeWhile (· ≠ ':')
    let value := (line.dropWhile (· ≠ ':')).drop 1
    (none, c.field name (if value.head? = some ' ' then value.drop 1 else value))

def run (c : Decoder) : List (List Char) → List Event × Decoder
  | []      => ([], c)
  | l :: ls =>
    let (event, c)  := c.line l
    let (events, c) := run c ls
    (event.toList ++ events, c)

end Decoder

def decodeText (text : String) : List Event × Decoder :=
  let text := text.toList
  Decoder.new.run <| lines <| if text.head? = some '\ufeff' then text.drop 1 else text

-- The events in a stream of bytes, and the state of the client behind them.
def decode (bytes : List UInt8) : Option (List Event × Decoder) :=
  (Utf8.decode? bytes).map decodeText

section Lines

variable {line l rest : List Char} {ls ls₁ ls₂ : List (List Char)}

theorem IsLine.append (h : IsLine line) (ne : line ≠ []) (cr : '\r' ∉ l) (lf : '\n' ∉ l) :
    IsLine (line ++ l) where
  cr  := by simp [h.cr, cr]
  lf  := by simp [h.lf, lf]
  bom := by rw [List.head?_append_of_ne_nil _ ne]; exact h.bom

theorem linesAux_append (cr : '\r' ∉ l) (lf : '\n' ∉ l) :
    linesAux line (l ++ '\n' :: rest) = (line ++ l) :: linesAux [] rest := by
  induction l generalizing line
  case nil => simp [linesAux]
  case cons c l ih =>
    have ⟨cr, tl⟩ := not_or.mp <| List.mem_cons.not.mp cr
    have ⟨lf, tl'⟩ := not_or.mp <| List.mem_cons.not.mp lf
    rw [List.cons_append, linesAux, if_neg (by simp [Ne.symm cr, Ne.symm lf]), ih tl tl']
    · simp
    · rintro _ rfl
      exact absurd rfl cr

theorem lines_unlines_append (h : ∀ l ∈ ls, IsLine l) (rest : List Char) :
    lines (unlines ls ++ rest) = ls ++ lines rest := by
  induction ls
  case nil => rfl
  case cons l ls ih =>
    have ⟨hd, tl⟩ := List.forall_mem_cons.mp h
    have text : unlines (l :: ls) ++ rest = l ++ '\n' :: (unlines ls ++ rest) := by simp [unlines]
    rw [text, lines, linesAux_append hd.cr hd.lf]
    exact congrArg (l :: ·) <| ih tl

theorem lines_unlines (h : ∀ l ∈ ls, IsLine l) : lines (unlines ls) = ls := by
  simpa [lines, linesAux] using lines_unlines_append h []

theorem encode_nil : encode [] = [] :=
  rfl

theorem encode_append : encode (ls₁ ++ ls₂) = encode ls₁ ++ encode ls₂ := by
  rw [encode, unlines, List.flatMap_append, String.ofList_append, Utf8.encode_append]
  rfl

theorem encode_cons : encode (l :: ls) = Utf8.encode (.ofList l ++ "\n") ++ encode ls := by
  rw [encode, unlines, List.flatMap_cons, String.ofList_append, Utf8.encode_append, String.ofList_append]
  rfl

end Lines

namespace Decoder

variable {c c' : Decoder} {name value l : List Char} {ls ls₁ ls₂ : List (List Char)}

theorem run_cons_none (h : c.line l = (none, c')) : c.run (l :: ls) = c'.run ls := by
  simp [run, h]

theorem run_empty_line : c.run [[]] = (c.dispatch.1.toList, c.dispatch.2) := by
  simp [run, line]

theorem run_append : c.run (ls₁ ++ ls₂) =
    ((c.run ls₁).1 ++ ((c.run ls₁).2.run ls₂).1, ((c.run ls₁).2.run ls₂).2) := by
  induction ls₁ generalizing c
  case nil => rfl
  case cons l ls ih => simp [run, ih]

-- A field as it is usually written.
theorem line_field (name : List Char) (hn : name ≠ []) (hc : ':' ∉ name) :
    c.line (name ++ ": ".toList ++ value) = (none, c.field name value) := by
  have first : (name ++ ": ".toList ++ value).head? ≠ some ':' := by
    intro hf
    cases name
    case nil => exact hn rfl
    case cons x name =>
      cases hf
      exact hc List.mem_cons_self
  have colon : name ++ ": ".toList ++ value = name ++ ':' :: ' ' :: value := by simp
  rw [line, if_neg (by simp [hn]), if_neg first, colon, Scan.takeWhile_append hc,
    Scan.dropWhile_append hc]
  simp

theorem line_comment (h : l.head? = some ':') : c.line l = (none, c) := by
  cases l
  case nil => cases h
  case cons => rw [line, if_neg (List.cons_ne_nil _ _), if_pos h]

-- The lines of the data are collected.
theorem run_data :
    c.run (ls.map ("data: ".toList ++ ·)) = ([], { c with data := c.data ++ unlines ls }) := by
  induction ls generalizing c
  case nil => simp [run, unlines]
  case cons l ls ih =>
    have first : c.line ("data: ".toList ++ l) = (none, { c with data := c.data ++ l ++ ['\n'] }) :=
      line_field "data".toList (by decide) (by decide)
    rw [List.map_cons, run_cons_none first, ih]
    simp [unlines]

end Decoder

-- The bytes of some lines are decoded line by line.
theorem decode_encode {ls : List (List Char)} (h : ∀ l ∈ ls, IsLine l) :
    decode (encode ls) = some (Decoder.new.run ls) := by
  have bom : (unlines ls).head? ≠ some '\ufeff' := by
    cases ls
    case nil => simp [unlines]
    case cons l ls =>
      have ⟨hd, _⟩ := List.forall_mem_cons.mp h
      cases l
      case nil => simp [unlines]
      case cons => simpa [unlines] using hd.bom
  rw [decode, encode, Utf8.decode?_encode, Option.map_some, decodeText, String.toList_ofList, if_neg bom,
    lines_unlines h]

end EventStream
