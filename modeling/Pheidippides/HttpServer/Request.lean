import Pheidippides.Primitives.Utf8
import Pheidippides.Web.Request
import Mathlib.Data.List.TakeWhile

namespace Pheidippides

-- "Incorrect method" is the text of the only error.
def Method.fromStr [Unicode] (s : String) : Option Method :=
  match Unicode.toLowercase s with
  | "get"     => some get
  | "put"     => some put
  | "post"    => some post
  | "delete"  => some delete
  | "patch"   => some patch
  | "head"    => some head
  | "options" => some options
  | "trace"   => some trace
  | "connect" => some connect
  | _         => none

namespace HttpServer

-- "Could not read line"
-- "Could not parse first line: {first_line}"
-- "Incorrect method"
-- "Incorrect header: {next_line}"
-- "Content-Length header is missing"
-- "Couldn't parse content-length as a number: {value:?}"
-- The last two are errors of `read_exact` and `from_utf8`.
inductive Error
  | couldNotReadLine
  | couldNotParseFirstLine (firstLine : String)
  | incorrectMethod
  | incorrectHeader (nextLine : String)
  | missingContentLength
  | notANumber (value : String)
  | unexpectedEof
  | invalidUtf8
  deriving DecidableEq, Repr

-- `reader` is what the stream holds behind the head.
structure Request where
  reader  : List UInt8
  method  : Method
  url     : String
  headers : Headers

-- What comes of a call that may panic, or abort the process when there is no memory for a buffer.
inductive Outcome (α : Type)
  | ok (value : α)
  | err (error : Error)
  | capacityOverflow
  | aborted

-- Whether there is memory for that many bytes.
class Allocator where
  grants : Nat → Bool

-- `read_line` into an empty string. At the end of the stream it reads what is left, or nothing.
def readLine (reader : List UInt8) : Except Error (String × List UInt8) :=
  let line := reader.takeWhile (· ≠ 10)
  let rest := reader.dropWhile (· ≠ 10)
  match Utf8.decode? (line ++ rest.take 1) with
  | some text => .ok (text, rest.drop 1)
  | none      => .error .couldNotReadLine

theorem readLine_length {reader rest : List UInt8} {line : String}
    (h : readLine reader = .ok (line, rest)) (hl : line ≠ "") : rest.length < reader.length := by
  have length := (reader.dropWhile_suffix (· ≠ 10)).length_le
  have pos : 0 < reader.length := by
    refine List.length_pos_iff.mpr ?_
    rintro rfl
    cases h
    exact hl rfl
  rw [readLine] at h
  split at h <;> cases h
  rw [List.length_drop]
  omega

-- `with_context`
def withContext {α : Type} (error : Error) : Option α → Except Error α
  | some value => .ok value
  | none       => .error error

namespace Request

variable [Unicode]

-- The loop over the header lines. A line which is read at the end of the stream is empty and no header.
def readHeaders (headers : Headers) (reader : List UInt8) : Except Error (Headers × List UInt8) :=
  match _h : readLine reader with
  | .error e                => .error e
  | .ok (nextLine, reader') =>
    if nextLine = "\r\n" then
      .ok (headers, reader')
    else match _hs : Str.splitOnceStr ": " nextLine with
      | none              => .error (.incorrectHeader nextLine)
      | some (key, value) =>
        readHeaders (Function.update headers (.ofString key) (some (Str.trimEnd value))) reader'
termination_by reader.length
decreasing_by exact readLine_length _h <| by rintro rfl; cases _hs

def tryFromStream (stream : List UInt8) : Except Error Request := do
  let (firstLine, reader) ← readLine stream
  let firstLineSplit      := Str.splitWhitespace firstLine
  let context             := Error.couldNotParseFirstLine firstLine
  let method              ← withContext context firstLineSplit[0]?
  let method              ← withContext .incorrectMethod (Method.fromStr method)
  let url                 ← withContext context firstLineSplit[1]?
  let (headers, reader)   ← readHeaders (fun _ => none) reader
  return { reader, method, url, headers }

-- `isize::MAX`, the number of bytes which no allocation may exceed.
def isizeMax : Nat :=
  2 ^ 63 - 1

variable [Allocator]

-- A buffer of this length can be had. An empty one needs no memory.
def Fits (n : Nat) : Prop :=
  n ≤ isizeMax ∧ (n = 0 ∨ Allocator.grants n = true)

instance (n : Nat) : Decidable (Fits n) :=
  inferInstanceAs (Decidable (_ ∧ _))

-- Besides the content this returns the request with what the stream still holds. The buffer is allocated
-- before anything is read into it.
def content (request : Request) : Outcome (String × Request) :=
  match request.headers (.ofString "content-length") with
  | none => .err .missingContentLength
  | some value =>
    match Str.parseUsize value with
    | none => .err (.notANumber value)
    | some contentLength =>
      if contentLength > isizeMax then .capacityOverflow
      else if ¬Fits contentLength then .aborted
      else if request.reader.length < contentLength then .err .unexpectedEof
      else match Utf8.decode? (request.reader.take contentLength) with
        | none     => .err .invalidUtf8
        | some res => .ok (res, { request with reader := request.reader.drop contentLength })

-- What the handlers get to see of a request.
def toRequest (request : Request) : Pheidippides.Request where
  method  := request.method
  url     := request.url
  headers := request.headers
  content :=
    match request.content with
    | .ok (res, _) => some res
    | _            => none

end Request
end HttpServer
end Pheidippides
