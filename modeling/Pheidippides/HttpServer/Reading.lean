import Pheidippides.HttpServer.Request

namespace Pheidippides.HttpServer

-- How far `try_from_stream` has come with the bytes that have arrived. `line` is what `read_line` has of
-- the line which it is waiting for.
inductive Reading
  | firstLine (line : List UInt8)
  | nextLine (method : Method) (url : String) (headers : Headers) (line : List UInt8)
  | done (request : Request)
  | failed (error : Error)

namespace Reading

def start : Reading :=
  .firstLine []

variable [Unicode]

def decodeLine (line : List UInt8) : Except Error String :=
  withContext .couldNotReadLine (Utf8.decode? line)

def parseFirstLine (firstLine : String) : Except Error (Method × String) := do
  let firstLineSplit := Str.splitWhitespace firstLine
  let context        := Error.couldNotParseFirstLine firstLine
  let method         ← withContext context firstLineSplit[0]?
  let method         ← withContext .incorrectMethod (Method.fromStr method)
  let url            ← withContext context firstLineSplit[1]?
  return (method, url)

-- `read_line` has returned the line.
def endLine : Reading → Reading
  | .firstLine line =>
    match decodeLine line >>= parseFirstLine with
    | .ok (method, url) => .nextLine method url (fun _ => none) []
    | .error e          => .failed e
  | .nextLine method url headers line =>
    match decodeLine line with
    | .error e => .failed e
    | .ok text =>
      if text = "\r\n" then
        .done { reader := [], method, url, headers }
      else match Str.splitOnceStr ": " text with
        | none              => .failed (.incorrectHeader text)
        | some (key, value) =>
          .nextLine method url (Function.update headers (.ofString key) (some (Str.trimEnd value))) []
  | reading => reading

def push : Reading → UInt8 → Reading
  | .firstLine line, b =>
    let reading := .firstLine (line ++ [b])
    if b = 10 then reading.endLine else reading
  | .nextLine method url headers line, b =>
    let reading := .nextLine method url headers (line ++ [b])
    if b = 10 then reading.endLine else reading
  | .done request, b => .done { request with reader := request.reader ++ [b] }
  | .failed e, _     => .failed e

-- Some more bytes arrive.
def feed (reading : Reading) (bytes : List UInt8) : Reading :=
  bytes.foldl push reading

-- What is still to be done, if these bytes are all that is left of the stream.
def resume (reading : Reading) (stream : List UInt8) : Except Error Request :=
  match reading with
  | .firstLine line                   => Request.tryFromStream (line ++ stream)
  | .nextLine method url headers line => do
    let (headers, reader) ← Request.readHeaders headers (line ++ stream)
    return { reader, method, url, headers }
  | .done request => .ok { request with reader := request.reader ++ stream }
  | .failed e     => .error e

-- The stream ends.
def finish (reading : Reading) : Except Error Request :=
  reading.resume []

end Reading
end Pheidippides.HttpServer
