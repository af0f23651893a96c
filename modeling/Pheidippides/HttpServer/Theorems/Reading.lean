import Pheidippides.HttpServer.Reading
import Pheidippides.HttpServer.Theorems.Request

namespace Pheidippides.HttpServer

theorem readLine_of_not_mem {line : List UInt8} (h : 10 ∉ line) (stream : List UInt8) :
    readLine (line ++ 10 :: stream) = (Reading.decodeLine (line ++ [10])).map (·, stream) := by
  rw [readLine, Scan.takeWhile_append h, Scan.dropWhile_append h, List.take_succ_cons, List.take_zero,
    Reading.decodeLine]
  cases Utf8.decode? (line ++ [10]) <;> rfl

namespace Reading

variable [Unicode] {reading : Reading} {stream : List UInt8} {request : Request} {e : Error}

-- The line which is waited for has not ended yet.
def Open : Reading → Prop
  | .firstLine line      => 10 ∉ line
  | .nextLine _ _ _ line => 10 ∉ line
  | _                    => True

omit [Unicode] in
theorem start_open : start.Open :=
  List.not_mem_nil

theorem endLine_open (reading : Reading) : reading.endLine.Open := by
  cases reading
  case firstLine =>
    rw [endLine]
    split <;> simp [Open]
  case nextLine =>
    rw [endLine]
    split
    case h_1 => trivial
    case h_2 =>
      split_ifs
      · trivial
      · split <;> simp [Open]
  all_goals trivial

theorem push_open (b : UInt8) (h : reading.Open) : (reading.push b).Open := by
  cases reading
  case done   => trivial
  case failed => trivial
  all_goals
    rw [push]
    split_ifs with hb
    · exact endLine_open _
    · simp_all [Open, eq_comm]

theorem feed_open (bytes : List UInt8) (h : reading.Open) : (reading.feed bytes).Open := by
  induction bytes generalizing reading
  case nil            => exact h
  case cons b bytes ih => exact ih <| push_open b h

-- The end of the first line is the end of the first step.
theorem resume_firstLine {line : List UInt8} (h : 10 ∉ line) (stream : List UInt8) :
    (firstLine line).resume (10 :: stream) = (firstLine (line ++ [10])).endLine.resume stream := by
  rw [resume, Request.tryFromStream, readLine_of_not_mem h, endLine]
  cases decodeLine (line ++ [10])
  case error e => rfl
  case ok text =>
    simp only [parseFirstLine, Except.map, bind, Except.bind]
    cases withContext (.couldNotParseFirstLine text) (Str.splitWhitespace text)[0]?
    case error => rfl
    case ok name =>
      dsimp only
      cases withContext .incorrectMethod (Method.fromStr name)
      case error => rfl
      case ok method =>
        dsimp only
        cases withContext (.couldNotParseFirstLine text) (Str.splitWhitespace text)[1]? <;> rfl

theorem resume_nextLine {method : Method} {url : String} {headers : Headers} {line : List UInt8}
    (h : 10 ∉ line) (stream : List UInt8) : (nextLine method url headers line).resume (10 :: stream) =
      (nextLine method url headers (line ++ [10])).endLine.resume stream := by
  rw [resume, Request.readHeaders, endLine]
  have read := readLine_of_not_mem h stream
  split
  case h_1 hr =>
    rw [read] at hr
    cases hd : decodeLine (line ++ [10]) <;> rw [hd] at hr <;> cases hr
    rfl
  case h_2 hr =>
    rw [read] at hr
    cases hd : decodeLine (line ++ [10]) <;> rw [hd] at hr <;> cases hr
    case ok =>
      dsimp only
      split_ifs
      · rfl
      · split <;> simp_all <;> rfl

theorem resume_push (b : UInt8) (h : reading.Open) :
    (reading.push b).resume stream = reading.resume (b :: stream) := by
  cases reading
  case done   => simp [push, resume]
  case failed => rfl
  case firstLine line =>
    rw [push]
    split_ifs with hb
    · rw [hb, resume_firstLine h]
    · simp [resume]
  case nextLine line =>
    rw [push]
    split_ifs with hb
    · rw [hb, resume_nextLine h]
    · simp [resume]

-- However the bytes are cut into pieces.
theorem resume_feed (bytes : List UInt8) (h : reading.Open) :
    (reading.feed bytes).resume stream = reading.resume (bytes ++ stream) := by
  induction bytes generalizing reading
  case nil             => rfl
  case cons b bytes ih => exact (ih <| push_open b h).trans <| resume_push b h

theorem resume_start (bytes : List UInt8) :
    (start.feed bytes).resume stream = Request.tryFromStream (bytes ++ stream) :=
  resume_feed bytes start_open

omit [Unicode] in
theorem mem_of_isLine {text : String} (h : IsLine text) : 10 ∈ Utf8.encode text := by
  obtain ⟨l, rfl, _⟩ := h
  simp [Utf8.encode_append, show Utf8.encode "\n" = [10] from rfl]

theorem mem_of_headerLines {headers headers' : Headers} {bytes : List UInt8}
    (h : Request.HeaderLines headers bytes headers') : 10 ∈ bytes := by
  cases h
  case nil          => decide
  case cons line _ _ _ => exact List.mem_append_left _ <| mem_of_isLine ‹_›

-- As long as a line is missing the stream must not end.
theorem eq_done_of_finish (ho : reading.Open) (h : reading.finish = .ok request) :
    reading = .done request := by
  cases reading
  case failed => cases h
  case done   =>
    rw [finish, resume, List.append_nil] at h
    exact congrArg done <| Except.ok.inj h
  case firstLine line =>
    rw [finish, resume, List.append_nil] at h
    have ⟨_, hl, head⟩ := Request.tryFromStream_eq_ok_iff.mp h
    obtain ⟨isLine, _⟩ := head
    exact absurd (hl ▸ by simp [mem_of_isLine isLine]) ho
  case nextLine line =>
    rw [finish, resume, List.append_nil] at h
    have ⟨_, hr, _⟩ := bind_eq_ok.mp h
    obtain ⟨bytes, hl, lines⟩ := Request.headerLines_of_readHeaders hr
    exact absurd (hl ▸ List.mem_append_left _ (mem_of_headerLines lines)) ho

theorem feed_eq_done_iff {bytes : List UInt8} :
    start.feed bytes = .done request ↔ Request.tryFromStream bytes = .ok request := by
  have finish : (start.feed bytes).finish = Request.tryFromStream bytes :=
    (resume_start bytes).trans <| by rw [List.append_nil]
  constructor
  case mp  => exact fun h => by simpa [h, Reading.finish, resume] using finish.symm
  case mpr => exact fun h => eq_done_of_finish (feed_open bytes start_open) <| finish.trans h

theorem tryFromStream_of_failed {bytes : List UInt8} (h : start.feed bytes = .failed e)
    (stream : List UInt8) : Request.tryFromStream (bytes ++ stream) = .error e := by
  rw [← resume_start, h]
  rfl

theorem foldl_feed (packets : List (List UInt8)) :
    packets.foldl feed reading = reading.feed packets.flatten := by
  induction packets generalizing reading
  case nil                    => rfl
  case cons packet packets ih => rw [List.foldl_cons, ih, List.flatten_cons, feed, feed, feed,
                                   List.foldl_append]

-- Whatever the packets in which a stream arrives, a request is read from it as from the whole stream: it
-- is there as soon as its head is, and it is refused no earlier than nothing can help it any more.
theorem feed_packets (packets : List (List UInt8)) :
    (packets.foldl feed start).finish = Request.tryFromStream packets.flatten ∧
    (∀ request, packets.foldl feed start = .done request ↔
      Request.tryFromStream packets.flatten = .ok request) ∧
    ∀ e, packets.foldl feed start = .failed e →
      ∀ rest, Request.tryFromStream (packets.flatten ++ rest) = .error e := by
  rw [foldl_feed]
  refine ⟨?_, fun request => feed_eq_done_iff, fun e => tryFromStream_of_failed⟩
  rw [finish, resume_start, List.append_nil]

end Reading

namespace Request

variable [Unicode] {request : Request} {bytes : List UInt8}

theorem tryFromStream_append (h : tryFromStream bytes = .ok request) (rest : List UInt8) :
    tryFromStream (bytes ++ rest) = .ok { request with reader := request.reader ++ rest } := by
  obtain ⟨head, rfl, hh⟩ := tryFromStream_eq_ok_iff.mp h
  rw [List.append_assoc]
  exact hh.tryFromStream _

variable [Allocator]

theorem toRequest_content (request : Request) : request.toRequest.content =
    (announced request.headers).bind fun n =>
      if Fits n ∧ n ≤ request.reader.length then Utf8.decode? (request.reader.take n) else none := by
  rw [toRequest]
  cases hn : announced request.headers
  case none =>
    have ⟨e, he⟩ := content_of_not_announced hn
    simp only [he, Option.bind_none]
  case some n =>
    rw [Option.bind_some]
    by_cases fits : Fits n
    case neg =>
      obtain he | he := content_of_not_fits _ hn fits
      all_goals simp [he, fits]
    case pos =>
      rw [content_of_fits hn fits]
      by_cases short : request.reader.length < n
      · simp [short, short.not_ge]
      · cases Utf8.decode? (request.reader.take n) <;> simp [fits, short, Nat.le_of_not_lt short]

-- Once the content is there nothing behind it changes a request.
theorem toRequest_append (h : ∀ n ∈ announced request.headers, Fits n → n ≤ request.reader.length)
    (rest : List UInt8) :
    toRequest { request with reader := request.reader ++ rest } = request.toRequest := by
  have content : (toRequest { request with reader := request.reader ++ rest }).content =
      request.toRequest.content := by
    rw [toRequest_content, toRequest_content]
    refine Option.bind_congr fun n hn => ?_
    by_cases fits : Fits n
    case neg => simp [fits]
    case pos =>
      have le  := h n hn fits
      have le' : n ≤ (request.reader ++ rest).length := by simp; omega
      simp only [fits, le, le', List.take_append_of_le_length le]
  simp only [toRequest, Pheidippides.Request.mk.injEq] at content ⊢
  exact ⟨trivial, trivial, trivial, content⟩

end Request
end Pheidippides.HttpServer
