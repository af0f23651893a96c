import Pheidippides.HttpServer.Grammar

namespace Pheidippides.HttpServer

theorem readLine_line {l : String} (h : '\n' ∉ l.toList) (rest : List UInt8) :
    readLine (Utf8.encode (l ++ "\n") ++ rest) = .ok (l ++ "\n", rest) := by
  have mem : 10 ∉ Utf8.encode l := Utf8.mem_encode_iff (by decide) rfl |>.not.mpr h
  have encode : Utf8.encode (l ++ "\n") = Utf8.encode l ++ [10] := by
    rw [Utf8.encode_append]
    rfl
  have bytes : Utf8.encode (l ++ "\n") ++ rest = Utf8.encode l ++ 10 :: rest := by
    rw [encode, List.append_assoc, List.singleton_append]
  rw [readLine, bytes, Scan.takeWhile_append mem, Scan.dropWhile_append mem, List.take_succ_cons,
    List.take_zero, ← encode, Utf8.decode?_encode]
  rfl

-- A text whose last byte is that of a line break.
theorem isLine_of_encode {text : String} {line : List UInt8} (h : Utf8.encode text = line ++ [10])
    (hl : 10 ∉ line) : IsLine text := by
  obtain hn | ⟨l, c, hc⟩ := text.toList.eq_nil_or_concat
  case inl => simp [Utf8.encode, hn] at h
  case inr =>
    have bytes : l.flatMap String.utf8EncodeChar ++ String.utf8EncodeChar c = line ++ [10] := by
      rw [← h, Utf8.encode, hc]
      simp
    have hc' : c = '\n' := by
      obtain ⟨bs, b, hb⟩ :=
        (String.utf8EncodeChar c).eq_nil_or_concat.resolve_left String.utf8EncodeChar_ne_nil
      rw [hb, List.concat_eq_append, ← List.append_assoc] at bytes
      have last := (List.append_inj' bytes rfl).right
      rw [← Char.toNat_inj]
      refine Utf8.mem_utf8EncodeChar_iff (b := 10) (by decide) |>.mp ?_
      rw [hb, List.concat_eq_append, last]
      simp
    cases hc'
    have init : l.flatMap String.utf8EncodeChar = line := (List.append_inj' bytes rfl).left
    refine ⟨.ofList l, by rw [← String.toList_inj, hc]; simp, fun hm => hl ?_⟩
    rw [← init, ← String.toList_ofList (l := l), ← Utf8.encode]
    exact Utf8.mem_encode_iff (by decide) rfl |>.mpr hm

theorem readLine_eq_ok {reader rest : List UInt8} {text : String}
    (h : readLine reader = .ok (text, rest)) :
    reader = Utf8.encode text ++ rest ∧ (IsLine text ∨ (rest = [] ∧ '\n' ∉ text.toList)) := by
  have parts := List.takeWhile_append_dropWhile (p := (· ≠ 10)) (l := reader)
  have mem : 10 ∉ reader.takeWhile (· ≠ 10) := fun hm => by simpa using List.mem_takeWhile_imp hm
  have head := List.head?_dropWhile_not (· ≠ 10) reader
  rw [readLine] at h
  split at h
  case h_2 => cases h
  case h_1 hd =>
    cases h
    rw [Utf8.decode?_eq_some_iff] at hd
    generalize hr : reader.dropWhile (· ≠ 10) = tail at *
    cases tail
    case nil =>
      rw [List.take_nil, List.append_nil] at hd
      rw [List.append_nil] at parts
      refine ⟨?_, .inr ⟨rfl, fun hm => mem ?_⟩⟩
      · rw [← hd, parts]
        simp
      · rw [hd]
        exact Utf8.mem_encode_iff (by decide) rfl |>.mpr hm
    case cons b rest =>
      obtain rfl : b = 10 := by simpa using head
      rw [List.take_succ_cons, List.take_zero] at hd
      refine ⟨?_, .inl <| isLine_of_encode hd.symm mem⟩
      rw [← hd, List.append_assoc, List.drop_succ_cons, List.drop_zero]
      exact parts.symm

theorem withContext_eq_ok {α : Type} {error : Error} {value : Option α} {a : α} :
    withContext error value = .ok a ↔ value = some a := by
  cases value <;> simp [withContext]

theorem bind_eq_ok {α β : Type} {x : Except Error α} {f : α → Except Error β} {b : β} :
    x >>= f = .ok b ↔ ∃ a, x = .ok a ∧ f a = .ok b := by
  cases x
  case error => exact ⟨nofun, nofun⟩
  case ok a  => exact ⟨fun h => ⟨a, rfl, h⟩, fun ⟨_, ha, h⟩ => by cases ha; exact h⟩

namespace Request

variable [Unicode]

theorem HeaderLines.readHeaders {headers headers' : Headers} {bytes : List UInt8}
    (h : HeaderLines headers bytes headers') (rest : List UInt8) :
    Request.readHeaders headers (bytes ++ rest) = .ok (headers', rest) := by
  induction h
  case nil =>
    have line := readLine_line (l := "\r") (by decide) rest
    rw [Request.readHeaders]
    split
    case h_1 hr => cases hr.symm.trans line
    case h_2 hr =>
      cases hr.symm.trans line
      rw [if_pos (by decide)]
  case cons isLine ne split _ ih =>
    obtain ⟨l, rfl, hl⟩ := isLine
    have line := readLine_line hl
    rw [Request.readHeaders, List.append_assoc]
    split
    case h_1 hr => cases hr.symm.trans <| line _
    case h_2 hr =>
      cases hr.symm.trans <| line _
      rw [if_neg ne]
      split
      case h_1 hs => cases hs.symm.trans split
      case h_2 hs =>
        cases hs.symm.trans split
        exact ih

-- The end of the stream is no end of the header lines.
theorem readHeaders_nil (headers : Headers) : readHeaders headers [] = .error (.incorrectHeader "") := by
  have line : readLine [] = .ok ("", []) := rfl
  rw [readHeaders]
  split
  case h_1 hr => cases hr.symm.trans line
  case h_2 hr =>
    cases hr.symm.trans line
    rfl

theorem headerLines_of_readHeaders {headers headers' : Headers} {reader rest : List UInt8}
    (h : readHeaders headers reader = .ok (headers', rest)) :
    ∃ bytes, reader = bytes ++ rest ∧ HeaderLines headers bytes headers' := by
  fun_induction readHeaders headers reader
  case case1 => cases h
  case case3 => cases h
  case case2 hr =>
    cases h
    exact ⟨_, (readLine_eq_ok hr).left, .nil⟩
  case case4 hr ne key value hs ih =>
    obtain ⟨hb, isLine | ⟨rfl, _⟩⟩ := readLine_eq_ok hr
    · have ⟨bytes, he, lines⟩ := ih h
      exact ⟨_, by rw [hb, he, List.append_assoc], .cons isLine ne hs lines⟩
    · cases (readHeaders_nil _).symm.trans h

-- What is accepted is a head, whatever comes behind it.
theorem tryFromStream_eq_ok_iff {stream : List UInt8} {request : Request} :
    tryFromStream stream = .ok request ↔ ∃ head, stream = head ++ request.reader ∧
      Head head request.method request.url request.headers := by
  simp only [tryFromStream, bind_eq_ok, withContext_eq_ok]
  constructor
  case mp =>
    rintro ⟨⟨firstLine, _⟩, hr, name, hn, method, hm, url, hu, ⟨headers, rest⟩, hh, he⟩
    cases he
    obtain ⟨bytes, rfl, lines⟩ := headerLines_of_readHeaders hh
    obtain ⟨rfl, isLine | ⟨hb, _⟩⟩ := readLine_eq_ok hr
    · exact ⟨_, (List.append_assoc ..).symm, .intro isLine hn hm hu lines⟩
    · cases (readHeaders_nil _).symm.trans <| hb ▸ hh
  case mpr =>
    rintro ⟨_, rfl, head⟩
    obtain ⟨reader, _, _, _⟩ := request
    obtain ⟨⟨l, rfl, hl⟩, hn, hm, hu, lines⟩ := head
    have line := readLine_line hl
    rw [List.append_assoc]
    exact ⟨_, line _, _, hn, _, hm, _, hu, _, lines.readHeaders reader, rfl⟩

theorem Head.tryFromStream {head : List UInt8} {method : Method} {url : String} {headers : Headers}
    (h : Head head method url headers) (reader : List UInt8) :
    Request.tryFromStream (head ++ reader) = .ok { reader, method, url, headers } :=
  tryFromStream_eq_ok_iff.mpr ⟨head, rfl, h⟩

-- A stream which ends within a head is refused, and nothing behind the head is looked at.
theorem tryFromStream_head {stream : List UInt8} {request : Request}
    (h : tryFromStream stream = .ok request) :
    ∃ head, stream = head ++ request.reader ∧
      Head head request.method request.url request.headers ∧
      (∀ p, p <+: head → p ≠ head → ∃ e, tryFromStream p = .error e) ∧
      ∀ rest, tryFromStream (head ++ rest) = .ok { request with reader := rest } := by
  have ⟨head, hs, hh⟩ := tryFromStream_eq_ok_iff.mp h
  refine ⟨head, hs, hh, ?_, hh.tryFromStream⟩
  rintro p ⟨missing, rfl⟩ ne
  cases hp : tryFromStream p
  case error e => exact ⟨e, rfl⟩
  case ok request' =>
    obtain ⟨head', rfl, hh'⟩ := tryFromStream_eq_ok_iff.mp hp
    have whole := hh.tryFromStream []
    rw [List.append_nil, List.append_assoc, hh'.tryFromStream] at whole
    have none : request'.reader ++ missing = [] := congrArg reader <| Except.ok.inj whole
    exact absurd (by simp [(List.append_eq_nil_iff.mp none).right]) ne

omit [Unicode] in
theorem tryFromStream_head_example :
    let _ := asciiUnicode
    ∃ e, tryFromStream (Utf8.encode "GET /chat HTTP/1.1\r\nCookie: a=b\r\n\r") = .error e := by
  intro _
  have lines : HeaderLines (fun _ => none) (Utf8.encode "Cookie: a=b\r\n" ++ Utf8.encode "\r\n") _ :=
    .cons ⟨"Cookie: a=b\r", rfl, by decide⟩ (by decide) rfl .nil
  have head : Head (Utf8.encode "GET /chat HTTP/1.1\r\n" ++ _) .get "/chat" _ :=
    .intro ⟨"GET /chat HTTP/1.1\r", rfl, by decide⟩ rfl (by decide +kernel) rfl lines
  obtain ⟨h, hs, _, truncated, _⟩ := tryFromStream_head <| head.tryFromStream []
  have hs : h = _ := (List.append_cancel_right hs).symm
  refine truncated _ ⟨[10], ?_⟩ (hs ▸ ?_)
  · rw [hs]
    decide +kernel
  · decide +kernel

section

variable [Allocator]

-- What is announced is the size of the buffer.
theorem content_eq {request : Request} {n : Nat} (h : announced request.headers = some n) :
    request.content =
      if n > isizeMax then .capacityOverflow
      else if ¬Fits n then .aborted
      else if request.reader.length < n then .err .unexpectedEof
      else (Utf8.decode? (request.reader.take n)).elim (.err .invalidUtf8) fun res =>
        .ok (res, { request with reader := request.reader.drop n }) := by
  obtain ⟨value, hv, hn⟩ := Option.bind_eq_some_iff.mp h
  simp only [content, hv, hn]
  cases Utf8.decode? (request.reader.take n) <;> rfl

theorem content_of_fits {request : Request} {n : Nat} (h : announced request.headers = some n)
    (fits : Fits n) : request.content =
      if request.reader.length < n then .err .unexpectedEof
      else (Utf8.decode? (request.reader.take n)).elim (.err .invalidUtf8) fun res =>
        .ok (res, { request with reader := request.reader.drop n }) := by
  rw [content_eq h, if_neg fits.left.not_gt, if_neg (not_not.mpr fits)]

theorem content_of_not_fits (request : Request) {n : Nat} (h : announced request.headers = some n)
    (fits : ¬Fits n) : request.content = .capacityOverflow ∨ request.content = .aborted := by
  rw [content_eq h, if_pos fits]
  split_ifs
  · exact .inl rfl
  · exact .inr rfl

theorem content_of_not_announced {request : Request} (h : announced request.headers = none) :
    ∃ e, request.content = .err e := by
  rw [announced] at h
  cases hv : request.headers (.ofString "content-length")
  case none       => exact ⟨.missingContentLength, by simp only [content, hv]⟩
  case some value =>
    rw [hv, Option.bind_some] at h
    exact ⟨.notANumber value, by simp only [content, hv, h]⟩

theorem content_ends {request : Request} (h : ∀ n ∈ announced request.headers, Fits n) :
    (∃ res, request.content = .ok res) ∨ ∃ e, request.content = .err e := by
  cases hn : announced request.headers
  case none   => exact .inr <| content_of_not_announced hn
  case some n =>
    rw [content_of_fits hn <| h n hn]
    split_ifs
    · exact .inr ⟨_, rfl⟩
    · cases Utf8.decode? (request.reader.take n)
      case none => exact .inr ⟨_, rfl⟩
      case some => exact .inl ⟨_, rfl⟩

theorem Safe.not_oversized {stream : List UInt8} (safe : Safe stream) : ¬Oversized stream := by
  rintro ⟨head, rest, method, url, headers, n, rfl, hh, hn, fits⟩
  obtain ⟨res, he⟩ | ⟨e, he⟩ := safe.ends <| hh.tryFromStream rest
  all_goals
    obtain h | h := content_of_not_fits ⟨rest, _, _, _⟩ hn fits
    all_goals cases h.symm.trans he

-- A stream is safe if and only if there is a buffer for what its head announces.
theorem safe_iff_not_oversized (stream : List UInt8) : Safe stream ↔ ¬Oversized stream := by
  refine ⟨Safe.not_oversized, fun h => ?_⟩
  have fits {request : Request} {n : Nat} (hr : tryFromStream stream = .ok request)
      (hn : announced request.headers = some n) : Fits n := by
    have ⟨head, hs, hh⟩ := tryFromStream_eq_ok_iff.mp hr
    by_contra fits
    exact h ⟨_, _, _, _, _, n, hs, hh, hn, fits⟩
  refine ⟨fun hr => content_ends fun _ => fits hr, fun hr hn => (fits hr hn).left, fun hr hn lt => ?_⟩
  exact ⟨.unexpectedEof, by rw [content_of_fits hn <| fits hr hn, if_pos lt]⟩

end

-- A process has fewer addresses than this, and all of them are free.
@[reducible]
def addressSpace : Allocator where
  grants n := n < 2 ^ 47

-- More than any buffer holds, whatever memory there is, and as much as one could hold.
omit [Unicode] in
theorem not_safe_example :
    let _ := asciiUnicode
    (∀ [Allocator],
      ¬Safe (Utf8.encode "GET / HTTP/1.1\r\nContent-Length: 9223372036854775808\r\n\r\n")) ∧
    let _ := addressSpace
    ¬Safe (Utf8.encode "GET / HTTP/1.1\r\nContent-Length: 9223372036854775807\r\n\r\n") := by
  intro _
  have head {bytes : List UInt8} {headers : Headers} (lines : HeaderLines (fun _ => none) bytes headers) :
      Head (Utf8.encode "GET / HTTP/1.1\r\n" ++ bytes) .get "/" headers :=
    .intro ⟨"GET / HTTP/1.1\r", rfl, by decide⟩ rfl (by decide +kernel) rfl lines
  constructor
  case left =>
    intro _ safe
    have lines : HeaderLines (fun _ => none)
        (Utf8.encode "Content-Length: 9223372036854775808\r\n" ++ Utf8.encode "\r\n") _ :=
      .cons ⟨"Content-Length: 9223372036854775808\r", rfl, by decide⟩ (by decide) rfl .nil
    refine safe.not_oversized ⟨_, [], _, _, _, 9223372036854775808, ?_, head lines, by decide +kernel,
      fun fits => absurd fits.left (by decide)⟩
    decide +kernel
  case right =>
    intro _ safe
    have lines : HeaderLines (fun _ => none)
        (Utf8.encode "Content-Length: 9223372036854775807\r\n" ++ Utf8.encode "\r\n") _ :=
      .cons ⟨"Content-Length: 9223372036854775807\r", rfl, by decide⟩ (by decide) rfl .nil
    refine safe.not_oversized ⟨_, [], _, _, _, 9223372036854775807, ?_, head lines, by decide +kernel,
      by decide +kernel⟩
    decide +kernel

end Request
end Pheidippides.HttpServer
