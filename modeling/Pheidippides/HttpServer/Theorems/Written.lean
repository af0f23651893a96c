import Pheidippides.HttpServer.Theorems.Request

namespace Pheidippides.HttpServer

theorem isTokenChar_toNat {c : Char} (h : isTokenChar c) : c.toNat < 128 := by
  rw [isTokenChar, Bool.or_eq_true] at h
  obtain h | h := h
  case inl =>
    unfold Char.isAlphanum Char.isAlpha Char.isUpper Char.isLower Char.isDigit at h
    simp only [Bool.or_eq_true, Bool.and_eq_true, decide_eq_true_eq, ge_iff_le,
      UInt32.le_iff_toNat_le] at h
    obtain (⟨_, h⟩ | ⟨_, h⟩) | ⟨_, h⟩ := h <;> exact h.trans_lt (by decide)
  case inr =>
    have special : ∀ c ∈ "!#$%&'*+-.^_`|~".toList, c.toNat < 128 := by decide
    exact special c <| List.contains_iff_mem.mp h

namespace IsToken

variable {s : String} {c : Char}

theorem ascii (h : IsToken s) : ∀ c ∈ s.toList, c.toNat < 128 :=
  fun c hc => isTokenChar_toNat <| h.right c hc

theorem not_mem (h : IsToken s) (hc : isTokenChar c = false) : c ∉ s.toList :=
  fun hm => by simp [h.right c hm] at hc

end IsToken

theorem methodName_ascii (method : Method) : ∀ c ∈ (methodName method).toList, c.toNat < 128 := by
  cases method <;> decide

-- The name of a method is a word, whatever its letters look like.
theorem word_of_named {name : String} {method : Method}
    (h : Str.toAsciiLowercase name = Str.toAsciiLowercase (methodName method)) :
    name ≠ "" ∧ ∀ c ∈ name.toList, Str.isWhitespace c = false := by
  constructor
  case left =>
    rintro rfl
    cases method <;> cases h
  case right =>
    intro c hc
    by_contra hw
    rw [Bool.not_eq_false] at hw
    have mem : c ∈ (Str.toAsciiLowercase (methodName method)).toList := by
      rw [← h, Str.toAsciiLowercase, String.toList_ofList]
      exact Str.toLower_of_isWhitespace hw ▸ List.mem_map_of_mem hc
    have letters :
        ∀ c ∈ (Str.toAsciiLowercase (methodName method)).toList, Str.isWhitespace c = false := by
      cases method <;> decide
    simp [letters c mem] at hw

variable [Unicode] [LawfulUnicode]

theorem fromStr_of_named {name : String} {method : Method}
    (h : Str.toAsciiLowercase name = Str.toAsciiLowercase (methodName method)) :
    Method.fromStr name = some method := by
  have ascii := Str.ascii_of_toAsciiLowercase_eq h <| methodName_ascii method
  rw [Method.fromStr, LawfulUnicode.ascii ascii, h]
  cases method <;> decide +kernel

-- The headers after these ones have been read, the last one first.
def afterHeaders (headers : List (String × String)) (init : Headers) : Headers :=
  headers.foldl (fun map header => Function.update map (.ofString header.1) (some header.2)) init

omit [LawfulUnicode] in
theorem headerLines_headerText {headers : List (String × String)}
    (h : ∀ header ∈ headers, IsHeader header) (init : Headers) :
    Request.HeaderLines init (Utf8.encode (headerText headers)) (afterHeaders headers init) := by
  induction headers generalizing init
  case nil => exact .nil
  case cons header headers ih =>
    have ⟨token, ⟨cr, lf⟩, value⟩ := h header List.mem_cons_self
    have split : Str.splitOnceStr ": " (header.1 ++ ": " ++ (header.2 ++ "\r\n")) =
        some (header.1, header.2 ++ "\r\n") :=
      Str.splitOnceStr_append (c := ':') rfl <| token.not_mem rfl
    have trim : Str.trimEnd (header.2 ++ "\r\n") = header.2 := Str.trimEnd_append value (by decide)
    have text : headerText (header :: headers) =
        header.1 ++ ": " ++ (header.2 ++ "\r\n") ++ headerText headers := by
      simp [headerText, String.append_assoc]
    rw [text, Utf8.encode_append]
    refine .cons ⟨header.1 ++ ": " ++ header.2 ++ "\r", ?_, ?_⟩ (fun he => ?_) split ?_
    · rw [show "\r\n" = "\r" ++ "\n" from rfl]
      simp only [String.append_assoc]
    · simpa [lf] using token.not_mem rfl
    · rw [he] at split
      cases split
    · rw [trim]
      exact ih (fun header hm => h header <| List.mem_cons_of_mem _ hm) _

theorem ofString_eq_iff {s t : String} (hs : ∀ c ∈ s.toList, c.toNat < 128)
    (ht : ∀ c ∈ t.toList, c.toNat < 128) : CaseInsensitiveString.ofString s = .ofString t ↔
      Str.toAsciiLowercase s = Str.toAsciiLowercase t := by
  rw [CaseInsensitiveString.ofString, CaseInsensitiveString.ofString, CaseInsensitiveString.mk.injEq,
    LawfulUnicode.ascii hs, LawfulUnicode.ascii ht]

omit [LawfulUnicode] in
theorem afterHeaders_of_ne {headers : List (String × String)} {key : CaseInsensitiveString}
    {init : Headers} (h : ∀ header ∈ headers, key ≠ .ofString header.1) :
    afterHeaders headers init key = init key := by
  induction headers generalizing init
  case nil => rfl
  case cons header headers ih =>
    have ⟨hd, tl⟩ := List.forall_mem_cons.mp h
    exact (ih tl).trans <| Function.update_of_ne hd ..

-- As long as the names differ, the order of the headers does not matter.
theorem afterHeaders_of_mem {headers : List (String × String)} {header : String × String}
    {init : Headers} (hm : header ∈ headers) (h : ∀ header ∈ headers, IsHeader header)
    (distinct : (headers.map fun header => Str.toAsciiLowercase header.1).Nodup) :
    afterHeaders headers init (.ofString header.1) = some header.2 := by
  induction headers generalizing init
  case nil => cases hm
  case cons first headers ih =>
    have ⟨hd, tl⟩ := List.forall_mem_cons.mp h
    have ⟨new, distinct⟩ := List.nodup_cons.mp distinct
    obtain rfl | hm := List.mem_cons.mp hm
    · have last : ∀ other ∈ headers, CaseInsensitiveString.ofString header.1 ≠ .ofString other.1 := by
        intro other ho he
        rw [ofString_eq_iff hd.name.ascii (tl other ho).name.ascii] at he
        exact new <| List.mem_map.mpr ⟨other, ho, he.symm⟩
      exact (afterHeaders_of_ne last).trans <| Function.update_self ..
    · exact ih hm tl distinct

namespace Written

variable (w : Written)

theorem head : Request.Head (Utf8.encode (w.firstLine ++ headerText w.headers)) w.method w.target
    (afterHeaders w.headers fun _ => none) := by
  rw [Utf8.encode_append]
  have ⟨ne, word⟩ := word_of_named w.named
  have words : Str.splitWhitespace w.firstLine =
      w.name :: w.target :: Str.splitWhitespace (w.version ++ "\r\n") := by
    have text : w.firstLine =
        w.name ++ .singleton ' ' ++ (w.target ++ .singleton ' ' ++ (w.version ++ "\r\n")) := by
      simp only [firstLine, String.append_assoc]
      rfl
    rw [text, Str.splitWhitespace_append rfl ne word, Str.splitWhitespace_append rfl w.nonempty w.word]
  have line {s : String} (h : ∀ c ∈ s.toList, Str.isWhitespace c = false) : '\n' ∉ s.toList :=
    fun hm => by cases h _ hm
  refine .intro ⟨w.name ++ " " ++ w.target ++ " " ++ w.version ++ "\r", ?_, ?_⟩ (by rw [words]; rfl)
    (fromStr_of_named w.named) (by rw [words]; rfl) (headerLines_headerText w.header _)
  · rw [firstLine, show "\r\n" = "\r" ++ "\n" from rfl]
    simp only [String.append_assoc]
  · simpa [line word, line w.word] using w.line

theorem lookup {header : String × String} (hm : header ∈ w.headers) {name : String}
    (h : Str.toAsciiLowercase name = Str.toAsciiLowercase header.1) :
    afterHeaders w.headers (fun _ => none) (.ofString name) = some header.2 := by
  have ascii := (w.header header hm).name.ascii
  rw [ofString_eq_iff (Str.ascii_of_toAsciiLowercase_eq h ascii) ascii |>.mpr h]
  exact afterHeaders_of_mem hm w.header w.distinct

theorem announced : Request.announced (afterHeaders w.headers fun _ => none) =
    if (Utf8.encode w.body).length < 2 ^ 64 then some (Utf8.encode w.body).length else none := by
  have ⟨header, hm, name, value⟩ := w.length
  have named : Str.toAsciiLowercase "content-length" = Str.toAsciiLowercase header.1 := by
    rw [name]
    decide
  rw [Request.announced, w.lookup hm named, Option.bind_some, value, Str.parseUsize_toString]

omit [LawfulUnicode] in
theorem mem_of_afterHeaders {key : CaseInsensitiveString} {value : String}
    (h : afterHeaders w.headers (fun _ => none) key = some value) :
    ∃ header ∈ w.headers, key = .ofString header.1 := by
  by_contra hn
  rw [afterHeaders_of_ne fun header hm he => hn ⟨header, hm, he⟩] at h
  cases h

variable [Allocator]

theorem content {request : Request} (hh : request.headers = afterHeaders w.headers fun _ => none)
    (hr : request.reader = Utf8.encode w.body ++ w.rest) :
    request.content = .ok (w.body, { request with reader := w.rest }) ↔
      Request.Fits (Utf8.encode w.body).length := by
  have announced := hh ▸ w.announced
  have isize : Request.isizeMax < 2 ^ 64 := by decide
  constructor
  case mp =>
    intro hc
    by_contra fits
    split_ifs at announced
    case pos =>
      obtain he | he := Request.content_of_not_fits _ announced fits
      all_goals cases he.symm.trans hc
    case neg =>
      have ⟨e, he⟩ := Request.content_of_not_announced announced
      cases he.symm.trans hc
  case mpr =>
    intro fits
    rw [if_pos (fits.left.trans_lt isize)] at announced
    have length : ¬request.reader.length < (Utf8.encode w.body).length := by simp [hr]
    rw [Request.content_of_fits announced fits, if_neg length, hr, List.take_left, List.drop_left,
      Utf8.decode?_encode]
    rfl

theorem RoundTrip.fits (h : w.RoundTrip) : Request.Fits (Utf8.encode w.body).length := by
  have ⟨request, hr, _, _, _, _, hc⟩ := h
  cases hr.symm.trans <| w.head.tryFromStream (Utf8.encode w.body ++ w.rest)
  exact (w.content rfl rfl).mp hc

-- A body goes through if and only if there is a buffer for it.
theorem roundTrip_iff (w : Written) :
    w.RoundTrip ↔ (Utf8.encode w.body).length ≤ Request.isizeMax ∧
      ((Utf8.encode w.body).length = 0 ∨ Allocator.grants (Utf8.encode w.body).length = true) := by
  refine ⟨RoundTrip.fits w, fun fits => ?_⟩
  have read := w.head.tryFromStream (Utf8.encode w.body ++ w.rest)
  refine ⟨_, read, rfl, rfl, fun header hm name hn => w.lookup hm hn, fun key value hv => ?_,
    (w.content rfl rfl).mpr fits⟩
  obtain ⟨header, hm, rfl⟩ := w.mem_of_afterHeaders hv
  exact ⟨header, hm, rfl, Option.some.inj <| hv.symm.trans <| w.lookup hm rfl⟩

omit [Unicode] [LawfulUnicode] [Allocator] in
theorem roundTrip_iff_example :
    let w : Written := {
      method   := .post
      name     := "PoSt"
      target   := "/signup"
      version  := "HTTP/1.1"
      headers  := [("X-Note", "a: b\u00e9"), ("content-LENGTH", "5")]
      body     := "\r\n\r\n:"
      rest     := [0xff]
      named    := by decide +kernel
      nonempty := by decide
      word     := by decide +kernel
      line     := by decide
      header   := by
        rintro header (_ | ⟨_, _ | ⟨_, ⟨⟩⟩⟩)
        all_goals exact ⟨by decide +kernel, by decide +kernel, by decide +kernel⟩
      distinct := by decide +kernel
      length   := ⟨_, List.mem_cons_of_mem _ List.mem_cons_self, by decide +kernel, by decide +kernel⟩ }
    @RoundTrip w asciiUnicode Request.addressSpace := by
  intro w
  have := asciiUnicode_lawful
  exact (@roundTrip_iff asciiUnicode this Request.addressSpace w).mpr (by decide +kernel)

-- A request whose body is so long.
def letters (n : Nat) (header : IsHeader ("Content-Length", toString n)) : Written where
  method   := .post
  name     := "POST"
  target   := "/"
  version  := "HTTP/1.1"
  headers  := [("Content-Length", toString n)]
  body     := .ofList (List.replicate n 'a')
  rest     := []
  named    := by decide +kernel
  nonempty := by decide
  word     := by decide +kernel
  line     := by decide
  header   := by simpa using header
  distinct := by simp
  length   := ⟨_, List.mem_cons_self, show Str.toAsciiLowercase "Content-Length" = _ by decide +kernel, by
    rw [Utf8.length_encode_replicate, show 'a'.utf8Size = 1 from rfl, Nat.mul_one]⟩

-- A body of as many bytes as an address space has, whatever memory there is, and one of as many bytes as a
-- process has addresses.
omit [Unicode] [LawfulUnicode] [Allocator] in
theorem not_roundTrip_example :
    let _ := asciiUnicode
    (∀ [Allocator],
      ¬(letters (2 ^ 63) ⟨by decide +kernel, by decide +kernel, by decide +kernel⟩).RoundTrip) ∧
    let _ := Request.addressSpace
    ¬(letters (2 ^ 47) ⟨by decide +kernel, by decide +kernel, by decide +kernel⟩).RoundTrip := by
  intro _
  have := asciiUnicode_lawful
  have length {n : Nat} {header : IsHeader ("Content-Length", toString n)} :
      (Utf8.encode (letters n header).body).length = n := by
    rw [letters, Utf8.length_encode_replicate, show 'a'.utf8Size = 1 from rfl, Nat.mul_one]
  constructor
  case left =>
    intro _ h
    exact absurd (length ▸ h.fits).left (by decide)
  case right =>
    intro _ h
    exact absurd (length ▸ h.fits) (by decide +kernel)

end Written
end Pheidippides.HttpServer
