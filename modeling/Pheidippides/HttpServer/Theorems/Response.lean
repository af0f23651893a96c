import Pheidippides.HttpServer.Theorems.Written

namespace Pheidippides.HttpServer

section LastSet

variable {settings : List (String × String)} {header : String × String} {name name' value : String}

theorem lastSet_cons : lastSet (header :: settings) name =
    (lastSet settings name).or
      (if Str.toAsciiLowercase header.1 = Str.toAsciiLowercase name then some header.2 else none) := by
  rw [lastSet, lastSet, List.filter_cons]
  split
  case isTrue h =>
    rw [if_pos (by simpa using h), List.getLast?_cons]
    cases (settings.filter _).getLast? <;> rfl
  case isFalse h =>
    rw [if_neg (by simpa using h), Option.or_none]

theorem lastSet_congr (h : Str.toAsciiLowercase name = Str.toAsciiLowercase name') :
    lastSet settings name = lastSet settings name' := by
  rw [lastSet, lastSet, h]

theorem lastSet_append : lastSet (settings ++ [header]) name =
    if Str.toAsciiLowercase header.1 = Str.toAsciiLowercase name then some header.2
    else lastSet settings name := by
  rw [lastSet, lastSet, List.filter_append]
  split <;> simp_all

theorem lastSet_append_self : lastSet (settings ++ [header]) header.1 = some header.2 :=
  lastSet_append.trans <| if_pos rfl

theorem mem_of_lastSet (h : lastSet settings name = some value) : ∃ header ∈ settings,
    Str.toAsciiLowercase header.1 = Str.toAsciiLowercase name ∧ header.2 = value := by
  obtain ⟨header, hm, he⟩ := Option.map_eq_some_iff.mp h
  have ⟨mem, named⟩ := List.mem_filter.mp <| List.mem_of_getLast? hm
  exact ⟨header, mem, of_decide_eq_true named, he⟩

-- Blanks are stripped from the last value as from the others.
theorem lastSet_stripped : lastSet (settings.map HttpMessage.stripped) name =
    (lastSet settings name).map HttpMessage.strip := by
  induction settings
  case nil => rfl
  case cons header settings ih =>
    rw [List.map_cons, lastSet_cons, lastSet_cons, ih, Option.map_or]
    refine congrArg _ ?_
    rw [HttpMessage.stripped]
    split <;> rfl

end LastSet

-- Where names are unique there is one header of a name.
theorem filter_of_nodup {α β : Type} [DecidableEq β] {f : α → β} {l : List α} {x : α}
    (h : (l.map f).Nodup) (hx : x ∈ l) : l.filter (f · = f x) = [x] := by
  induction l
  case nil => cases hx
  case cons y l ih =>
    have ⟨new, hl⟩ := List.nodup_cons.mp h
    obtain rfl | hx := List.mem_cons.mp hx
    case inl =>
      have others : l.filter (f · = f x) = [] :=
        List.filter_eq_nil_iff.mpr fun z hz he => new <| of_decide_eq_true he ▸ List.mem_map_of_mem hz
      rw [List.filter_cons_of_pos (by simp), others]
    case inr =>
      have other : f y ≠ f x := fun he => new <| he ▸ List.mem_map_of_mem hx
      rw [List.filter_cons_of_neg (by simpa using other), ih hl hx]

namespace Iteration

variable {iteration : Iteration} {headers : HeaderMap} {key : CaseInsensitiveString} {value : String}

theorem mem_order : (key, value) ∈ iteration.order headers ↔ headers.lookup key = some value := by
  rw [(iteration.perm headers).mem_iff, ← Option.mem_def, AList.mem_lookup_iff, List.mem_map]
  constructor
  case mp =>
    rintro ⟨⟨_, _⟩, h, he⟩
    cases he
    exact h
  case mpr => exact fun h => ⟨_, h, rfl⟩

-- Whatever the order, every key comes out once.
theorem nodup_order : ((iteration.order headers).map (·.1)).Nodup := by
  rw [((iteration.perm headers).map _).nodup_iff, List.map_map]
  exact headers.nodupKeys

end Iteration

namespace HttpResponseBuilder

variable [Unicode] {base : HttpResponseBuilder} {settings : List (String × String)} {name value : String}

-- The builder after some headers have been set.
def settle (base : HttpResponseBuilder) (settings : List (String × String)) : HttpResponseBuilder :=
  (settings.map namedHeader).foldl header base

theorem settle_cons {header : String × String} :
    base.settle (header :: settings) = (base.header (namedHeader header)).settle settings :=
  rfl

theorem settle_append {header : String × String} :
    base.settle (settings ++ [header]) = (base.settle settings).header (namedHeader header) := by
  simp [settle]

theorem settle_frame (base : HttpResponseBuilder) (settings : List (String × String)) :
    (base.settle settings).version = base.version ∧
    (base.settle settings).status = base.status ∧ (base.settle settings).body = base.body := by
  induction settings generalizing base
  case nil => exact ⟨rfl, rfl, rfl⟩
  case cons header settings ih => exact ih (base.header (namedHeader header))

-- Every key is one of those which have been set.
theorem mem_settle {key : CaseInsensitiveString} (hb : base.headers = ∅)
    (h : key ∈ (base.settle settings).headers) : ∃ header ∈ settings, key = .ofString header.1 := by
  suffices aux : ∀ (settings : List (String × String)) (base : HttpResponseBuilder),
      key ∈ (base.settle settings).headers →
        key ∈ base.headers ∨ ∃ header ∈ settings, key = .ofString header.1 from
    (aux settings base h).resolve_left <| hb ▸ AList.notMem_empty key
  intro settings
  induction settings
  case nil => exact fun _ h => .inl h
  case cons header settings ih =>
    intro base h
    obtain h | ⟨other, ho, he⟩ := ih _ h
    · obtain rfl | h := (AList.mem_insert _).mp h
      · exact .inr ⟨header, List.mem_cons_self, rfl⟩
      · exact .inl h
    · exact .inr ⟨other, List.mem_cons_of_mem _ ho, he⟩

omit [Unicode] in
theorem isStripped_toString {n : Nat} : HttpMessage.IsStripped (toString n) := by
  have digit : ∀ c ∈ (toString n).toList, HttpMessage.isBlank c = false := by
    intro c hc
    have digit := Str.isDigit_of_mem_toString hc
    rw [HttpMessage.isBlank, Bool.or_eq_false_iff, decide_eq_false_iff_not, decide_eq_false_iff_not]
    constructor
    all_goals
      rintro rfl
      cases digit
  exact ⟨fun c hc => digit c <| List.mem_of_mem_head? hc, fun c hc => digit c <| List.mem_of_getLast? hc⟩

theorem parse_build {builder : HttpResponseBuilder} {iteration : Iteration} (rest : List UInt8)
    (h : ∀ key value, builder.sentHeaders.lookup key = some value →
      HttpMessage.IsHeader (key.lowercase, value)) :
    HttpMessage.parse (builder.build iteration ++ rest) = some {
      version := builder.version.text
      status  := builder.status.text
      headers := (iteration.order builder.sentHeaders).map fun header =>
        (header.1.lowercase, HttpMessage.strip header.2)
      body    := (builder.body.map Utf8.encode).getD [] ++ rest } := by
  have line : ' ' ∉ builder.version.text.toList ∧ '\r' ∉ builder.version.text.toList ∧
      '\r' ∉ builder.status.text.toList := by
    cases builder.version
    cases builder.status <;> decide
  have plain : ∀ header ∈ (iteration.order builder.sentHeaders).map fun header =>
      (header.1.lowercase, header.2), HttpMessage.IsHeader header := by
    intro header hm
    obtain ⟨⟨key, value⟩, hm', rfl⟩ := List.mem_map.mp hm
    exact h key value <| Iteration.mem_order.mp hm'
  have parse := HttpMessage.parse_append ((builder.body.map Utf8.encode).getD [] ++ rest)
    line.left line.right plain
  rw [List.map_map] at parse
  refine Eq.trans (congrArg _ ?_) parse
  cases hb : builder.body <;> simp [build, hb, headerLine, List.flatMap_def, Function.comp_def]

variable [LawfulUnicode]

theorem lookup_settle (h : ∀ header ∈ settings, IsToken header.1) (hn : IsToken name) :
    (base.settle settings).headers.lookup (.ofString name) =
      (lastSet settings name).or (base.headers.lookup (.ofString name)) := by
  induction settings generalizing base
  case nil => rfl
  case cons header settings ih =>
    have ⟨hd, tl⟩ := List.forall_mem_cons.mp h
    rw [settle_cons, ih tl, lastSet_cons, Option.or_assoc]
    refine congrArg _ ?_
    have key := ofString_eq_iff hn.ascii hd.ascii
    by_cases he : Str.toAsciiLowercase header.1 = Str.toAsciiLowercase name
    case pos =>
      rw [if_pos he, key.mpr he.symm]
      exact AList.lookup_insert _
    case neg =>
      rw [if_neg he, Option.none_or]
      exact AList.lookup_insert_ne fun hk => he (key.mp hk).symm

theorem lookup_settle_iff {key : CaseInsensitiveString} (h : ∀ header ∈ settings, IsToken header.1)
    (hb : base.headers = ∅) : (base.settle settings).headers.lookup key = some value ↔
      ∃ header ∈ settings, key = .ofString header.1 ∧ lastSet settings header.1 = some value := by
  have lookup : ∀ header ∈ settings, (base.settle settings).headers.lookup (.ofString header.1) =
      lastSet settings header.1 := by
    intro header hm
    rw [lookup_settle h (h header hm), hb, AList.lookup_empty, Option.or_none]
  constructor
  case mp =>
    intro hl
    obtain ⟨header, hm, rfl⟩ := mem_settle hb <| AList.lookup_isSome.mp <| Option.isSome_of_eq_some hl
    exact ⟨header, hm, rfl, lookup header hm ▸ hl⟩
  case mpr =>
    rintro ⟨header, hm, rfl, hv⟩
    exact (lookup header hm).trans hv

end HttpResponseBuilder

section Sent

variable [Unicode] [LawfulUnicode] {settings : List (String × String)} {sent : List Header}

-- The headers which are sent, if for each one that has been set it is the last value.
structure SentLast (settings : List (String × String)) (sent : List Header) : Prop where
  token : ∀ header ∈ settings, IsToken header.1
  keys  : (sent.map (·.1)).Nodup
  mem   : ∀ {key value}, (key, value) ∈ sent ↔
    ∃ header ∈ settings, key = .ofString header.1 ∧ lastSet settings header.1 = some value

namespace SentLast

omit [LawfulUnicode] in
theorem stripped (h : SentLast settings sent) : SentLast (settings.map HttpMessage.stripped)
    (sent.map fun header => (header.1, HttpMessage.strip header.2)) where
  token := List.forall_mem_map.mpr h.token
  keys  := by
    rw [List.map_map]
    exact h.keys
  mem {key value} := by
    simp only [List.mem_map, exists_exists_and_eq_and, lastSet_stripped, Option.map_eq_some_iff]
    constructor
    case mp =>
      rintro ⟨⟨_, sentValue⟩, hm, he⟩
      obtain ⟨header, set, rfl, hl⟩ := h.mem.mp hm
      cases he
      exact ⟨header, set, rfl, sentValue, hl, rfl⟩
    case mpr =>
      rintro ⟨header, set, rfl, sentValue, hl, rfl⟩
      exact ⟨(.ofString header.1, sentValue), h.mem.mpr ⟨header, set, rfl, hl⟩, rfl⟩

theorem lowercase (h : SentLast settings sent) {header : String × String} (hm : header ∈ settings) :
    (CaseInsensitiveString.ofString header.1).lowercase = Str.toAsciiLowercase header.1 :=
  LawfulUnicode.ascii (h.token header hm).ascii

theorem isHeader (h : SentLast settings sent) (line : ∀ header ∈ settings, '\r' ∉ header.2.toList)
    {header : Header} (hm : header ∈ sent) : HttpMessage.IsHeader (header.1.lowercase, header.2) := by
  obtain ⟨key, value⟩ := header
  obtain ⟨header, set, rfl, hl⟩ := h.mem.mp hm
  obtain ⟨other, ho, _, rfl⟩ := mem_of_lastSet hl
  have absent {c : Char} (hl : c.isLower = false) (hc : isTokenChar c = false) :
      c ∉ (CaseInsensitiveString.ofString header.1).lowercase.toList := by
    rw [h.lowercase set]
    exact fun hm => (h.token header set).not_mem hc <| Str.mem_of_mem_toAsciiLowercase hl hm
  exact ⟨absent rfl rfl, absent rfl rfl, line other ho⟩

-- The names which are sent are lowercase already.
theorem names (h : SentLast settings sent) :
    sent.map (fun header => Str.toAsciiLowercase header.1.lowercase) = sent.map (·.1.lowercase) := by
  refine List.map_congr_left fun ⟨key, value⟩ hm => ?_
  obtain ⟨header, set, rfl, _⟩ := h.mem.mp hm
  rw [h.lowercase set, Str.toAsciiLowercase_idem]

theorem unique (h : SentLast settings sent) :
    (sent.map fun header => Str.toAsciiLowercase header.1.lowercase).Nodup := by
  have inj : Function.Injective CaseInsensitiveString.lowercase := by
    rintro ⟨_⟩ ⟨_⟩ rfl
    rfl
  have keys := h.keys.map inj
  rw [h.names]
  rwa [List.map_map] at keys

theorem last (h : SentLast settings sent) (name value : String) :
    (∃ header ∈ sent, Str.toAsciiLowercase header.1.lowercase = Str.toAsciiLowercase name ∧
      header.2 = value) ↔ lastSet settings name = some value := by
  constructor
  case mp =>
    rintro ⟨⟨key, value⟩, hm, hn, rfl⟩
    obtain ⟨header, set, rfl, hl⟩ := h.mem.mp hm
    rw [h.lowercase set, Str.toAsciiLowercase_idem] at hn
    exact (lastSet_congr hn).symm.trans hl
  case mpr =>
    intro hl
    have ⟨header, set, hn, _⟩ := mem_of_lastSet hl
    have mem := h.mem.mpr ⟨header, set, rfl, (lastSet_congr hn).trans hl⟩
    refine ⟨_, mem, ?_, rfl⟩
    rw [h.lowercase set, Str.toAsciiLowercase_idem, hn]

end SentLast
end Sent

namespace HttpResponseBuilder

variable [Unicode] [LawfulUnicode] {base : HttpResponseBuilder} {settings : List (String × String)}

theorem sentLast_settle {iteration : Iteration} (hh : base.headers = ∅)
    (token : ∀ header ∈ settings, IsToken header.1) :
    SentLast settings (iteration.order (base.settle settings).headers) where
  token := token
  keys  := Iteration.nodup_order
  mem   := Iteration.mem_order.trans <| lookup_settle_iff token hh

omit [LawfulUnicode] in
-- With a body the length is set last.
theorem sentHeaders_settle {body : String} (hb : base.body = some body) :
    (base.settle settings).sentHeaders =
      (base.settle (settings ++ [("Content-Length", toString (Utf8.encode body).length)])).headers := by
  have ⟨_, _, body'⟩ := settle_frame base settings
  rw [settle_append, sentHeaders, body', hb]
  rfl

theorem framed_settle (iteration : Iteration) {body : String} (hv : base.version = .http11)
    (hh : base.headers = ∅) (hb : base.body = some body) (token : ∀ header ∈ settings, IsToken header.1)
    (line : ∀ header ∈ settings, '\r' ∉ header.2.toList ∧ '\n' ∉ header.2.toList) :
    ∃ response, HttpMessage.parse ((base.settle settings).build iteration) = some response ∧
      Framed response base.status.text (settings.map HttpMessage.stripped) body := by
  have sent : SentLast (settings ++ [("Content-Length", toString (Utf8.encode body).length)])
      (iteration.order (base.settle settings).sentHeaders) := by
    rw [sentHeaders_settle hb]
    refine sentLast_settle hh <| List.forall_mem_append.mpr ⟨token, List.forall_mem_singleton.mpr ?_⟩
    exact (by decide : IsToken "Content-Length")
  have line : ∀ header ∈ settings ++ [("Content-Length", toString (Utf8.encode body).length)],
      '\r' ∉ header.2.toList := by
    refine List.forall_mem_append.mpr ⟨fun header hm => (line header hm).left, ?_⟩
    exact List.forall_mem_singleton.mpr fun hm => by cases Str.isDigit_of_mem_toString hm
  have ⟨version, status, body'⟩ := settle_frame base settings
  have parse : HttpMessage.parse ((base.settle settings).build iteration ++ []) = _ :=
    parse_build [] fun key value hl => sent.isHeader line <| Iteration.mem_order.mpr hl
  rw [List.append_nil, List.append_nil, body', hb, version, status, hv] at parse
  have read := sent.stripped
  rw [List.map_append, List.map_singleton, HttpMessage.stripped_of_isStripped isStripped_toString] at read
  have lower : Str.toAsciiLowercase "Content-Length" = "content-length" := by decide
  refine ⟨_, parse, rfl, rfl, ?unique, ?last, ?length, rfl⟩
  case unique => simpa [Function.comp_def] using sent.unique
  case last =>
    intro name value hn
    have last := read.last name value
    rw [lastSet_append, if_neg fun he => hn <| he.symm.trans lower] at last
    simpa using last
  case length =>
    have ⟨header, hm, hn, hl⟩ := read.last .. |>.mpr lastSet_append_self
    have unique := filter_of_nodup read.unique hm
    rw [hn, lower] at unique
    have length := congrArg (List.map (·.2)) unique
    simpa [List.filter_map, Function.comp_def, hl] using length

theorem unframed_settle (iteration : Iteration) (base : HttpResponseBuilder) (hv : base.version = .http11)
    (hh : base.headers = ∅) (hb : base.body = none) (token : ∀ header ∈ settings, IsToken header.1)
    (line : ∀ header ∈ settings, '\r' ∉ header.2.toList) :
    ∃ response, HttpMessage.parse ((base.settle settings).build iteration) = some response ∧
      Unframed response base.status.text (settings.map HttpMessage.stripped) [] := by
  have ⟨version, status, body⟩ := settle_frame base settings
  have headers : (base.settle settings).sentHeaders = (base.settle settings).headers := by
    rw [sentHeaders, body, hb]
  have sent : SentLast settings (iteration.order (base.settle settings).sentHeaders) :=
    headers ▸ sentLast_settle hh token
  have parse : HttpMessage.parse ((base.settle settings).build iteration ++ []) = _ :=
    parse_build [] fun key value hl => sent.isHeader line <| Iteration.mem_order.mpr hl
  rw [List.append_nil, List.append_nil, body, hb, version, status, hv] at parse
  refine ⟨_, parse, rfl, rfl, ?unique, ?last, rfl⟩
  case unique => simpa [Function.comp_def] using sent.unique
  case last   => simpa using sent.stripped.last

end HttpResponseBuilder

variable [Unicode] {response : Response} {status body : String} {headers : List (String × String)}

-- All responses with a body are built by setting headers and the body of a new builder.
theorem Response.Sends.eq_build (h : response.Sends status headers body) :
    ∃ base : HttpResponseBuilder, base.version = .http11 ∧ base.status.text = status ∧
      base.headers = ∅ ∧ base.body = some body ∧
      ∀ iteration, respond iteration response = (base.settle headers).build iteration := by
  cases h <;> exact ⟨_, rfl, rfl, rfl, rfl, fun _ => rfl⟩

-- A client gets the last value that has been set for a header without the blanks around it.
theorem respond_framed [LawfulUnicode] (h : response.Sends status headers body)
    (token : ∀ header ∈ headers, IsToken header.1)
    (line : ∀ header ∈ headers, '\r' ∉ header.2.toList ∧ '\n' ∉ header.2.toList)
    (iteration : Iteration) : ∃ parsed, HttpMessage.parse (respond iteration response) = some parsed ∧
      Framed parsed status (headers.map HttpMessage.stripped) body ∧
      ((∀ header ∈ headers, HttpMessage.IsStripped header.2) → Framed parsed status headers body) := by
  obtain ⟨base, version, rfl, none, some, build⟩ := h.eq_build
  have ⟨parsed, parse, framed⟩ := base.framed_settle iteration version none some token line
  refine ⟨parsed, build iteration ▸ parse, framed, fun plain => ?_⟩
  rwa [HttpMessage.map_stripped plain] at framed

theorem respond_unframed [LawfulUnicode] {body : List UInt8} (h : response.Closes status headers body)
    (token : ∀ header ∈ headers, IsToken header.1)
    (line : ∀ header ∈ headers, '\r' ∉ header.2.toList ∧ '\n' ∉ header.2.toList)
    (plain : ∀ header ∈ headers, HttpMessage.IsStripped header.2) (iteration : Iteration) :
    ∃ parsed, HttpMessage.parse (respond iteration response) = some parsed ∧
      Unframed parsed status headers body := by
  have built (base : HttpResponseBuilder) (hv : base.version = .http11) (hh : base.headers = ∅)
      (hb : base.body = none) : ∃ parsed,
        HttpMessage.parse ((base.settle headers).build iteration) = some parsed ∧
        Unframed parsed base.status.text headers [] := by
    have unframed :=
      base.unframed_settle iteration hv hh hb token fun header hm => (line header hm).left
    rwa [HttpMessage.map_stripped plain] at unframed
  cases h
  case redirect => exact built { HttpResponseBuilder.new with status := .seeOther } rfl rfl rfl
  case empty    => exact built .new rfl rfl rfl

omit [Unicode] in
theorem respond_framed_example :
    let _ := asciiUnicode
    let headers :=
      [("X-Note", "a: \u00e9 "), ("content-TYPE", "a"), ("CONTENT-length", "7"), ("x-note", "\t")]
    let body := "\u00e9\r\n\r\n"
    ∃ parsed,
      HttpMessage.parse (respond .entries <| .text body <| headers.map namedHeader) = some parsed ∧
      Framed parsed "200 OK" [("Content-Type", "text/plain; charset=utf-8"), ("X-Note", "a: \u00e9"),
        ("content-TYPE", "a"), ("CONTENT-length", "7"), ("x-note", "")] body := by
  intro _ headers body
  have := asciiUnicode_lawful
  have sends : Response.Sends (.text body <| headers.map namedHeader) _ _ body := .text
  have ⟨parsed, parse, framed, _⟩ :=
    respond_framed sends (by decide +kernel) (by decide +kernel) .entries
  exact ⟨parsed, parse, framed⟩

-- A blank at the end of a value does not get through.
omit [Unicode] in
theorem not_framed_example :
    let _ := asciiUnicode
    let headers := [("X-Note", "a: \u00e9 ")]
    ¬∃ parsed,
      HttpMessage.parse (respond .entries <| .text "" <| headers.map namedHeader) = some parsed ∧
      Framed parsed "200 OK" (("Content-Type", "text/plain; charset=utf-8") :: headers) "" := by
  intro _ headers
  have := asciiUnicode_lawful
  rintro ⟨parsed, parse, kept⟩
  have sends : Response.Sends (.text "" <| headers.map namedHeader) _ _ "" := .text
  have ⟨parsed', parse', framed, _⟩ :=
    respond_framed sends (by decide +kernel) (by decide +kernel) .entries
  cases parse.symm.trans parse'
  have last := (kept.last "X-Note" "a: \u00e9 " (by decide)).symm.trans <|
    framed.last "X-Note" "a: \u00e9 " (by decide)
  exact absurd last (by decide +kernel)

end Pheidippides.HttpServer
