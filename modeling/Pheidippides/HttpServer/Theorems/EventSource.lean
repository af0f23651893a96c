import Pheidippides.HttpServer.Theorems.Response

open EventStream

namespace Pheidippides.HttpServer

namespace EventSourceEvent

-- The lines which are sent for an event.
def lines (event : EventSourceEvent) : List (List Char) :=
  (event.event.map fun eventType => "event: ".toList ++ eventType.toList).toList ++
    ((Str.linesAux event.data.toList).map ("data: ".toList ++ ·) ++
      ["id: ".toList ++ event.id.toList, []])

-- What a client makes of these lines.
def received (event : EventSourceEvent) : Option Event :=
  if event.data = "" then
    none
  else
    some {
      type        := if event.event.getD "" = "" then "message" else event.event.getD ""
      data        := .ofList <|
        if event.data.toList.getLast? = some '\n' then event.data.toList.dropLast else event.data.toList
      lastEventId := event.id }

variable {event : EventSourceEvent} {c : Decoder}

theorem send_eq (writer : List UInt8) (event : EventSourceEvent) :
    sendEventToEventSourceStream writer event = writer ++ encode event.lines := by
  have data (responseStr : String) (ls : List (List Char)) :
      (ls.map String.ofList).foldl (fun responseStr line => responseStr ++ ("data: " ++ line ++ "\n"))
        responseStr = responseStr ++ .ofList (unlines <| ls.map ("data: ".toList ++ ·)) := by
    induction ls generalizing responseStr
    case nil => simp [unlines]
    case cons l ls ih =>
      rw [List.map_cons, List.foldl_cons, ih, ← String.toList_inj]
      simp [unlines]
  rw [sendEventToEventSourceStream, Str.lines, data]
  refine congrArg (writer ++ Utf8.encode ·) ?_
  rw [← String.toList_inj]
  cases he : event.event <;> simp [lines, he, unlines]

-- The empty line behind an event.
theorem dispatch_eq (hd : c.data = unlines (Str.linesAux event.data.toList))
    (ht : c.type = (event.event.getD "").toList) (hi : c.id = event.id.toList) (h : event.WellFormed) :
    c.dispatch =
      (event.received, { c with data := [], type := [], lastEventId := event.id.toList }) := by
  rw [unlines, Str.flatMap_linesAux h.data] at hd
  by_cases empty : event.data = ""
  case pos => simp [Decoder.dispatch, received, hd, hi, empty, Str.lineEnd]
  case neg =>
    by_cases ends : event.data.toList.getLast? = some '\n'
    case pos => simp [Decoder.dispatch, received, hd, hi, empty, ends, ht, Str.lineEnd]
    case neg => simp [Decoder.dispatch, received, hd, hi, empty, ends, ht, Str.lineEnd]

theorem run_lines (h : event.WellFormed) (hc : c.data = [] ∧ c.type = []) :
    c.run event.lines =
      (event.received.toList, { c with id := event.id.toList, lastEventId := event.id.toList }) := by
  have type (ls : List (List Char)) :
      c.run ((event.event.map fun eventType => "event: ".toList ++ eventType.toList).toList ++ ls) =
        { c with type := (event.event.getD "").toList : Decoder }.run ls := by
    cases he : event.event
    case none => simp [← hc.right]
    case some eventType =>
      exact Decoder.run_cons_none <| Decoder.line_field "event".toList (by decide) (by decide)
  have id (c : Decoder) :
      c.line ("id: ".toList ++ event.id.toList) = (none, { c with id := event.id.toList }) := by
    refine (Decoder.line_field "id".toList (by decide) (by decide)).trans ?_
    simp [Decoder.field, h.id.right.right]
  rw [lines, type, Decoder.run_append, Decoder.run_data, Decoder.run_cons_none (id _),
    Decoder.run_empty_line, dispatch_eq (by simp [hc.left]) rfl rfl h]
  simp [hc.left, hc.right]

theorem isLine_lines (h : event.WellFormed) : ∀ l ∈ event.lines, EventStream.IsLine l := by
  have data : ∀ l ∈ Str.linesAux event.data.toList, '\r' ∉ l ∧ '\n' ∉ l := by
    refine fun l hl => ⟨fun hc => ?_, fun hc => ?_⟩
    · exact h.data (Str.mem_of_mem_linesAux hl hc).left
    · exact (Str.mem_of_mem_linesAux hl hc).right rfl
  intro l hl
  simp only [lines, List.mem_append, Option.mem_toList, Option.map_eq_some_iff, List.mem_map,
    List.mem_cons, List.not_mem_nil, or_false] at hl
  obtain ⟨eventType, he, rfl⟩ | ⟨l, hl, rfl⟩ | rfl | rfl := hl
  · exact .append (by decide) (by decide) (h.type _ he).left (h.type _ he).right.left
  · exact .append (by decide) (by decide) (data l hl).left (data l hl).right
  · exact .append (by decide) (by decide) h.id.left h.id.right.left
  · exact ⟨List.not_mem_nil, List.not_mem_nil, by decide⟩

theorem received_eq_iff : event.received = some event.intended ↔ event.Lossless := by
  have type : (if event.event.getD "" = "" then "message" else event.event.getD "") =
      event.event.getD "message" ↔ event.event ≠ some "" := by
    cases he : event.event
    case none => simp
    case some eventType => by_cases empty : eventType = "" <;> simp [empty]
  have data (ne : event.data ≠ "") : String.ofList (if event.data.toList.getLast? = some '\n' then
      event.data.toList.dropLast else event.data.toList) = event.data ↔
        event.data.toList.getLast? ≠ some '\n' := by
    by_cases ends : event.data.toList.getLast? = some '\n'
    case neg => simp [ends]
    case pos =>
      rw [if_pos ends, ← String.toList_inj, String.toList_ofList]
      refine iff_of_false (fun hd => ?_) (not_not_intro ends)
      have := congrArg List.length hd
      have pos := List.length_pos_iff.mpr <| String.toList_eq_nil_iff.not.mpr ne
      rw [List.length_dropLast] at this
      omega
  by_cases empty : event.data = ""
  case pos =>
    rw [received, if_pos empty]
    exact iff_of_false nofun fun h => h.data empty
  case neg =>
    rw [received, if_neg empty, Option.some.injEq, intended, Event.mk.injEq, type, data empty]
    exact ⟨fun ⟨ht, hd, _⟩ => ⟨empty, hd, ht⟩, fun h => ⟨h.type, h.lineEnd, rfl⟩⟩

end EventSourceEvent

section Loop

-- The lines which the loop writes.
def loopLines : List (Branch EventSourceEvent) → List (List Char)
  | []                             => []
  | .sleep :: branches             => ": keep-alive".toList :: loopLines branches
  | .readLine :: _                 => []
  | .recv (some event) :: branches => event.lines ++ loopLines branches
  | .recv none :: _                => []

def retryLines (retry : Option Int) : List (List Char) :=
  (retry.map fun retryValue => "retry: ".toList ++ (toString retryValue).toList).toList

variable {branches : List (Branch EventSourceEvent)} {retry : Option Int} {c : Decoder}

theorem eventLoop_eq (writer : List UInt8) (branches : List (Branch EventSourceEvent)) :
    eventLoop writer branches = writer ++ encode (loopLines branches) := by
  fun_induction eventLoop writer branches
  case case1 => simp [loopLines, encode_nil]
  case case2 writer branches ih =>
    rw [ih, List.append_assoc, loopLines, encode_cons, String.ofList_toList]
    rfl
  case case3 => simp [loopLines, encode_nil]
  case case4 writer event branches ih =>
    rw [ih, EventSourceEvent.send_eq, List.append_assoc, loopLines, encode_append]
  case case5 => simp [loopLines, encode_nil]

-- Comments aside a client gets what there is to get of each event.
theorem run_loopLines (h : ∀ event ∈ delivered branches, event.WellFormed)
    (hc : c.data = [] ∧ c.type = []) :
    (c.run (loopLines branches)).1 = (delivered branches).filterMap EventSourceEvent.received := by
  fun_induction loopLines branches generalizing c
  case case1 => rfl
  case case2 branches ih =>
    rw [Decoder.run_cons_none <| Decoder.line_comment rfl]
    exact ih h hc
  case case3 => rfl
  case case4 event branches ih =>
    have ⟨hd, tl⟩ := List.forall_mem_cons.mp h
    have rest := ih (c := { c with id := event.id.toList, lastEventId := event.id.toList }) tl hc
    simp only [Decoder.run_append, event.run_lines hd hc, rest, delivered, List.filterMap_cons]
    cases event.received <;> rfl
  case case5 => rfl

theorem isLine_loopLines (h : ∀ event ∈ delivered branches, event.WellFormed) :
    ∀ l ∈ loopLines branches, EventStream.IsLine l := by
  fun_induction loopLines branches
  case case1 => exact List.forall_mem_nil _
  case case2 branches ih => exact List.forall_mem_cons.mpr ⟨by decide, ih h⟩
  case case3 => exact List.forall_mem_nil _
  case case4 event branches ih =>
    have ⟨hd, tl⟩ := List.forall_mem_cons.mp h
    exact List.forall_mem_append.mpr ⟨event.isLine_lines hd, ih tl⟩
  case case5 => exact List.forall_mem_nil _

theorem isLine_retryLines (retry : Option Int) : ∀ l ∈ retryLines retry, EventStream.IsLine l := by
  cases retry
  case none => exact List.forall_mem_nil _
  case some retryValue =>
    have number {c : Char} (hd : c.isDigit = false) (hm : c ≠ '-') :
        c ∉ (toString retryValue).toList := by
      intro h
      obtain h | h := Str.isDigit_of_mem_toString_int h
      · exact Bool.false_ne_true <| hd.symm.trans h
      · exact hm h
    exact List.forall_mem_singleton.mpr <| .append (by decide) (by decide)
      (number rfl (by decide)) (number rfl (by decide))

theorem run_retryLines (retry : Option Int) (c : Decoder) : (c.run (retryLines retry)).1 = [] ∧
    (c.run (retryLines retry)).2.data = c.data ∧ (c.run (retryLines retry)).2.type = c.type := by
  cases retry
  case none => exact ⟨rfl, rfl, rfl⟩
  case some retryValue =>
    have line : c.line ("retry: ".toList ++ (toString retryValue).toList) =
        (none, c.field "retry".toList _) :=
      Decoder.line_field "retry".toList (by decide) (by decide)
    have field (value : List Char) : (c.field "retry".toList value).data = c.data ∧
        (c.field "retry".toList value).type = c.type := by
      rw [Decoder.field, if_neg (by decide), if_neg (by decide), if_neg (by decide), if_pos rfl]
      split <;> exact ⟨rfl, rfl⟩
    rw [retryLines, Option.map_some, Option.toList_some, Decoder.run_cons_none line]
    exact ⟨rfl, field _⟩

-- Whatever else is written, a client gets what there is to get of each event.
theorem decode_loopLines (retry : Option Int) (h : ∀ event ∈ delivered branches, event.WellFormed) :
    (decode <| encode <| retryLines retry ++ loopLines branches).map (·.1) =
      some ((delivered branches).filterMap EventSourceEvent.received) := by
  have lines := List.forall_mem_append.mpr ⟨isLine_retryLines retry, isLine_loopLines h⟩
  have ⟨events, data, type⟩ := run_retryLines retry .new
  rw [decode_encode lines, Option.map_some, Decoder.run_append, events, run_loopLines h ⟨data, type⟩]
  rfl

end Loop

section Head

variable [Unicode] {iteration : Iteration} {retry : Option Int}
  {branches : List (Branch EventSourceEvent)}

theorem handleEventStream_eq : handleEventStream iteration retry branches =
    HttpResponseBuilder.new.contentEventStream.build iteration ++
      encode (retryLines retry ++ loopLines branches) := by
  simp only [handleEventStream, eventLoop_eq, encode_append, ← List.append_assoc]
  cases retry
  case none => simp [retryLines, encode_nil]
  case some retryValue =>
    have line : encode (retryLines <| some retryValue) =
        Utf8.encode ("retry: " ++ toString retryValue ++ "\n") := by
      rw [retryLines, Option.map_some, Option.toList_some, encode_cons, encode_nil, List.append_nil,
        ← String.toList_append, String.ofList_toList]
    rw [line]

-- The head announces an event stream, which is all that comes behind it.
theorem parse_handleEventStream [LawfulUnicode] :
    HttpMessage.parse (handleEventStream iteration retry branches) = some {
      version := "HTTP/1.1"
      status  := "200 OK"
      headers := [("content-type", "text/event-stream; charset=utf-8")]
      body    := encode <| retryLines retry ++ loopLines branches } := by
  let header : String × String := ("Content-Type", "text/event-stream; charset=utf-8")
  let builder := HttpResponseBuilder.new.settle [header]
  have token : IsToken header.1 := by decide
  have sent : SentLast [header] (iteration.order builder.sentHeaders) :=
    HttpResponseBuilder.sentLast_settle rfl <| List.forall_mem_singleton.mpr token
  have order : iteration.order builder.sentHeaders = [namedHeader header] :=
    List.perm_singleton.mp <| iteration.perm _
  have lower : (CaseInsensitiveString.ofString "Content-Type").lowercase = "content-type" :=
    (sent.lowercase List.mem_cons_self).trans (by decide)
  have parse (rest : List UInt8) : HttpMessage.parse (builder.build iteration ++ rest) = _ :=
    HttpResponseBuilder.parse_build rest fun _ _ hl =>
      sent.isHeader (List.forall_mem_singleton.mpr (by decide)) <| Iteration.mem_order.mpr hl
  rw [handleEventStream_eq]
  refine (parse _).trans ?_
  simp only [order, List.map_cons, List.map_nil, namedHeader, header, lower]
  rfl

end Head

-- One event for each element is as much as there can be.
theorem filterMap_eq_map_iff {α β : Type} {f : α → Option β} {g : α → β} {l : List α} :
    l.filterMap f = l.map g ↔ ∀ x ∈ l, f x = some (g x) := by
  induction l
  case nil => simp
  case cons x l ih =>
    rw [List.filterMap_cons, List.map_cons, List.forall_mem_cons, ← ih]
    cases f x
    case some => simp
    case none =>
      refine iff_of_false (fun he => ?_) nofun
      have le := List.length_filterMap_le f l
      have eq := congrArg List.length he
      rw [List.length_cons, List.length_map] at eq
      dsimp only at eq
      omega

section Events

variable {events : List EventSourceEvent}

theorem foldl_send_eq (writer : List UInt8) : events.foldl sendEventToEventSourceStream writer =
    eventLoop writer (events.map (.recv <| some ·)) := by
  induction events generalizing writer
  case nil => rfl
  case cons event events ih => exact ih _

theorem delivered_events (events : List EventSourceEvent) :
    delivered (events.map (.recv <| some ·)) = events := by
  induction events
  case nil => rfl
  case cons event events ih => exact congrArg (event :: ·) ih

theorem events_roundTrip_iff (h : ∀ event ∈ events, event.WellFormed) :
    (decode <| events.foldl sendEventToEventSourceStream []).map (·.1) =
      some (events.map EventSourceEvent.intended) ↔ ∀ event ∈ events, event.Lossless := by
  have decoded := decode_loopLines none <| (delivered_events events).symm ▸ h
  rw [delivered_events] at decoded
  rw [foldl_send_eq, eventLoop_eq, List.nil_append]
  simp only [retryLines, Option.map_none, Option.toList_none, List.nil_append] at decoded
  rw [decoded, Option.some.injEq, filterMap_eq_map_iff]
  exact forall₂_congr fun _ _ => EventSourceEvent.received_eq_iff

theorem events_roundTrip_iff_example :
    let events : List EventSourceEvent := [⟨"a\n\n b", "1", none⟩, ⟨"\n\u00e9", "", some "t"⟩]
    ((decode <| events.foldl sendEventToEventSourceStream []).map (·.1) =
      some (events.map EventSourceEvent.intended) ↔ ∀ event ∈ events, event.Lossless) := by
  refine events_roundTrip_iff ?_
  rintro event (_ | ⟨_, _ | ⟨_, ⟨⟩⟩⟩)
  all_goals exact ⟨by decide +kernel, by decide +kernel, by decide +kernel⟩

theorem not_events_roundTrip_example :
    let event : EventSourceEvent := ⟨"", "1", none⟩
    event.WellFormed ∧
      (decode <| [event].foldl sendEventToEventSourceStream []).map (·.1) ≠ some [event.intended] := by
  refine ⟨⟨by decide, by decide, by decide⟩, ?_⟩
  decide +kernel

end Events

end Pheidippides.HttpServer
