import Pheidippides.HttpServer.Theorems.EventSource
import Pheidippides.Web.EventStream
import Pheidippides.Web.Theorems.Messages

namespace Pheidippides

namespace Routing

variable {α ε : Type} [App α ε] [Unicode] [UrlEscape] [UuidText] [MessageText] {server : Server α}
  {request : Request} {content : Option String}

-- What is written for a subscription are the events of its messages.
theorem subscribeNewMessages_text (params : String) :
    Handler.Responds server content (subscribeNewMessages request params) fun response =>
      ∀ retry stream events, response = .eventSource retry stream events →
        retry = none ∧ ∃ messages : List Message,
          events.map EventSourceEvent.text = messages.map Message.event := by
  refine .authorization <| .orBadRequest nofun fun _ _ => .form nofun fun _ =>
    .orBadRequest nofun fun _ _ => .orBadRequest nofun fun _ _ => .call fun _ =>
    .orServerError nofun fun subscription _ => .respond ?_
  rintro _ _ _ ⟨⟩
  exact ⟨rfl, subscription.queue, List.map_map⟩

end Routing

open HttpServer MessageText

theorem delivered_map {α β : Type} (f : α → β) (branches : List (Branch α)) :
    delivered (branches.map (·.map f)) = (delivered branches).map f := by
  fun_induction delivered branches
  case case1 => rfl
  case case2 branches ih => exact ih
  case case3 => rfl
  case case4 x branches ih => exact congrArg (f x :: ·) ih
  case case5 => rfl

namespace Message

variable [MessageText] [UuidText] {m : Message}

theorem Documented.wellFormed (h : m.Documented) : m.event.WellFormed where
  id := by
    have absent {c : Char} (hc : ¬(c.isAlphanum ∨ c = '-')) : c ∉ (uuid m.id).toList :=
      fun hm => hc <| h.digits c hm
    exact ⟨absent (by decide), absent (by decide), absent (by decide)⟩
  type := nofun
  data := fun hm => absurd (h.escaped _ hm) (by decide)

theorem Documented.lossless (h : m.Documented) : m.event.Lossless where
  data := by
    intro he
    have object := h.object
    rw [show json (.ofMessage m) = "" from he] at object
    cases object
  lineEnd := fun hm => absurd (h.escaped _ <| List.mem_of_getLast? hm) (by decide)
  type := nofun

end Message

-- All that comes before and between the events changes nothing.
theorem eventStream_roundTrip [Unicode] [LawfulUnicode] [MessageText] [UuidText]
    {branches : List (Branch Message)} (h : ∀ m ∈ delivered branches, m.Documented)
    (iteration : Iteration) (retry : Option Int) :
    ∃ response,
      HttpMessage.parse (respond iteration <| .eventSource retry <| branches.map (·.map Message.event)) =
        some response ∧
      (EventStream.decode response.body).map (·.1) =
        some ((delivered branches).map Message.dispatched) ∧
      ∀ m ∈ delivered branches,
        Routing.optionalUuid (some m.dispatched.lastEventId) = some (some m.id) := by
  have events := delivered_map Message.event branches
  have wellFormed : ∀ event ∈ delivered (branches.map (·.map Message.event)), event.WellFormed := by
    rw [events]
    exact List.forall_mem_map.mpr fun m hm => (h m hm).wellFormed
  refine ⟨_, parse_handleEventStream, ?_, ?_⟩
  case refine_1 =>
    rw [decode_loopLines retry wellFormed, events, List.filterMap_map]
    refine congrArg some <| filterMap_eq_map_iff.mpr fun m hm => ?_
    exact EventSourceEvent.received_eq_iff.mpr (h m hm).lossless
  case refine_2 =>
    intro m hm
    exact congrArg (Option.map some) (h m hm).parsed

-- The texts of the only message of the example.
@[reducible]
def exampleTexts : MessageText where
  uuid _ := "00000000-0000-0000-0000-000000000001"
  json _ :=
    "\x7b\"from\":\"00000000-0000-0000-0000-000000000002\"," ++
      "\"id\":\"00000000-0000-0000-0000-000000000001\"," ++
      "\"message\":\"a\\r\\n\\\"b\\\"\\u0001\",\"timestamp\":\"1970-01-01T00:00:00+00:00\"," ++
      "\"to\":\"00000000-0000-0000-0000-000000000003\"\x7d"

@[reducible]
def exampleIds : UuidText where
  parse text := if text = "00000000-0000-0000-0000-000000000001" then some 1 else none

theorem eventStream_roundTrip_example :
    let _ := asciiUnicode
    let _ := exampleTexts
    let _ := exampleIds
    let m : Message := ⟨1, 2, 3, "a\r\n\"b\"\u0001", 0⟩
    let branches : List (Branch Message) :=
      [.sleep, .recv (some m), .sleep, .sleep, .recv (some m), .readLine]
    ∃ response,
      HttpMessage.parse
          (respond .entries <| .eventSource (some (-3)) <| branches.map (·.map Message.event)) =
        some response ∧
      (EventStream.decode response.body).map (·.1) = some ([m, m].map Message.dispatched) ∧
      ∀ m' ∈ [m, m], Routing.optionalUuid (some m'.dispatched.lastEventId) = some (some m'.id) := by
  let _ := asciiUnicode
  let _ := exampleTexts
  let _ := exampleIds
  have := asciiUnicode_lawful
  refine eventStream_roundTrip ?_ .entries (some (-3))
  have documented : (⟨1, 2, 3, "a\r\n\"b\"\u0001", 0⟩ : Message).Documented :=
    ⟨by decide +kernel, by decide +kernel, by decide +kernel, by decide +kernel⟩
  exact List.forall_mem_cons.mpr ⟨documented, List.forall_mem_singleton.mpr documented⟩

end Pheidippides
