import Pheidippides.Web.RoutingTable

namespace Pheidippides
namespace Request

variable {request : Request}

theorem pathAndParams_eq (url : String) :
    pathAndParams url =
      (.ofList (url.toList.takeWhile (· ≠ '?')),
        .ofList (((url.toList.dropWhile (· ≠ '?')).drop 1).takeWhile (· ≠ '#'))) := by
  have fst (c : Char) (s : String) :
      ((Str.splitOnce c s).getD (s, "")).1 = .ofList (s.toList.takeWhile (· ≠ c)) := by
    rw [Str.splitOnce, Str.splitOnceAux_eq]
    by_cases h : c ∈ s.toList
    case pos => simp [h]
    case neg => rw [Scan.takeWhile_of_not_mem h]; simp [h]
  have snd (c : Char) (s : String) :
      ((Str.splitOnce c s).getD (s, "")).2 = .ofList ((s.toList.dropWhile (· ≠ c)).drop 1) := by
    rw [Str.splitOnce, Str.splitOnceAux_eq]
    by_cases h : c ∈ s.toList
    case pos => simp [h]
    case neg => rw [Scan.dropWhile_of_not_mem h]; simp [h]
  simp only [pathAndParams, fst, snd, String.toList_ofList]

theorem segments_eq (request : Request) :
    (Str.split "/" (pathAndParams request.url).1).filter (!·.isEmpty) = request.segments := by
  rw [Str.split_eq_splitOn (c := '/') rfl, pathAndParams_eq, String.toList_ofList, segments,
    List.filter_map]
  congr 2
  funext l
  cases l <;> simp

theorem endpoint_of_calls {e : Endpoint} (h : request.Calls e) : request.endpoint = e := by
  have ⟨method, path, params⟩ := h
  have query : (pathAndParams request.url).2 = request.query := by rw [pathAndParams_eq]; rfl
  rw [endpoint]
  simp only [segments_eq, ← path, query]
  cases e
  case badRequest  => cases method
  case chat chatId => cases chatId <;> simp [← Option.some.inj method, Endpoint.path]
  case subscribeNewMessages | chatsearchHtml | messagesJson =>
    simp [← Option.some.inj method, Endpoint.path, ← params _ rfl]
  all_goals simp [← Option.some.inj method, Endpoint.path]

-- A list is given by its elements and the first place where there is none.
theorem eq_of_getElem? {l p : List String} (h : ∀ i ∈ List.range (p.length + 1), l[i]? = p[i]?) :
    p = l := by
  simp only [List.mem_range] at h
  have length : l.length ≤ p.length := by
    rw [← List.getElem?_eq_none_iff, h _ p.length.lt_succ_self, List.getElem?_eq_none le_rfl]
  refine List.ext_getElem? fun i => ?_
  obtain hi | hi := lt_or_ge i (p.length + 1)
  · exact (h i hi).symm
  · rw [List.getElem?_eq_none (by omega), List.getElem?_eq_none (by omega)]

theorem calls_endpoint (h : ¬request.Overlong) (hb : request.endpoint ≠ .badRequest) :
    request.Calls request.endpoint := by
  have query : (pathAndParams request.url).2 = request.query := by rw [pathAndParams_eq]; rfl
  revert hb
  rw [endpoint]
  simp only [segments_eq, query]
  split
  case h_16 => exact (absurd rfl ·)
  case h_4 chatId _ method chat third =>
    intro _
    refine ⟨by simp [Endpoint.method, method], eq_of_getElem? ?_, by simp [Endpoint.params]⟩
    cases hs : request.segments[1]? <;> simp [Endpoint.path, List.range_succ, *]
  case h_12 method html chat id =>
    intro _
    refine ⟨by simp [Endpoint.method, method], ?_, by simp [Endpoint.params]⟩
    rcases hs : request.segments with _ | ⟨_, _ | ⟨_, _ | ⟨_, _ | ⟨s, rest⟩⟩⟩⟩ <;>
      simp only [hs, List.getElem?_cons_zero, List.getElem?_cons_succ, Option.some.injEq, reduceCtorEq,
        List.getElem?_nil] at html chat id
    · rw [html, chat, id, Endpoint.path]
    · exact absurd ⟨method, _, s, rest, by rw [hs, html, chat]⟩ h
  case h_1 method first =>
    intro _
    refine ⟨by simp [Endpoint.method, method], ?_, by simp [Endpoint.params]⟩
    simpa [Endpoint.path] using first
  all_goals
    intro _
    refine ⟨by simp [Endpoint.method, *], eq_of_getElem? ?_, by simp [Endpoint.params]⟩
    simp [Endpoint.path, List.range_succ, *]

theorem overlong_iff (request : Request) :
    request.Overlong ↔ ∃ id, request.endpoint = .chatHtml id ∧ ¬request.Calls (.chatHtml id) := by
  constructor
  case mp =>
    rintro ⟨method, id, s, rest, path⟩
    refine ⟨id, ?_, fun h => ?_⟩
    · rw [endpoint]
      simp [segments_eq, method, path]
    · cases path.symm.trans h.path.symm
  case mpr =>
    rintro ⟨id, h, hn⟩
    by_contra ho
    exact hn <| h ▸ calls_endpoint ho (h ▸ nofun)

theorem Exact.not_overlong (exact : request.Exact) : ¬request.Overlong := by
  intro h
  obtain ⟨id, h, hn⟩ := request.overlong_iff.mp h
  exact hn <| exact.runs (.chatHtml id) nofun |>.mp h

-- `html/chat` is the only row which does not say where the path ends.
theorem exact_iff_not_overlong (request : Request) : request.Exact ↔ ¬request.Overlong := by
  refine ⟨Exact.not_overlong, fun ho => ⟨fun e he => ?_, ?_⟩⟩
  case refine_1 => exact ⟨fun h => h ▸ calls_endpoint ho (h ▸ he), endpoint_of_calls⟩
  case refine_2 =>
    intro none _ _ _ _ draws
    have bad : request.endpoint = .badRequest := by
      by_contra hb
      exact none _ <| calls_endpoint ho hb
    rw [Routing.route, bad]

theorem not_exact_overlong_example :
    ¬Request.Exact {
      method  := .get
      url     := "/html/chat/1/x"
      headers := fun _ => none
      content := none
    } := by
  refine fun exact => exact.not_overlong ⟨rfl, "1", "x", [], ?_⟩
  decide +kernel

end Request
end Pheidippides
