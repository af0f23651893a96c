import Pheidippides.HttpServer.Theorems.Reading
import Pheidippides.Web.Listener
import Pheidippides.Web.Theorems.Contract
import Pheidippides.Web.Theorems.Sessions

open Pheidippides.HttpServer (Reading)
open Pheidippides.Routing (contract)

namespace Pheidippides

namespace Connection

section Sends

variable [Unicode] [HttpServer.Allocator] {c : Connection} {read : HttpServer.Request}
  {P Q : Request → Prop} {R : Prop}

-- The client has sent a request with this property, whatever may come behind it.
def Sends (c : Connection) (P : Request → Prop) : Prop :=
  ∃ read, HttpServer.Request.tryFromStream c.received = .ok read ∧
    ∀ rest, (c.closed = true → rest = []) →
      P (HttpServer.Request.toRequest { read with reader := read.reader ++ rest })

namespace Sends

theorem imp (h : c.Sends P) (hi : ∀ request, P request → Q request) : c.Sends Q :=
  have ⟨read, hr, hp⟩ := h
  ⟨read, hr, fun rest closed => hi _ <| hp rest closed⟩

theorem exists_request (h : c.Sends P) : ∃ request, c.request = some request ∧ P request := by
  have ⟨read, hr, hp⟩ := h
  refine ⟨read.toRequest, ?_, ?_⟩
  · rw [Connection.request, hr]
    rfl
  · simpa using hp [] fun _ => rfl

-- But for the content, a request is known by its head.
theorem of_head (h : HttpServer.Request.tryFromStream c.received = .ok read)
    (hp : ∀ content, P { read.toRequest with content }) : c.Sends P :=
  ⟨read, h, fun _ _ => hp _⟩

-- It is known with its content, if this is there.
theorem with_content (h : c.Sends P) (hr : HttpServer.Request.tryFromStream c.received = .ok read)
    (content : R → c.HasContent read) :
    c.Sends fun sent => P sent ∧ sent.headers = read.headers ∧ (R → sent = read.toRequest) := by
  obtain ⟨read', hr', hp⟩ := h
  cases hr.symm.trans hr'
  refine ⟨read, hr, fun rest closed => ⟨hp rest closed, rfl, fun hR => ?_⟩⟩
  by_cases hc : c.closed
  · simp [closed hc]
  · rw [HttpServer.Request.toRequest_append fun n hn fits => ?_]
    simpa [hc] using content hR n hn fits

theorem receive (h : c.Sends P) (bytes : List UInt8) : (c.receive bytes).Sends P := by
  have ⟨read, hr, hp⟩ := h
  rw [Connection.receive]
  split_ifs with hc
  · exact h
  refine ⟨_, HttpServer.Request.tryFromStream_append hr bytes, fun rest _ => ?_⟩
  rw [List.append_assoc]
  exact hp (bytes ++ rest) fun h => absurd h hc

end Sends
end Sends

section Moves

variable [Unicode] {c c' : Connection} {P : Request → Prop}

-- What can happen to a connection, unless its handler goes on.
inductive Moves (c : Connection) : Connection → Prop
  | receive (bytes : List UInt8) : Moves c (c.receive bytes)
  | close : Moves c c.close
  | lose : Moves c c.lose
  | fail : c.task.response = none → Moves c c.fail

omit [Unicode] in
theorem lose_cases (c : Connection) : c.lose = c ∨ (c.lose = c.fail ∧ c.task.response = none) := by
  rw [lose]
  split
  case h_1 ht => exact .inr ⟨rfl, by rw [ht]; rfl⟩
  case h_2 ht => exact .inr ⟨rfl, by rw [ht]; rfl⟩
  case h_3    => exact .inl rfl

theorem Moves.response (h : Moves c c') : c'.task.response = c.task.response := by
  cases h
  case receive =>
    rw [Connection.receive]
    split_ifs
    · rfl
    · cases c.task <;> rfl
  case close   => rfl
  case fail ht => exact ht.symm
  case lose    =>
    obtain same | ⟨fails, ht⟩ := c.lose_cases
    · rw [same]
    · rw [fails, ht]
      rfl

theorem Sends.moves [HttpServer.Allocator] (h : c.Sends P) (hm : Moves c c') : c'.Sends P := by
  cases hm
  case receive bytes => exact h.receive bytes
  case close         =>
    have ⟨read, hr, hp⟩ := h
    exact ⟨read, hr, fun rest closed => hp rest fun _ => closed rfl⟩
  case fail => exact h
  case lose =>
    obtain same | ⟨fails, _⟩ := c.lose_cases
    · rwa [same]
    · rwa [fails]

theorem tryFromStream_of_read {res : Except HttpServer.Error HttpServer.Request}
    (h : c.read (Reading.start.feed c.received) = some res) :
    HttpServer.Request.tryFromStream c.received = res := by
  have resume : (Reading.start.feed c.received).resume [] = _ := Reading.resume_start c.received
  rw [List.append_nil] at resume
  rw [← resume]
  generalize Reading.start.feed c.received = reading at h
  cases reading
  case done request =>
    cases h
    rw [Reading.resume, List.append_nil]
  case failed =>
    cases h
    rfl
  all_goals
    simp only [Connection.read] at h
    split_ifs at h
    cases h
    rfl

end Moves
end Connection

namespace Listener

-- The connections after one of them has changed.
theorem getElem?_set_iff {connections : List Connection} {i j : Nat} {c c' c₁ : Connection}
    (hc : connections[i]? = some c) : (connections.set i c')[j]? = some c₁ ↔
      (j = i ∧ c₁ = c') ∨ (j ≠ i ∧ connections[j]? = some c₁) := by
  have lt : i < connections.length := (List.getElem?_eq_some_iff.mp hc).1
  obtain rfl | hij := eq_or_ne j i
  · simp [List.getElem?_set_self lt, eq_comm]
  · simp [List.getElem?_set_ne hij.symm, hij]

theorem getElem?_concat {connections : List Connection} {i : Nat} {c c' : Connection}
    (hc : (connections ++ [c'])[i]? = some c) : connections[i]? = some c ∨ c = c' := by
  rw [List.getElem?_append] at hc
  split_ifs at hc
  · exact .inl hc
  · exact .inr <| List.mem_singleton.mp <| List.mem_of_getElem? hc

section Change

variable {α ε : Type} [App α ε] [Unicode] [HttpServer.Allocator] [UrlEscape] [UuidText] [SerdeJson]
  {w w' : Listener α} {e : Event α} {i j : Nat} {c c' : Connection} {read : HttpServer.Request}
  {draws : Draws} {call : Option Call} {next : Handler.Rest × Server α}

-- The handler of a connection goes on: from its beginning, or with the result which is there now. Among
-- what it does there is one call at most.
inductive Goes (w : Listener α) (c : Connection) (read : HttpServer.Request) (draws : Draws) :
    Option Call → Handler.Rest × Server α → Prop
  | handle {reading : Reading} : c.task = .reading reading → c.read reading = some (.ok read) →
    Goes w c read draws none
      (Program.advance Operation.waits (Server.perform read.toRequest.content)
        (Routing.route read.toRequest draws) w.server)
  | resume {op : Operation} {next : op.Result → Handler.Rest} : c.task = .handling read op next →
    (op = .content → c.HasContent read) → Goes w c read draws op.called
      (Program.resume Operation.waits (Server.perform read.toRequest.content) (.op op next) w.server)

-- Where this leaves the task of the connection.
inductive Leaves (read : HttpServer.Request) : Handler.Rest → Connection.Task → Prop
  | handling {op : Operation} {next : op.Result → Handler.Rest} :
    Leaves read (.op op next) (.handling read op next)
  | answered {res : Except Handler.Exit Response} {response : Response} :
    Handler.response res = some response → Leaves read (.done res) (.answered response)

-- What an event can change.
inductive Change (w : Listener α) : Event α → Listener α → Prop
  | idle {e : Event α} : Change w e w
  | accept : Change w .accept { w with connections := w.connections ++ [.new] }
  | cancel : Change w .cancel { w with cancelled := true }
  | app {app : α} : Change w (.app app) { w with server := { w.server with app } }
  | abort {e : Event α} : Change w e { w with crashed := true }
  | moves {e : Event α} {i : Nat} {c c' : Connection} : w.connections[i]? = some c → c.Moves c' →
    Change w e { w with connections := w.connections.set i c' }
  | goes {i : Nat} {c : Connection} {read : HttpServer.Request} {draws : Draws} {call : Option Call}
    {next : Handler.Rest × Server α} {task : Connection.Task} :
    w.connections[i]? = some c → Goes w c read draws call next → Leaves read next.1 task →
    Change w (.run i draws)
      { w with server := next.2, connections := w.connections.set i { c with task } }
  | crash {i : Nat} {c : Connection} {read : HttpServer.Request} {draws : Draws} {call : Option Call}
    {next : Handler.Rest × Server α} {res : Except Handler.Exit Response} :
    w.connections[i]? = some c → Goes w c read draws call next → next.1 = .done res →
    Handler.response res = none → Change w (.run i draws) { w with server := next.2, crashed := true }

theorem change_modify {f : Connection → Connection} (h : ∀ c : Connection, c.Moves (f c)) :
    Change w e { w with connections := w.connections.modify i f } := by
  cases hc : w.connections[i]?
  case none   =>
    rw [List.modify_eq_self (List.getElem?_eq_none_iff.mp hc)]
    exact .idle
  case some c =>
    have lt := (List.getElem?_eq_some_iff.mp hc).1
    have set : w.connections.modify i f = w.connections.set i (f c) := by
      refine List.ext_getElem? fun j => ?_
      rw [List.getElem?_modify, List.getElem?_set, if_pos lt]
      split_ifs with hij
      · rw [← hij, hc]
        rfl
      · simp
    rw [set]
    exact .moves hc (h c)

theorem change_proceed (hc : w.connections[i]? = some c) (h : Goes w c read draws call next) :
    Change w (.run i draws) (w.proceed i c read next) := by
  obtain ⟨res | ⟨op, rest⟩, server⟩ := next
  case op   => exact .goes hc h .handling
  case done =>
    cases hr : Handler.response res
    case none =>
      have dies : w.proceed i c read (.done res, server) = { w with server, crashed := true } := by
        simp only [proceed, hr]
      rw [dies]
      exact .crash hc h rfl hr
    case some response =>
      have answers : w.proceed i c read (.done res, server) = { w with
          server, connections := w.connections.set i { c with task := .answered response } } := by
        simp only [proceed, hr]
        rfl
      rw [answers]
      exact .goes hc h <| .answered hr

theorem run_change (w : Listener α) (i : Nat) (draws : Draws) :
    Change w (.run i draws) (w.run i draws) := by
  unfold run
  split
  case h_1 => exact .idle
  case h_2 c hc =>
    split
    case h_1 reading ht =>
      split
      case h_1    => exact .idle
      case h_2    => exact .moves hc <| .fail <| by rw [ht]; rfl
      case h_3 hr => exact change_proceed hc <| .handle ht hr
    case h_2 request next ht =>
      split_ifs with content
      · split
        · exact .moves hc <| .fail <| by rw [ht]; rfl
        · exact .abort
        · exact change_proceed hc <| .resume ht fun _ => content
      · exact .idle
    case h_3 request op next other ht =>
      refine change_proceed hc <| .resume ht fun he => ?_
      subst he
      exact (other next rfl .rfl).elim
    case h_4 => exact .idle

theorem step_change (w : Listener α) (e : Event α) : Change w e (w.step e) := by
  unfold step
  by_cases crashed : w.crashed
  · rw [if_pos crashed]
    exact .idle
  rw [if_neg crashed]
  cases e
  case accept =>
    dsimp only
    split_ifs
    · exact .idle
    · exact .accept
  case receive bytes => exact change_modify fun c => .receive bytes
  case close         => exact change_modify fun c => .close
  case lose          => exact change_modify fun c => .lose
  case cancel        => exact .cancel
  case app           => exact .app
  case run           => exact run_change ..

end Change

section Stands

variable {α ε : Type} [App α ε] [Unicode] [HttpServer.Allocator] [UrlEscape] [UuidText] [SerdeJson]
  {app : α} {w w' : Listener α} {es : List (Event α)} {e : Event α} {i : Nat} {c c' : Connection}
  {task : Connection.Task} {read : HttpServer.Request} {headers : Headers} {userId : UserId}
  {sent : Request} {draws : Draws} {rest : Handler.Rest} {t : Progress}

-- The sessions name the user for the head which has arrived on the connection.
def Names (w : Listener α) (i : Nat) (headers : Headers) (userId : UserId) : Prop :=
  ∃ c read, w.connections[i]? = some c ∧ HttpServer.Request.tryFromStream c.received = .ok read ∧
    headers = read.headers ∧ getAuthorization w.server.sessions headers = some userId

-- At some point of the run the sessions have named the user for the head which had arrived.
def Named (app : α) (es : List (Event α)) (i : Nat) (headers : Headers) (userId : UserId) : Prop :=
  ∃ es₁ es₂, es = es₁ ++ es₂ ∧ ((system app).run es₁).Names i headers userId

-- What is left of the handler of a request keeps the contract, with a user who has been named for it.
structure Kept (app : α) (es : List (Event α)) (i : Nat) (sent : Request) (draws : Draws)
    (rest : Handler.Rest) (t : Progress) : Prop where
  meets  : rest.Meets (contract sent draws) t
  waits  : t.waits ≤ 4
  users  : ∀ userId ∈ t.user, Named app es i sent.headers userId
  pieces : ∃ servers, servers ≠ [] ∧ servers.Sublist (turns i (start app) es) ∧
    Listener.pieces sent draws servers = rest

def Undertaken (app : α) (es : List (Event α)) (i : Nat) (c : Connection) (rest : Handler.Rest) : Prop :=
  ∃ draws, .run i draws ∈ es ∧ c.Sends fun sent => ∃ t, Kept app es i sent draws rest t

-- The task has come as far as the bytes which it has got.
inductive Stands (app : α) (es : List (Event α)) (i : Nat) (c : Connection) : Connection.Task → Prop
  | reading : Stands app es i c (.reading <| Reading.start.feed c.received)
  | handling {read : HttpServer.Request} {op : Operation} {next : op.Result → Handler.Rest} :
    HttpServer.Request.tryFromStream c.received = .ok read → op.waits = true →
    Undertaken app es i c (.op op next) → Stands app es i c (.handling read op next)
  | answered {res : Except Handler.Exit Response} {response : Response} :
    Handler.response res = some response → Undertaken app es i c (.done res) →
    Stands app es i c (.answered response)
  | ended : Stands app es i c .ended

theorem turns_concat (app : α) : turns i w (es ++ [e]) =
    turns i w es ++ if e.runs i then [((system app).exec w es).server] else [] := by
  induction es generalizing w
  case nil          => rfl
  case cons e' es ih =>
    rw [List.cons_append, turns, turns, ih]
    split_ifs <;> rfl

omit [HttpServer.Allocator] in
theorem pieces_concat {servers : List (Server α)} {server : Server α} (ne : servers ≠ []) :
    pieces sent draws (servers ++ [server]) = ((pieces sent draws servers).resume Operation.waits
      (Server.perform sent.content) server).1 :=
  Program.pieces_concat ne

theorem Named.later (h : Named app es i headers userId) (e : Event α) :
    Named app (es ++ [e]) i headers userId :=
  have ⟨es₁, es₂, he, names⟩ := h
  ⟨es₁, es₂ ++ [e], by rw [he, List.append_assoc], names⟩

theorem Kept.later (h : Kept app es i sent draws rest t) (e : Event α) :
    Kept app (es ++ [e]) i sent draws rest t where
  meets      := h.meets
  waits      := h.waits
  users u hu := (h.users u hu).later e
  pieces     :=
    have ⟨servers, ne, sub, he⟩ := h.pieces
    ⟨servers, ne, turns_concat app ▸ sub.trans (List.sublist_append_left ..), he⟩

namespace Undertaken

theorem later (h : Undertaken app es i c rest) (e : Event α) : Undertaken app (es ++ [e]) i c rest :=
  have ⟨draws, hm, sends⟩ := h
  ⟨draws, List.mem_append_left _ hm, sends.imp fun _ ⟨t, kept⟩ => ⟨t, kept.later e⟩⟩

theorem keep (h : Undertaken app es i c rest) (keeps : ∀ {P}, c.Sends P → c'.Sends P) :
    Undertaken app es i c' rest :=
  have ⟨draws, hm, sends⟩ := h
  ⟨draws, hm, keeps sends⟩

end Undertaken

namespace Stands

theorem later (h : Stands app es i c task) (e : Event α) : Stands app (es ++ [e]) i c task := by
  cases h
  case reading             => exact .reading
  case handling hr hw under => exact .handling hr hw <| under.later e
  case answered hr under    => exact .answered hr <| under.later e
  case ended               => exact .ended

theorem keep (h : Stands app es i c task) (same : c'.received = c.received)
    (keeps : ∀ {P}, c.Sends P → c'.Sends P) : Stands app es i c' task := by
  cases h
  case reading              => exact same ▸ .reading
  case handling hr hw under => exact .handling (same ▸ hr) hw <| under.keep keeps
  case answered hr under    => exact .answered hr <| under.keep keeps
  case ended                => exact .ended

theorem receive {bytes : List UInt8} (h : Stands app es i c task)
    (more : c'.received = c.received ++ bytes) (keeps : ∀ {P}, c.Sends P → c'.Sends P) :
    Stands app es i c' (task.receive bytes) := by
  cases h
  case reading =>
    have feed : (Reading.start.feed c.received).feed bytes = Reading.start.feed c'.received :=
      more ▸ List.foldl_append.symm
    rw [Connection.Task.receive, feed]
    exact .reading
  case handling hr hw under =>
    exact .handling (more ▸ HttpServer.Request.tryFromStream_append hr bytes) hw <| under.keep keeps
  case answered hr under => exact .answered hr <| under.keep keeps
  case ended             => exact .ended

theorem moves (h : Stands app es i c c.task) (hm : c.Moves c') : Stands app es i c' c'.task := by
  have keeps {P : Request → Prop} (sends : c.Sends P) : c'.Sends P := sends.moves hm
  cases hm
  case receive bytes =>
    unfold Connection.receive at keeps ⊢
    split_ifs at keeps ⊢
    · exact h
    · exact h.receive rfl keeps
  case close => exact h.keep rfl keeps
  case fail  => exact .ended
  case lose  =>
    obtain same | ⟨fails, _⟩ := c.lose_cases
    · rwa [same]
    · rw [fails]
      exact .ended

end Stands

theorem Leaves.stands (h : Leaves read rest task)
    (hr : HttpServer.Request.tryFromStream c.received = .ok read)
    (waits : ∀ op next, rest = .op op next → op.waits = true) (under : Undertaken app es i c rest) :
    Stands app es i c task := by
  cases h
  case handling    => exact .handling hr (waits _ _ rfl) under
  case answered ha => exact .answered ha under

end Stands

section Goes

variable {α ε : Type} [App α ε] [Unicode] [HttpServer.Allocator] [UrlEscape] [UuidText] [SerdeJson]
  {app : α} {w : Listener α} {es : List (Event α)} {i : Nat} {c : Connection}
  {read : HttpServer.Request} {sent : Request} {draws : Draws} {call : Option Call}
  {next : Handler.Rest × Server α} {t : Progress}

-- What is left of it keeps its contract. A message has been stored if the call has done so.
structure Vouched (app : α) (es : List (Event α)) (i : Nat) (server : Server α) (sent : Request)
    (draws : Draws) (call : Option Call) (rest : Handler.Rest) (t : Progress) : Prop where
  kept   : Kept app es i sent draws rest t
  named  : ∀ c ∈ call, ∀ userId service, c.service = some (userId, service) →
    Named app es i sent.headers userId ∧ Server.asks sent = some service
  drawn  : ∀ c ∈ call, c.Drawn draws
  stored : t.stage = .stored ↔
    ∃ c ∈ call, c.message.isSome ∧ (c.perform server.app).1.toOption.isSome

namespace Goes

theorem called (h : Goes w c read draws call next) :
    next.2.app = call.elim w.server.app (fun c => (c.perform w.server.app).2) ∧
      next.2.calls = w.server.calls ++ call.toList := by
  cases h
  case handle => exact (Handler.advance_same _).imp_right (·.trans (List.append_nil _).symm)
  case resume => exact Handler.resume_called

theorem not_answered (h : Goes w c read draws call next) (response : Response) :
    c.task ≠ .answered response := by
  cases h <;> simp [*]

-- Wherever the handler stops it has to wait.
theorem waits {op : Operation} {rest : op.Result → Handler.Rest} (h : Goes w c read draws call next)
    (hn : next.1 = .op op rest) : op.waits = true := by
  cases h <;> exact Program.waits_of_advance hn

-- The request is the one which has arrived.
theorem arrived (h : Goes w c read draws call next) (stands : Stands app es i c c.task) :
    HttpServer.Request.tryFromStream c.received = .ok read := by
  cases h
  case handle ht hr =>
    rw [ht] at stands
    cases stands
    exact Connection.tryFromStream_of_read hr
  case resume ht _ =>
    rw [ht] at stands
    cases stands
    assumption

theorem vouched (h : Goes ((system app).run es) c read draws call next)
    (hc : ((system app).run es).connections[i]? = some c) (stands : Stands app es i c c.task) :
    ∃ draws', .run i draws' ∈ es ++ [.run i draws] ∧ c.Sends fun sent => ∃ t,
      Vouched app (es ++ [.run i draws]) i ((system app).run es).server sent draws' call next.1 t := by
  have hr := h.arrived stands
  have names {headers : Headers} {userId : UserId} (hh : headers = read.headers)
      (hn : getAuthorization ((system app).run es).server.sessions headers = some userId) :
      Named app (es ++ [.run i draws]) i headers userId :=
    ⟨es, [.run i draws], rfl, c, read, hc, hr, hh, hn⟩
  have turns : turns i (start app) (es ++ [.run i draws]) =
      turns i (start app) es ++ [((system app).run es).server] := by
    rw [turns_concat, Event.runs, if_pos (beq_self_eq_true i)]
    rfl
  cases h
  case handle =>
    refine ⟨draws, by simp, .of_head hr fun content => ?_⟩
    have keeps := Routing.route_keeps { read.toRequest with content } draws
    have ⟨t, meets, ahead⟩ :=
      Handler.advance_meets read.toRequest.content ((system app).run es).server keeps
    have kept : Kept app (es ++ [.run i draws]) i { read.toRequest with content } draws _ t := {
      meets      := meets
      waits      := ahead.waits.le
      users u hu := names rfl <| (ahead.user u hu).resolve_left nofun
      pieces     := ⟨[_], nofun, turns ▸ List.sublist_append_right ..,
        congrArg Prod.fst <| Handler.advance_content _⟩ }
    exact ⟨t, kept, nofun, nofun, ahead.stored.trans <| iff_of_false nofun nofun⟩
  case resume op rest ht content =>
    rw [ht] at stands
    obtain _ | ⟨_, hw, draws', hm, sends⟩ := stands
    refine ⟨draws', List.mem_append_left _ hm, (sends.with_content hr content).imp ?_⟩
    rintro sent ⟨⟨t, kept⟩, hh, same⟩
    rw [Handler.resume_content fun he => congrArg Request.content (same he).symm]
    have ⟨t', meets, ahead⟩ := Handler.resume_meets ((system app).run es).server kept.meets hw
    have ⟨user, waits⟩ := Handler.after_of_waits sent t
      (Server.perform sent.content op ((system app).run es).server).1 hw
    have ⟨working, _, calls⟩ := kept.meets.left
    have users (u : UserId) (hu : u ∈ t.user) : Named app (es ++ [.run i draws]) i sent.headers u :=
      (kept.users u hu).later _
    refine ⟨t', ?kept, fun c hc userId service hs => ?_, fun c hc => ?_, ?_⟩
    case kept => exact {
      meets      := meets
      waits      := ahead.waits.trans waits |>.trans_le <| (Nat.sub_le ..).trans kept.waits
      users u hu := (ahead.user u hu).elim (fun hu => users u <| user ▸ hu) (names hh)
      pieces     :=
        have ⟨servers, ne, sub, he⟩ := kept.pieces
        ⟨servers ++ [_], by simp, turns ▸ sub.append (.refl _), he ▸ pieces_concat ne⟩ }
    · have ⟨hu, asks⟩ := (calls c <| Handler.eq_call_of_called hc).left userId service hs
      exact ⟨users userId hu, asks⟩
    · exact (calls c <| Handler.eq_call_of_called hc).right
    · exact ahead.stored.trans <| Handler.after_stored_iff working

end Goes

-- The answer says that a message has been stored if this is so.
theorem Vouched.answered_iff {server : Server α} {rest : Handler.Rest} {task : Connection.Task}
    (h : Vouched app es i server sent draws call rest t) (leaves : Leaves read rest task) :
    task = .answered Server.accepted ↔ t.stage = .stored := by
  cases leaves
  case handling         => exact iff_of_false nofun fun he => by cases h.kept.meets.left.left.symm.trans he
  case answered res ans hr =>
    rw [Connection.Task.answered.injEq]
    obtain ⟨_, iff⟩ | ⟨_, iff⟩ | _ := h.kept.meets <;> cases hr <;> exact iff

end Goes

section Runs

variable {α ε : Type} [App α ε] [Unicode] [HttpServer.Allocator] [UrlEscape] [UuidText] [SerdeJson]
  {app : α} {w w' : Listener α} {es : List (Event α)} {e : Event α} {i : Nat} {c : Connection}
  {userId : UserId} {service : Service}

-- What a client has sent stays sent, whatever happens.
theorem Change.sends (change : Change w e w') (hc : w.connections[i]? = some c) :
    ∃ c' : Connection, w'.connections[i]? = some c' ∧ ∀ {P}, c.Sends P → c'.Sends P := by
  have set {j : Nat} {c₁ c' : Connection} (hj : w.connections[j]? = some c₁)
      (keeps : ∀ {P}, c₁.Sends P → c'.Sends P) : ∃ c₂ : Connection,
      (w.connections.set j c')[i]? = some c₂ ∧ ∀ {P}, c.Sends P → c₂.Sends P := by
    obtain rfl | hij := eq_or_ne i j
    · cases hc.symm.trans hj
      exact ⟨c', (getElem?_set_iff hc).mpr <| .inl ⟨rfl, rfl⟩, keeps⟩
    · exact ⟨c, (getElem?_set_iff hj).mpr <| .inr ⟨hij, hc⟩, id⟩
  cases change
  case moves hj hm => exact set hj (·.moves hm)
  case goes hj _ _ => exact set hj id
  case accept      =>
    exact ⟨c, (List.getElem?_append_left (List.getElem?_eq_some_iff.mp hc).1).trans hc, id⟩
  all_goals exact ⟨c, hc, id⟩

theorem stands_change (h : ∀ (i : Nat) c, ((system app).run es).connections[i]? = some c →
    Stands app es i c c.task) (change : Change ((system app).run es) e w')
    (hc : w'.connections[i]? = some c) : Stands app (es ++ [e]) i c c.task := by
  cases change
  case accept =>
    obtain hc | rfl := getElem?_concat hc
    · exact (h i c hc).later _
    · exact .reading
  case moves hj hm =>
    obtain ⟨rfl, rfl⟩ | ⟨_, hc⟩ := (getElem?_set_iff hj).mp hc
    · exact ((h _ _ hj).moves hm).later e
    · exact (h i c hc).later e
  case goes hj goes leaves =>
    obtain ⟨rfl, rfl⟩ | ⟨_, hc⟩ := (getElem?_set_iff hj).mp hc
    · have ⟨draws, hm, sends⟩ := goes.vouched hj (h _ _ hj)
      exact (leaves.stands (goes.arrived <| h _ _ hj) (fun _ _ => goes.waits)
        ⟨draws, hm, sends.imp fun _ ⟨t, vouched⟩ => ⟨t, vouched.kept⟩⟩).keep rfl id
    · exact (h i c hc).later _
  all_goals exact (h i c hc).later _

theorem stands_run (es : List (Event α)) : ∀ (i : Nat) c,
    ((system app).run es).connections[i]? = some c → Stands app es i c c.task := by
  induction es using List.reverseRecOn
  case nil => exact fun _ _ hc => by cases hc
  case append_singleton es e ih =>
    rw [System.run_concat]
    exact fun i c hc => stands_change ih (step_change _ e) hc

-- What an event makes of the messenger, if it is not the messenger's own business, are calls of handlers.
theorem Change.calls (change : Change w e w') (own : ∀ app, e ≠ .app app) : ∃ calls,
    w'.server.calls = w.server.calls ++ calls ∧ w'.server.app = Call.performAll w.server.app calls := by
  have goes {c : Connection} {read draws call next} (h : Goes w c read draws call next) : ∃ calls,
      next.2.calls = w.server.calls ++ calls ∧ next.2.app = Call.performAll w.server.app calls := by
    have ⟨performed, more⟩ := h.called
    refine ⟨call.toList, more, performed.trans ?_⟩
    cases call <;> rfl
  cases change
  case app         => exact absurd rfl (own _)
  case goes h _    => exact goes h
  case crash h _ _ => exact goes h
  all_goals exact ⟨[], (List.append_nil _).symm, rfl⟩

-- What has been done for a user has been asked for on a connection.
def Authorized (app : α) (es : List (Event α)) (w : Listener α) : Prop :=
  ∀ call ∈ w.server.calls, ∀ userId service, call.service = some (userId, service) →
    ∃ (i : Nat) (c : Connection), w.connections[i]? = some c ∧
      c.Sends fun sent => Named app es i sent.headers userId ∧ Server.asks sent = some service

theorem Goes.authorized {read : HttpServer.Request} {draws : Draws} {call : Option Call}
    {next : Handler.Rest × Server α} (h : Goes ((system app).run es) c read draws call next)
    (hc : ((system app).run es).connections[i]? = some c) (stands : Stands app es i c c.task) {c₁ : Call}
    (hm : c₁ ∈ next.2.calls) (hs : c₁.service = some (userId, service)) :
    c₁ ∈ ((system app).run es).server.calls ∨ c.Sends fun sent =>
      Named app (es ++ [.run i draws]) i sent.headers userId ∧ Server.asks sent = some service := by
  have ⟨_, _, sends⟩ := h.vouched hc stands
  rw [h.called.right, List.mem_append, Option.mem_toList] at hm
  exact hm.imp_right fun hm => sends.imp fun _ ⟨_, vouched⟩ => vouched.named c₁ hm userId service hs

theorem Authorized.change (h : Authorized app es ((system app).run es))
    (change : Change ((system app).run es) e w') : Authorized app (es ++ [e]) w' := by
  intro call hm userId service hs
  have old (hm : call ∈ ((system app).run es).server.calls) : ∃ (i : Nat) (c : Connection),
      w'.connections[i]? = some c ∧ c.Sends fun sent =>
        Named app (es ++ [e]) i sent.headers userId ∧ Server.asks sent = some service := by
    have ⟨i, c, hc, sends⟩ := h call hm userId service hs
    have ⟨c', hc', keeps⟩ := change.sends hc
    exact ⟨i, c', hc', keeps <| sends.imp fun _ ⟨named, asks⟩ => ⟨named.later e, asks⟩⟩
  cases change
  case goes i c _ _ _ _ _ hc goes _ =>
    obtain hm | sends := goes.authorized hc (stands_run es i c hc) hm hs
    · exact old hm
    · exact ⟨i, _, (getElem?_set_iff hc).mpr <| .inl ⟨rfl, rfl⟩, sends⟩
  case crash i c _ _ _ _ _ hc goes _ _ =>
    obtain hm | sends := goes.authorized hc (stands_run es i c hc) hm hs
    · exact old hm
    · exact ⟨i, c, hc, sends⟩
  all_goals exact old hm

theorem authorized_run (es : List (Event α)) : Authorized app es ((system app).run es) := by
  induction es using List.reverseRecOn
  case nil => exact fun _ hm => by cases hm
  case append_singleton es e ih =>
    rw [System.run_concat]
    exact ih.change <| step_change ..

-- What becomes of the messenger between its own changes are calls of handlers. In whatever order bytes
-- arrive and tasks go on: what is done for a user by a call has been asked for on a connection, and after
-- the head of the request had arrived the sessions named the user for its cookies.
theorem served_authorized (app : α) (es : List (Event α)) :
    (∀ e, (∀ app', e ≠ .app app') → ∃ calls,
      ((system app).run (es ++ [e])).server.calls = ((system app).run es).server.calls ++ calls ∧
      ((system app).run (es ++ [e])).server.app =
        Call.performAll ((system app).run es).server.app calls) ∧
    ∀ call ∈ ((system app).run es).server.calls, ∀ userId service,
      call.service = some (userId, service) → ∃ (i : Nat) (c : Connection) (request : Request),
        ((system app).run es).connections[i]? = some c ∧ c.request = some request ∧
        Server.asks request = some service ∧
        ∃ es₁ es₂, es = es₁ ++ es₂ ∧ ((system app).run es₁).Names i request.headers userId := by
  refine ⟨fun e own => ?_, fun call hm userId service hs => ?_⟩
  · rw [System.run_concat]
    exact (step_change _ e).calls own
  · have ⟨i, c, hc, sends⟩ := authorized_run es call hm userId service hs
    have ⟨request, hr, named, asks⟩ := sends.exists_request
    exact ⟨i, c, request, hc, hr, asks, named⟩

end Runs

-- The user logs out while the text of a message is still on its way.
theorem served_authorized_example :
    let _ := asciiUnicode
    let _ := clearText
    let _ := noEscapes
    let _ := decimalIds
    let _ := plainText
    let _ := HttpServer.Request.addressSpace
    let draws : Draws := ⟨"a", 1, some "salt", 10, 0⟩
    let head (line : String) : List UInt8 :=
      Utf8.encode (line ++ " HTTP/1.1\r\nCookie: _pheidippides_sid=a\r\n")
    let length : List UInt8 := Utf8.encode "Content-Length: 5\r\n\r\n"
    let es : List (Event World) := [
      .accept, .receive 0 (head "POST /signup"), .accept, .receive 0 (length ++ Utf8.encode "Ada x"),
      .run 0 draws, .run 0 draws, .run 0 draws, .run 0 draws,
      .receive 1 (head "POST /message/2" ++ length), .run 1 draws, .accept,
      .receive 2 (head "GET /logout" ++ Utf8.encode "\r\n"), .run 2 draws,
      .receive 1 (Utf8.encode "hello"), .run 1 draws, .run 1 draws]
    ∃ (i : Nat) (c : Connection) (request : Request),
      ((system .empty).run es).connections[i]? = some c ∧ c.request = some request ∧
      Server.asks request = some (.sendMessage "hello" 2) ∧
      ∃ es₁ es₂, es = es₁ ++ es₂ ∧ ((system .empty).run es₁).Names i request.headers 1 := by
  intro _ _ _ _ _ _ draws head length es
  have called : .sendMessage "hello" 1 2 10 0 ∈ ((system World.empty).run es).server.calls := by
    decide +kernel
  exact (served_authorized World.empty es).right _ called _ _ rfl

end Listener
end Pheidippides
