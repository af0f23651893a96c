import Pheidippides.HttpServer.Theorems.Written
import Pheidippides.Web.Theorems.Listener

open Pheidippides.HttpServer (Reading)
open Pheidippides.HttpServer.Request (Fits announced tryFromStream)
open Pheidippides.Routing (contract)

namespace Pheidippides

namespace Connection

variable [Unicode] [HttpServer.Allocator] {c c' : Connection} {request : Request}

namespace Ready

theorem congr (h : c.Ready request) (hr : c'.received = c.received) (hc : c'.closed = c.closed) :
    c'.Ready request := by
  rwa [Ready, hr, hc]

theorem close (h : c.Ready request) : c.close.Ready request :=
  have ⟨read, hr, he, hn⟩ := h
  ⟨read, hr, he, fun n hm => ⟨(hn n hm).left, .inr rfl⟩⟩

-- What comes behind a request does not change it.
theorem receive (h : c.Ready request) (bytes : List UInt8) : (c.receive bytes).Ready request := by
  rw [Connection.receive]
  split_ifs with open'
  · exact h
  obtain ⟨read, hr, rfl, hn⟩ := h
  refine ⟨_, HttpServer.Request.tryFromStream_append hr bytes, ?_, fun n hm => ?_⟩
  · exact HttpServer.Request.toRequest_append (fun n hm _ => (hn n hm).right.resolve_right open') bytes
  · have there := (hn n hm).right.resolve_right open'
    exact ⟨(hn n hm).left, .inl <| there.trans <| List.length_append ▸ Nat.le_add_right ..⟩

end Ready

end Connection

namespace Listener

variable {α ε : Type} {app : α} {w : Listener α} {es : List (Event α)} {e : Event α} {i j n : Nat}
  {c : Connection} {read : HttpServer.Request} {request : Request} {draws : Draws} {t : Progress}
  {task : Connection.Task} {next : Handler.Rest × Server α}

variable [Unicode] [UrlEscape] [UuidText] [SerdeJson]

-- The task has to be run so many times at most until the request is answered.
inductive Due (request : Request) (n : Nat) : Connection.Task → Prop
  | reading {reading : Reading} : 5 ≤ n → Due request n (.reading reading)
  | handling {read : HttpServer.Request} {op : Operation} {next : op.Result → Handler.Rest} {draws : Draws}
    {t : Progress} : op.waits = true → Program.Meets (contract request draws) t (.op op next) →
    t.waits ≤ n → Due request n (.handling read op next)
  | answered {response : Response} : Due request n (.answered response)

namespace Due

theorem task_receive (h : Due request n task) (bytes : List UInt8) :
    Due request n (task.receive bytes) := by
  cases h
  case reading h            => exact .reading h
  case handling hw meets le => exact .handling hw meets le
  case answered             => exact .answered

theorem receive [HttpServer.Allocator] (h : Due request n c.task) (bytes : List UInt8) :
    Due request n (c.receive bytes).task := by
  unfold Connection.receive
  split_ifs
  · exact h
  · exact h.task_receive bytes

end Due

variable [App α ε] [HttpServer.Allocator]

end Listener

namespace HttpServer.Written

variable [Unicode] [LawfulUnicode] {w : Written} {c : Connection}

end HttpServer.Written

namespace Listener

section Written

variable {α ε : Type} [App α ε] [Unicode] [LawfulUnicode] [HttpServer.Allocator] [UrlEscape] [UuidText]
  [SerdeJson] {app : α} {i : Nat} {c : Connection}

end Written

end Listener
end Pheidippides
