import Pheidippides.Messenger.Theorems.CatchUp

open Broadcast

namespace Pheidippides.World

variable {w : World} {i : Nat} {st : Stream} {m : Message} {u : UserId} {es : List Event}

-- A message of one of the user's chats, which the store holds because it has been sent.
def Genuine (es : List Event) (u : UserId) (m : Message) : Prop :=
  m.Concerns u ∧ m ∈ (system.run es).messages ∧ .create m ∈ es

theorem genuine_iff : Genuine es u m ↔ m.Concerns u ∧ m ∈ (system.run es).messages := by
  rw [Genuine, mem_messages_run_iff, and_self]

namespace Coherent

theorem concerns_of_mem_arrived (c : w.Coherent) (hi : w.streams[i]? = some st)
    (h : m ∈ w.hub.arrived st.rx) : m.Concerns st.userId := by
  have hu : w.handler.registered[st.rx]? = some st.userId := by simp [c.users, c.numbered hi, hi]
  have ⟨rx, hr⟩ := c.wired.receiver_of_registered hu
  exact c.wired.arrived hu hr <| List.mem_of_mem_drop <| Hub.arrived_eq hr ▸ h

theorem of_mem_fetched (c : w.Coherent) (hi : w.streams[i]? = some st) (h : m ∈ st.fetched) :
    m.Concerns st.userId ∧ m ∈ w.messages := by
  have f := c.fetched hi
  rw [f.fetched] at h
  split at h
  case h_1 => cases h
  case h_2 => exact (MockDb.of_mem_usersMessagesSince h).imp_right (f.stored.subset ·)

-- Whatever is on its way to the receiver that has been returned, or has come out of it.
theorem of_mem_forwarded (c : w.Coherent) (hi : w.streams[i]? = some st) (h : m ∈ st.forwarded) :
    m.Concerns st.userId ∧ m ∈ w.messages := by
  have h := st.expected_eq w.hub ▸ (c.sound hi).cut.subset h
  obtain hf | hl := List.mem_append.mp h
  · exact c.of_mem_fetched hi hf
  · have ha := List.mem_of_mem_filter hl
    exact ⟨c.concerns_of_mem_arrived hi ha, c.mem_messages_of_mem_arrived ha⟩

end Coherent

-- A message comes out of a receiver in the step in which it is taken from the receiver's queue.
theorem Coherent.received_step (c : w.Coherent) {e : Event} (hi : (w.step e).streams[i]? = some st)
    (hm : m ∈ st.received) : ∃ st₀, w.streams[i]? = some st₀ ∧ st₀.userId = st.userId ∧
      (m ∈ st₀.received ∨ (e = .stream i .recv ∧ m ∈ st₀.out.queue)) := by
  cases h : w.streams[i]?
  case none =>
    have hl := List.getElem?_eq_none_iff.mp h
    cases e
    case create m => simp [step, c.create_eq, h] at hi
    case announce m =>
      simp only [step, World.announce] at hi
      split at hi <;> simp [h] at hi
    case register u startingPoint =>
      simp only [step, World.register, List.getElem?_append_right hl] at hi
      obtain ⟨_, rfl⟩ := List.mem_singleton.mp <| List.mem_of_getElem? hi
      cases hm
    case stream j a =>
      simp only [step, World.onStream] at hi
      split at hi <;> simp [hl] at hi
    case cleanup => simp [step, h] at hi
  case some st₀ =>
    refine ⟨st₀, rfl, ?_⟩
    obtain ⟨a, rfl, hi'⟩ | hi' := step_streams c e h <;> cases hi'.symm.trans hi
    case inr => exact ⟨rfl, .inl hm⟩
    case inl =>
      refine ⟨(st₀.act_fixed ..).left.symm, ?_⟩
      have spec := st₀.act_spec w.db w.hub a
      generalize st₀.act w.db w.hub a = res at spec hm
      cases spec
      case received hq =>
        obtain hm | hm := List.mem_append.mp hm
        · exact .inl hm
        · exact .inr ⟨rfl, hq ▸ List.mem_singleton.mp hm ▸ List.mem_cons_self⟩
      all_goals exact .inl hm

-- At the moment in which it is delivered, a message is one of the user's and has been sent.
theorem received_genuine (hi : (system.run es).streams[i]? = some st) (hm : m ∈ st.received) :
    ∃ es₁ es₂, es = es₁ ++ .stream i .recv :: es₂ ∧ Genuine es₁ st.userId m := by
  induction es using List.reverseRecOn generalizing st
  case nil => simp [system, empty] at hi
  case append_singleton es e ih =>
    have c := coherent_invariant.run es
    rw [System.run_concat] at hi
    obtain ⟨st₀, hi₀, hu, hm | ⟨rfl, hq⟩⟩ := c.received_step hi hm
    · obtain ⟨es₁, es₂, he, hg⟩ := ih hi₀ hm
      exact ⟨es₁, es₂ ++ [e], by simp [he], hu ▸ hg⟩
    · have forwarded : m ∈ st₀.forwarded := by simp [Stream.forwarded, hq]
      exact ⟨es, [], rfl, hu ▸ genuine_iff.mpr (c.of_mem_forwarded hi₀ forwarded)⟩

end Pheidippides.World
