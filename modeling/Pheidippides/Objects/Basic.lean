import Mathlib.Data.List.Basic

namespace Pheidippides

-- Ids are 128 bit values in the source. Only their equality and (in Postgres) their order is used.
abbrev Uuid      := Nat
abbrev MessageId := Uuid
abbrev UserId    := Uuid

-- Nanoseconds since the start of 2000.
abbrev Timestamp := Int

structure User where
  username : String
  id       : UserId
  deriving DecidableEq, Repr

-- The fields `from` and `to` of the source carry the names of their database columns.
structure Message where
  id        : MessageId
  sender    : UserId
  receiver  : UserId
  message   : String
  timestamp : Timestamp
  deriving DecidableEq, Repr

namespace Message

def Concerns (m : Message) (u : UserId) : Prop :=
  m.sender = u ∨ m.receiver = u

instance (m : Message) (u : UserId) : Decidable (m.Concerns u) :=
  inferInstanceAs (Decidable (_ ∨ _))

def Between (m : Message) (u₁ u₂ : UserId) : Prop :=
  (m.sender = u₁ ∧ m.receiver = u₂) ∨ (m.sender = u₂ ∧ m.receiver = u₁)

instance (m : Message) (u₁ u₂ : UserId) : Decidable (m.Between u₁ u₂) :=
  inferInstanceAs (Decidable (_ ∨ _))

theorem Between.concerns {m : Message} {u₁ u₂ : UserId} : (m.Between u₁ u₂) → m.Concerns u₁
  | .inl ⟨h, _⟩ => .inl h
  | .inr ⟨_, h⟩ => .inr h

theorem Between.unique {m : Message} {u v v' : UserId} (h : m.Between u v) (h' : m.Between u v') :
    v = v' := by
  obtain ⟨hs, hr⟩ | ⟨hs, hr⟩ := h <;> obtain ⟨hs', hr'⟩ | ⟨hs', hr'⟩ := h'
  · exact hr.symm.trans hr'
  · exact (hr.symm.trans hr').trans <| hs.symm.trans hs'
  · exact (hs.symm.trans hs').trans <| hr.symm.trans hr'
  · exact hs.symm.trans hs'

end Message

-- `MESSAGE_LOAD_BUF_SIZE`
def messageLoadBufSize : Nat := 50

end Pheidippides
