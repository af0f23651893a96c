import Pheidippides.Objects.Basic

namespace Pheidippides

inductive PgError
  | characterNotInRepertoire
  | invalidEscapeSequence
  | stringDataRightTruncation
  | datetimeFieldOverflow
  | uniqueViolation
  | foreignKeyViolation
  | connectionFailure
  deriving DecidableEq, Repr

namespace Postgres

-- A value of type `text` has no zero character.
def IsText (s : String) : Prop :=
  '\x00' ∉ s.toList

instance (s : String) : Decidable (IsText s) :=
  inferInstanceAs (Decidable (_ ∉ _))

def bind (s : String) : Except PgError String :=
  if IsText s then .ok s else .error .characterNotInRepertoire

abbrev Varchar (n : Nat) :=
  { s : String // IsText s ∧ s.length ≤ n }

-- What a column of type `character varying(n)` makes of a parameter: spaces beyond its length are cut
-- off, anything else there is refused.
def varchar (n : Nat) (s : String) : Except PgError (Varchar n) :=
  if ht : IsText s then
    if hl : s.length ≤ n then
      .ok ⟨s, ht, hl⟩
    else if (s.toList.drop n).all (· == ' ') then
      .ok ⟨.ofList <| s.toList.take n, by
        simpa [IsText] using fun h => ht <| List.mem_of_mem_take h,
        by rw [String.length_ofList]; exact List.length_take_le ..⟩
    else
      .error .stringDataRightTruncation
  else
    .error .characterNotInRepertoire

-- The driver sends the microseconds since the start of 2000. What is less than one of them is cut off,
-- on both sides of that moment.
def microseconds (t : Timestamp) : Int :=
  t.tdiv 1000

-- The times which a value of type `timestamp with time zone` can be: from 4713 BC until AD 294276.
def IsTimestamptz (t : Timestamp) : Prop :=
  -211813488000000000 ≤ microseconds t ∧ microseconds t < 9223371331200000000

instance (t : Timestamp) : Decidable (IsTimestamptz t) :=
  inferInstanceAs (Decidable (_ ∧ _))

-- What a column of this type keeps of a parameter.
def timestamptz (t : Timestamp) : Except PgError Timestamp :=
  if IsTimestamptz t then .ok (1000 * microseconds t) else .error .datetimeFieldOverflow

end Postgres
end Pheidippides
