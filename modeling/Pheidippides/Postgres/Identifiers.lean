import Pheidippides.Primitives.Quoting
import Pheidippides.Utils.Str

namespace Pheidippides.Postgres

inductive LexError
  | notQuoted
  | unterminated
  | zeroLength
  deriving DecidableEq, Repr

-- The token at the beginning of a SQL text, where that is a quoted identifier, and what is left of the
-- text. It is the only kind of token that begins with a double quote. A zero character ends the text. The
-- server goes on to cut off names which are too long.
def quotedIdentifier (sql : String) : Except LexError (String × String) :=
  match sql.toList with
  | [] => .error .notQuoted
  | c :: l =>
    if c ≠ '"' then
      .error .notQuoted
    else match Quoting.read '"' .inside l with
      | none              => .error .unterminated
      | some (name, rest) =>
        if '\x00' ∈ name then .error .unterminated
        else if name = [] then .error .zeroLength
        else .ok (.ofList name, .ofList rest)

-- `NAMEDATALEN - 1`
def maxNameBytes : Nat := 63

def pgId (input : String) : String :=
  "\"" ++ Str.replace '"' "\"\"" input ++ "\""

-- The text of the id is drawn by the call.
def tempTableName (name uuid : String) : String :=
  pgId ("temp_" ++ name ++ "_" ++ uuid)

end Pheidippides.Postgres
