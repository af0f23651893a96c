import Pheidippides.Postgres.Identifiers
import Pheidippides.Primitives.Scan
import Pheidippides.Primitives.Utf8

open Quoting

namespace Pheidippides.Postgres

variable {s t sql name rest : String}

theorem toList_pgId (s : String) : (pgId s).toList = '"' :: double '"' s.toList ++ ['"'] := by
  simp [pgId, Str.replace, double]

-- All texts that begin with a quoted identifier.
theorem quotedIdentifier_eq_ok_iff : quotedIdentifier sql = .ok (name, rest) ↔
    sql.toList = '"' :: (double '"' name.toList ++ '"' :: rest.toList) ∧
      rest.toList.head? ≠ some '"' ∧ '\x00' ∉ name.toList ∧ name ≠ "" := by
  rw [quotedIdentifier]
  cases sql.toList
  case nil => simp
  case cons c l =>
    by_cases hc : c = '"'
    case neg => simp [hc]
    case pos =>
      dsimp only
      rw [if_neg (not_not.mpr hc), hc, List.cons_inj_right, ← and_assoc, ← read_eq_some_iff]
      cases read '"' .inside l
      case none => simp
      case some token =>
        obtain ⟨name', rest'⟩ := token
        have same {l : List Char} {s : String} : l = s.toList ↔ .ofList l = s := by
          rw [← String.toList_inj, String.toList_ofList]
        simp only [Option.some.injEq, Prod.mk.injEq, same]
        split_ifs with nul empty
        case pos => exact iff_of_false nofun fun ⟨⟨h, _⟩, hn, _⟩ => hn <| by simpa [← h] using nul
        case pos => exact iff_of_false nofun fun ⟨⟨h, _⟩, _, hn⟩ => hn <| by simp [← h, empty]
        case neg =>
          constructor
          case mp =>
            rintro ⟨⟩
            exact ⟨⟨rfl, rfl⟩, by simpa using nul, by simpa using empty⟩
          case mpr =>
            rintro ⟨⟨rfl, rfl⟩, _⟩
            rfl

-- An identifier is read as what has been quoted.
theorem quotedIdentifier_pgId (ne : s ≠ "") (nul : '\x00' ∉ s.toList) (ht : t.toList.head? ≠ some '"') :
    quotedIdentifier (pgId s ++ t) = .ok (s, t) :=
  quotedIdentifier_eq_ok_iff.mpr ⟨by simp [toList_pgId], ht, nul, ne⟩

theorem isPrefix_of_quotedIdentifier (h : quotedIdentifier (pgId s ++ t) = .ok (name, rest)) :
    s.toList <+: name.toList ∧ rest.toList <:+ t.toList := by
  have ⟨split, ends, _⟩ := quotedIdentifier_eq_ok_iff.mp h
  have body : double '"' s.toList ++ '"' :: t.toList = double '"' name.toList ++ '"' :: rest.toList := by
    simpa [toList_pgId] using split
  exact isPrefix_of_read <| read_eq_some_iff.mpr ⟨body, ends⟩

theorem pgId_injective : pgId.Injective := by
  intro s t h
  have body : double '"' s.toList = double '"' t.toList := by
    simpa [toList_pgId] using congrArg String.toList h
  exact String.toList_inj.mp <| double_injective body

-- An identifier is read as what has been quoted, unless another quote follows. What it holds never ends
-- it, whatever follows.
theorem pgId_quotes :
    (∀ {s t : String}, s ≠ "" → '\x00' ∉ s.toList → t.toList.head? ≠ some '"' →
      quotedIdentifier (pgId s ++ t) = .ok (s, t)) ∧
    pgId.Injective ∧
    ∀ {s t name rest : String}, quotedIdentifier (pgId s ++ t) = .ok (name, rest) →
      s.toList <+: name.toList ∧ rest.toList <:+ t.toList :=
  ⟨quotedIdentifier_pgId, pgId_injective, isPrefix_of_quotedIdentifier⟩

-- A statement in a name, a name which consists of quotes, and a quote that follows a name.
theorem pgId_quotes_example :
    quotedIdentifier "\"a\"\"; drop table users; --\" (id uuid)" =
      .ok ("a\"; drop table users; --", " (id uuid)") ∧
    quotedIdentifier "\"\"\"\"\"\"" = .ok ("\"\"", "") ∧
    "a".toList <+: "a\"b".toList := by
  have injection : pgId "a\"; drop table users; --" ++ " (id uuid)" =
      "\"a\"\"; drop table users; --\" (id uuid)" := by decide
  have quotes : pgId "\"\"" ++ "" = "\"\"\"\"\"\"" := by decide
  have follows : quotedIdentifier (pgId "a" ++ "\"b\" c") = .ok ("a\"b", " c") := by decide
  rw [← injection, ← quotes]
  exact ⟨pgId_quotes.left (by decide) (by decide) (by decide),
    pgId_quotes.left (by decide) (by decide) (by decide), (pgId_quotes.right.right follows).left⟩

theorem quotedIdentifier_tempTableName {uuid : String} (hn : '\x00' ∉ name.toList)
    (hu : '\x00' ∉ uuid.toList) (ht : t.toList.head? ≠ some '"') :
    quotedIdentifier (tempTableName name uuid ++ t) = .ok ("temp_" ++ name ++ "_" ++ uuid, t) := by
  refine quotedIdentifier_pgId (by simp) ?_ ht
  simp [hn, hu]

-- The names of both tables are kept as they are. The text of an id has 36 characters.
theorem tempTableName_fits {uuid : String} (hu : (Utf8.encode uuid).length = 36) :
    ∀ name ∈ ["chat_ids", "chat_ids_grouped"],
      (Utf8.encode ("temp_" ++ name ++ "_" ++ uuid)).length ≤ maxNameBytes := by
  have fixed : ∀ name ∈ ["chat_ids", "chat_ids_grouped"],
      (Utf8.encode ("temp_" ++ name ++ "_")).length ≤ 22 := by decide
  intro name hm
  have := fixed name hm
  rw [Utf8.encode_append, List.length_append, hu, maxNameBytes]
  omega

-- Tables of different names or of different calls are different.
theorem tempTableName_inj {name' uuid uuid' : String} (hu : '_' ∉ uuid.toList)
    (hu' : '_' ∉ uuid'.toList) :
    tempTableName name uuid = tempTableName name' uuid' ↔ name = name' ∧ uuid = uuid' := by
  refine ⟨fun h => ?_, fun ⟨hn, hu⟩ => hn ▸ hu ▸ rfl⟩
  have h : name.toList ++ '_' :: uuid.toList = name'.toList ++ '_' :: uuid'.toList := by
    simpa using congrArg String.toList <| pgId_injective h
  -- The last underscore is the one in front of the id.
  have uuids : uuid.toList.reverse = uuid'.toList.reverse := by
    have last := congrArg (fun l => l.reverse.takeWhile (· ≠ '_')) h
    simp only [List.reverse_append, List.reverse_cons, List.append_assoc, List.singleton_append] at last
    rwa [Scan.takeWhile_append (by simpa using hu), Scan.takeWhile_append (by simpa using hu')] at last
  have same := String.toList_inj.mp <| List.reverse_inj.mp uuids
  subst same
  exact ⟨String.toList_inj.mp <| List.append_cancel_right h, rfl⟩

end Pheidippides.Postgres
