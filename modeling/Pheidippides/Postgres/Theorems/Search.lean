import Pheidippides.Postgres.Users

open Pheidippides.Unicode

namespace Pheidippides

open Postgres

namespace PostgresUsers

theorem length_lower [SqlLower] (s : String) : (lower s).length = s.length := by
  rw [lower, String.length_ofList, List.length_map, String.length_toList]

-- What the default implementation does with the rows.
theorem defaultFind_eq [Unicode] (db : PostgresUsers) (searchQuery : String) :
    DataAccess.defaultFindUsersBySubstring db.fetchUsers searchQuery = db.users.filter fun user =>
      strContains (toLowercase user.username) (toLowercase searchQuery) := by
  rw [DataAccess.defaultFindUsersBySubstring, fetchUsers, List.filterMap_map, ← List.filterMap_eq_filter]
  rfl

section

variable [Unicode] [SqlLower] {searchQuery : String} {db : PostgresUsers} {pat : List Like.Token}

-- `pat` is the pattern without its first `%`.
theorem findUsersBySubstring_iff (text : IsText (toLowercase searchQuery))
    (ht : Like.tokens ((toLowercase searchQuery).toList ++ ['%']) = some pat)
    {found : Except PgError (List User)} : db.FindUsersBySubstring searchQuery found ↔
      ∃ users, found = .ok users ∧ users.Perm (db.users.filter fun user =>
        Like.accepts (.anyString :: pat) (lower user.username).toList) := by
  have bound : bind ("%" ++ toLowercase searchQuery ++ "%") =
      .ok ("%" ++ toLowercase searchQuery ++ "%") := if_pos (by simpa [IsText] using text)
  have tokens : Like.tokens ("%" ++ toLowercase searchQuery ++ "%").toList =
      some (.anyString :: pat) := by
    have hc : '%' ≠ '\\' := by decide
    have h : (toLowercase searchQuery).toList ++ ['%'] ≠ [] := by simp
    simpa [if_neg hc, ht, Like.token] using Like.tokens_cons h '%'
  rw [FindUsersBySubstring, bound]
  simp only [tokens]

-- A query finds what it should if the pattern fits the names which the substring is in.
theorem searches_of_forall (text : IsText (toLowercase searchQuery))
    (ht : Like.tokens ((toLowercase searchQuery).toList ++ ['%']) = some pat)
    (h : ∀ name : String, name.length ≤ 150 →
      (Like.accepts (.anyString :: pat) name.toList ↔ (toLowercase searchQuery).toList <:+: name.toList)) :
    SearchesSubstring searchQuery := by
  intro db fold found hf
  obtain ⟨users, rfl, perm⟩ := (findUsersBySubstring_iff text ht).mp hf
  refine ⟨users, rfl, perm.trans <| .of_eq ?_⟩
  rw [defaultFind_eq]
  refine List.filter_congr fun user hu => ?_
  have hl : (lower user.username).length ≤ 150 := length_lower user.username ▸ (db.columns user hu).right
  rw [Bool.eq_iff_iff, h _ hl, (fold user hu).right, strContains, decide_eq_true_iff]

theorem searches_of_not_special (text : IsText (toLowercase searchQuery))
    (h : ∀ c ∈ (toLowercase searchQuery).toList, ¬Like.Special c) : SearchesSubstring searchQuery :=
  searches_of_forall text (Like.tokens_of_not_special h) fun _ _ => Like.accepts_contains_iff

theorem searches_of_tooLong (text : IsText (toLowercase searchQuery)) (h : TooLong searchQuery) :
    SearchesSubstring searchQuery := by
  have ⟨pat, ht, hl, _⟩ := @Like.exists_tokens 'a' (by decide) (toLowercase searchQuery).toList
  have long := h pat ht
  refine searches_of_forall text ht fun name hn => iff_of_false (fun ha => ?_) fun hi => ?_
  · have need := Like.need_le_length ha
    rw [Like.need_anyString, String.length_toList] at need
    omega
  · have le := hl.trans hi.length_le
    rw [Like.length_shortest, String.length_toList] at le
    omega

-- The shortest name that the pattern fits consists of characters of the query and other lowercase ones.
theorem isLower_of_mem_shortest [LawfulLower] {c : Char}
    (ht : Like.tokens ((toLowercase searchQuery).toList ++ ['%']) = some pat)
    (h : c ∈ Like.shortest 'a' pat) :
    (c ∈ (toLowercase searchQuery).toList ∨ c = '%' ∨ c = 'a') ∧ IsLower c := by
  have mem : c ∈ (toLowercase searchQuery).toList ∨ c = '%' ∨ c = 'a' := by
    obtain rfl | h := Like.mem_shortest h
    · exact .inr <| .inr rfl
    · have mem := Like.mem_of_literal_mem_tokens ht h
      simpa [or_assoc] using Or.inl (b := c = 'a') <| List.mem_append.mp mem
  refine ⟨mem, ?_⟩
  obtain mem | rfl | rfl := mem
  · exact LawfulLower.isLower_of_mem mem
  · exact LawfulLower.percent
  · exact LawfulLower.letter

theorem fold_of_isLower [LawfulLower] {name : String}
    (h : ∀ c ∈ name.toList, IsLower c) : toLowercase name = name ∧ lower name = name := by
  refine ⟨LawfulLower.toLowercase_of_isLower h, ?_⟩
  rw [lower, List.map_congr_left fun c hc => LawfulLower.lowerChar_of_isLower <| h c hc]
  simp

-- A lowercase name which the pattern fits may be the only one which is stored, and is found then.
theorem infix_of_searches (text : IsText (toLowercase searchQuery))
    (ht : Like.tokens ((toLowercase searchQuery).toList ++ ['%']) = some pat)
    (h : SearchesSubstring searchQuery) {name : String} (nameText : IsText name)
    (short : name.length ≤ 150) (fold : toLowercase name = name) (fold' : lower name = name)
    (fits : Like.accepts (.anyString :: pat) name.toList) :
    (toLowercase searchQuery).toList <:+: name.toList := by
  let db := single name nameText short
  have folded : ∀ user ∈ db.users, SameFold user.username := by
    simpa [db, single, SameFold, fold, fold'] using nameText
  have found : db.FindUsersBySubstring searchQuery (.ok [⟨name, 0⟩]) :=
    (findUsersBySubstring_iff text ht).mpr ⟨_, rfl, by simp [db, single, fold', fits]⟩
  have ⟨users, he, perm⟩ := h db folded _ found
  cases he
  rw [defaultFind_eq] at perm
  have inside : strContains (toLowercase name) (toLowercase searchQuery) :=
    (List.mem_filter.mp <| perm.subset List.mem_cons_self).right
  rwa [strContains, decide_eq_true_iff, fold] at inside

-- The shortest name is such a name, and the substring is not in it.
theorem special_of_searches [LawfulLower] (text : IsText (toLowercase searchQuery))
    (h : SearchesSubstring searchQuery) (hn : ¬TooLong searchQuery) :
    ∀ c ∈ (toLowercase searchQuery).toList, ¬Like.Special c := by
  have ⟨pat, ht, hl, hs⟩ := @Like.exists_tokens 'a' (by decide) (toLowercase searchQuery).toList
  have mem {c} := @isLower_of_mem_shortest _ _ searchQuery pat _ c ht
  let name : String := .ofList <| Like.shortest 'a' pat
  have hc : name.toList = Like.shortest 'a' pat := String.toList_ofList
  have nameText : IsText name := by
    rw [IsText, hc]
    exact fun h => (mem h).left.elim text (by rintro (h | h) <;> cases h)
  have short : name.length ≤ 150 := by
    rw [String.length_ofList, Like.length_shortest]
    simpa [TooLong, ht] using hn
  have ⟨fold, fold'⟩ := fold_of_isLower (hc ▸ fun c h => (mem h).right : ∀ c ∈ name.toList, _)
  have fits : Like.accepts (.anyString :: pat) name.toList :=
    hc ▸ Like.accepts_anyString_iff.mpr ⟨_, List.suffix_rfl, Like.accepts_shortest 'a' pat⟩
  have inside := infix_of_searches text ht h nameText short fold fold' fits
  rw [hc] at inside
  exact hs <| (inside.eq_of_length_le hl).symm

-- The search is one for substrings if and only if the query has no special characters, or is too long
-- for any name anyway.
theorem searches_iff [LawfulLower] (h : SameFold searchQuery) : SearchesSubstring searchQuery ↔
    (∀ c ∈ (toLowercase searchQuery).toList, ¬Like.Special c) ∨ TooLong searchQuery := by
  constructor
  case mp =>
    intro hs
    by_cases hl : TooLong searchQuery
    · exact .inr hl
    · exact .inl <| special_of_searches h.left hs hl
  case mpr =>
    rintro (hs | hl)
    · exact searches_of_not_special h.left hs
    · exact searches_of_tooLong h.left hl

end

@[reducible]
def asciiSql : SqlLower where
  lowerChar := Char.toLower

theorem toLower_toLower (c : Char) : c.toLower.toLower = c.toLower := by
  by_cases h : c.val ≥ 'A'.val ∧ c.val ≤ 'Z'.val
  case neg =>
    have hc : c.toLower = c := dif_neg h
    rw [hc, hc]
  case pos =>
    have hv : c.toLower.val = c.val + ('a'.val - 'A'.val) := congrArg Char.val <| dif_pos h
    refine dif_neg fun h' => ?_
    rw [hv] at h'
    simp only [ge_iff_le, UInt32.le_iff_toNat_le, UInt32.toNat_add] at h h'
    simp at h h'
    omega

theorem lawfulLower_ascii : @LawfulLower asciiUnicode asciiSql :=
  let _ := asciiUnicode
  let _ := asciiSql
  have isLower_iff {c} : IsLower c ↔ c.toLower = c := by
    change String.ofList ((String.singleton c).toList.map Char.toLower) = _ ↔ _
    rw [← String.toList_inj]
    simp
  { percent                := isLower_iff.mpr <| by decide
    letter                 := isLower_iff.mpr <| by decide
    isLower_of_mem         := fun {s c} (h : c ∈ (String.ofList (s.toList.map Char.toLower)).toList) => by
      have ⟨d, _, hd⟩ := List.mem_map.mp <| String.toList_ofList ▸ h
      rw [isLower_iff, ← hd, toLower_toLower]
    toLowercase_of_isLower := fun {s} h => by
      change String.ofList (s.toList.map Char.toLower) = s
      rw [List.map_congr_left fun c hc => isLower_iff.mp <| h c hc]
      simp
    lowerChar_of_isLower   := isLower_iff.mp }

theorem searches_iff_example :
    let _ := asciiUnicode
    let _ := asciiSql
    SearchesSubstring "Da" :=
  let _ := asciiUnicode
  let _ := asciiSql
  let _ := lawfulLower_ascii
  have fold : (toLowercase "Da").toList = ['d', 'a'] := by decide +kernel
  (searches_iff (by decide +kernel)).mpr <| .inl <| by simp [fold, Like.Special]

-- A query for an underscore finds a name without one.
theorem not_searchesSubstring :
    let _ := asciiUnicode
    let _ := asciiSql
    let db := (empty.createUser "Ada" 1).2
    db.FindUsersBySubstring "_" (.ok [⟨"Ada", 1⟩]) ∧
    DataAccess.defaultFindUsersBySubstring db.fetchUsers "_" = [] ∧ ¬SearchesSubstring "_" := by
  intro _ _ db
  have found : db.FindUsersBySubstring "_" (.ok [⟨"Ada", 1⟩]) := by
    refine (@findUsersBySubstring_iff _ _ "_" db [.anyChar, .anyString] ?_ ?_ _).mpr ⟨_, rfl, ?_⟩
    · decide +kernel
    · decide +kernel
    · decide +kernel
  have default : DataAccess.defaultFindUsersBySubstring db.fetchUsers "_" = [] := by decide +kernel
  refine ⟨found, default, fun h => ?_⟩
  have rows : db.users = [⟨"Ada", 1⟩] := by decide +kernel
  have fold : SameFold "Ada" := by decide +kernel
  have ⟨users, he, perm⟩ := h db (by simpa [rows] using fold) _ found
  rw [default] at perm
  cases he
  cases perm.eq_nil

end PostgresUsers
end Pheidippides
