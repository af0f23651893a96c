import Mathlib.Data.List.Infix

-- The patterns of `like` in SQL: `%` stands for any string, `_` for any character, and a backslash takes
-- away the meaning of the character that follows it.
namespace Like

inductive Token
  | anyString
  | anyChar
  | literal (c : Char)
  deriving DecidableEq, Repr

def token (c : Char) : Token :=
  if c = '%' then .anyString else if c = '_' then .anyChar else .literal c

-- A pattern must not end with the escape character.
def tokens : List Char → Option (List Token)
  | []          => some []
  | [c]         => if c = '\\' then none else some [token c]
  | c :: d :: l =>
    if c = '\\' then (tokens l).map (.literal d :: ·) else (tokens (d :: l)).map (token c :: ·)

def accepts : List Token → List Char → Bool
  | [], text                  => text.isEmpty
  | .anyString :: pat, text   => text.tails.any (accepts pat ·)
  | .anyChar :: _, []         => false
  | .anyChar :: pat, _ :: text => accepts pat text
  | .literal _ :: _, []        => false
  | .literal c :: pat, d :: text => c == d && accepts pat text

def Special (c : Char) : Prop :=
  c = '%' ∨ c = '_' ∨ c = '\\'

instance (c : Char) : Decidable (Special c) :=
  inferInstanceAs (Decidable (_ ∨ _))

-- The shortest text which a pattern accepts, where `x` stands for any character.
def shortest (x : Char) : List Token → List Char
  | []                 => []
  | .anyString :: pat  => shortest x pat
  | .anyChar :: pat    => x :: shortest x pat
  | .literal c :: pat  => c :: shortest x pat

-- How many characters a text needs at least.
def need (pat : List Token) : Nat :=
  pat.countP (· ≠ .anyString)

variable {pat : List Token} {l text : List Char} {c x : Char}

theorem token_eq_literal (h : ¬Special c) : token c = .literal c := by
  rw [Special, not_or, not_or] at h
  rw [token, if_neg h.left, if_neg h.right.left]

theorem accepts_anyString_iff :
    accepts (.anyString :: pat) text ↔ ∃ rest, rest <:+ text ∧ accepts pat rest := by
  simp [accepts]

theorem accepts_literals_iff :
    accepts (l.map .literal ++ pat) text ↔ ∃ rest, text = l ++ rest ∧ accepts pat rest := by
  induction l generalizing text
  case nil         => simp
  case cons c l ih =>
    cases text
    case nil         => simp [accepts]
    case cons d text => simp [accepts, ih, eq_comm (a := c), and_assoc]

-- The pattern of the texts that contain `l`.
theorem accepts_contains_iff :
    accepts (.anyString :: (l.map .literal ++ [.anyString])) text ↔ l <:+: text := by
  rw [accepts_anyString_iff]
  constructor
  case mp =>
    rintro ⟨_, ⟨init, rfl⟩, h⟩
    have ⟨rest, hr, _⟩ := accepts_literals_iff.mp h
    exact ⟨init, rest, by simp [hr]⟩
  case mpr =>
    rintro ⟨init, rest, rfl⟩
    refine ⟨l ++ rest, ⟨init, by simp⟩, accepts_literals_iff.mpr ⟨rest, rfl, ?_⟩⟩
    exact accepts_anyString_iff.mpr ⟨[], List.nil_suffix, rfl⟩

theorem accepts_shortest (x : Char) (pat : List Token) : accepts pat (shortest x pat) := by
  induction pat
  case nil => rfl
  case cons token pat ih =>
    cases token
    case anyString => exact accepts_anyString_iff.mpr ⟨_, List.suffix_rfl, ih⟩
    case anyChar   => exact ih
    case literal   => simpa [shortest, accepts] using ih

@[simp]
theorem need_anyString : need (.anyString :: pat) = need pat :=
  rfl

theorem length_shortest (x : Char) (pat : List Token) : (shortest x pat).length = need pat := by
  induction pat
  case nil                => rfl
  case cons token pat ih => cases token <;> simp_all [shortest, need]

theorem mem_shortest (h : c ∈ shortest x pat) : c = x ∨ .literal c ∈ pat := by
  induction pat
  case nil => cases h
  case cons token pat ih =>
    cases token
    case anyString => exact (ih h).imp_right <| List.mem_cons_of_mem _
    case anyChar | literal =>
      obtain h | h := List.mem_cons.mp h
      · simp [h]
      · exact (ih h).imp_right <| List.mem_cons_of_mem _

theorem need_le_length (h : accepts pat text) : need pat ≤ text.length := by
  rw [← length_shortest 'a']
  induction pat generalizing text
  case nil => exact Nat.zero_le _
  case cons token pat ih =>
    cases token
    case anyString =>
      have ⟨rest, hs, h⟩ := accepts_anyString_iff.mp h
      exact (ih h).trans hs.length_le
    case anyChar =>
      cases text
      case nil  => simp [accepts] at h
      case cons => exact Nat.succ_le_succ <| ih h
    case literal =>
      cases text
      case nil  => simp [accepts] at h
      case cons => exact Nat.succ_le_succ <| ih <| (Bool.and_eq_true_iff.mp h).right

theorem tokens_cons (h : l ≠ []) (c : Char) :
    tokens (c :: l) = if c = '\\' then (tokens l.tail).map (.literal (l.head h) :: ·)
      else (tokens l).map (token c :: ·) := by
  cases l
  case nil  => contradiction
  case cons => rfl

theorem eq_of_token (h : token c = .literal x) : c = x := by
  grind [token]

theorem mem_of_literal_mem_tokens (h : tokens l = some pat) (hc : .literal c ∈ pat) : c ∈ l := by
  induction l using tokens.induct generalizing pat
  case case1 => cases h; cases hc
  case case2 => simp [tokens] at h
  case case3 d hd =>
    rw [tokens, if_neg hd] at h
    cases h
    rw [eq_of_token (List.mem_singleton.mp hc).symm]
    exact List.mem_cons_self
  case case4 d l ih =>
    rw [tokens, if_pos rfl] at h
    obtain ⟨pat, ht, rfl⟩ := Option.map_eq_some_iff.mp h
    obtain hc | hc := List.mem_cons.mp hc
    · simp_all
    · simp [ih ht hc]
  case case5 c' d l hc' ih =>
    rw [tokens, if_neg hc'] at h
    obtain ⟨pat, ht, rfl⟩ := Option.map_eq_some_iff.mp h
    obtain hc | hc := List.mem_cons.mp hc
    · simp [eq_of_token hc.symm]
    · exact List.mem_cons_of_mem _ <| ih ht hc

theorem tokens_of_not_special (h : ∀ c ∈ l, ¬Special c) :
    tokens (l ++ ['%']) = some (l.map .literal ++ [.anyString]) := by
  induction l
  case nil => rfl
  case cons c l ih =>
    have hc := h c List.mem_cons_self
    rw [List.cons_append, tokens_cons <| by simp, if_neg (hc <| .inr <| .inr ·), token_eq_literal hc,
      ih fun d hd => h d <| List.mem_cons_of_mem _ hd]
    rfl

theorem shortest_token_cons (hx : x ≠ '_') (hc : c ≠ '\\') (hl : (shortest x pat).length ≤ l.length)
    (hs : shortest x pat = l → ∀ d ∈ l, ¬Special d) :
    (shortest x (token c :: pat)).length ≤ (c :: l).length ∧
      (shortest x (token c :: pat) = c :: l → ∀ d ∈ c :: l, ¬Special d) := by
  by_cases h : Special c
  case neg =>
    rw [token_eq_literal h]
    exact ⟨Nat.succ_le_succ hl, fun he => by simpa [h] using hs (List.cons_inj_right c |>.mp he)⟩
  case pos =>
    obtain rfl | rfl | rfl := h
    · refine ⟨Nat.le_succ_of_le hl, fun he => ?_⟩
      have := congrArg List.length (show shortest x pat = '%' :: l from he)
      simp only [List.length_cons] at this
      omega
    · exact ⟨Nat.succ_le_succ hl, fun he => absurd (List.cons.inj he).left hx⟩
    · contradiction

-- What a pattern `l%` accepts may be as short as `l`, and is not `l` itself then if there are special
-- characters in it.
theorem exists_tokens (hx : x ≠ '_') (l : List Char) : ∃ pat, tokens (l ++ ['%']) = some pat ∧
    (shortest x pat).length ≤ l.length ∧ (shortest x pat = l → ∀ c ∈ l, ¬Special c) := by
  induction hl : l.length using Nat.strong_induction_on generalizing l
  subst hl
  rename_i ih
  match l with
  | [] => exact ⟨[.anyString], rfl, by simp [shortest], by simp⟩
  | [c] =>
    by_cases hc : c = '\\'
    case pos => exact ⟨[.literal '%'], by simp [tokens, hc], by simp [shortest], by simp [shortest, hc]⟩
    case neg =>
      have h := @shortest_token_cons [.anyString] [] c x hx hc (by simp [shortest]) (by simp)
      exact ⟨[token c, .anyString], by simp [tokens, hc, token], h⟩
  | c :: d :: l =>
    by_cases hc : c = '\\'
    case pos =>
      have ⟨pat, ht, hl, _⟩ := ih l.length (Nat.lt_add_right 1 <| Nat.lt_add_one _) l rfl
      refine ⟨.literal d :: pat, by simp [tokens, hc, ht], Nat.le_succ_of_le <| Nat.succ_le_succ hl, ?_⟩
      intro h
      have := congrArg List.length h
      simp only [shortest, List.length_cons] at this
      omega
    case neg =>
      have ⟨pat, ht, hl, hs⟩ := ih (d :: l).length (by simp) (d :: l) rfl
      refine ⟨token c :: pat, ?_, shortest_token_cons hx hc hl hs⟩
      rw [List.cons_append, tokens_cons <| by simp, if_neg hc, ht]
      rfl

end Like
